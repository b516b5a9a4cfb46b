import Opsian.Lib.Runs

/-! # The thread scanner

The processor thread asks for an interval, the metrics thread reads
`/proc/self/task` and keeps one timer for every thread it finds. The interval
is handed over through one atomic word, with a sentinel for "do not scan". -/
namespace Opsian.Scanner.ProcScanner

/-- A thread of the process. The kernel gives a `tid` out again once its thread
has exited, `start` tells the two apart. -/
structure Thread where
  tid : Nat
  start : Nat
  deriving DecidableEq, Repr

/-- An entry of `/proc/self/task`: a name that starts with a dot, or a thread. -/
inductive DirEntry where
  | dot
  | task (thread : Thread)
  deriving DecidableEq, Repr

structure Timer where
  id : Nat
  thread : Thread
  /-- In nanoseconds, 0 while the timer is not armed. -/
  interval : Int
  deriving DecidableEq, Repr

structure State where
  lastScanThreads : List Nat
  timers : List Timer
  metricsThreadId : Nat
  processorThreadId : Nat
  metricsThreadStarted : Bool
  processorThreadStarted : Bool
  atomicIntervalInNs : UInt64
  localIntervalInNs : UInt64
  /-- The timers created so far, which are also numbered so. -/
  nextTimer : Nat
  deleted : List Nat
  metricsThread : Option Thread
  processorThread : Option Thread
  /-- The threads of the latest listing, and those alive at the latest scan. -/
  listing : List Thread
  live : List Thread
  /-- The latest request was to scan, and what it was at the latest scan that
  passed the started checks. -/
  wanted : Bool
  lastScan : Option Bool
  deriving DecidableEq, Repr

def msToNs : UInt64 := 1000000

/-- `ULONG_MAX`. -/
def notScanning : UInt64 := 0xFFFFFFFFFFFFFFFF

def init : State where
  lastScanThreads := []
  timers := []
  metricsThreadId := 0
  processorThreadId := 0
  metricsThreadStarted := false
  processorThreadStarted := false
  atomicIntervalInNs := notScanning
  localIntervalInNs := notScanning
  nextTimer := 0
  deleted := []
  metricsThread := none
  processorThread := none
  listing := []
  live := []
  wanted := false
  lastScan := none

/-! ## The processor thread -/

def onProcessorThreadStart (s : State) (th : Thread) : State :=
  { s with
    processorThreadId := th.tid
    processorThreadStarted := true
    processorThread := some th }

def isScanningThreads (s : State) : Bool :=
  s.atomicIntervalInNs != notScanning

def updateScanningThreadsInterval (s : State) (intervalInMs : UInt64) : State :=
  { s with atomicIntervalInNs := intervalInMs * msToNs }

def stopScanningThreads (s : State) : State :=
  updateScanningThreadsInterval s notScanning

def dontChangeSampleRate : UInt64 := 0

/-- What `CollectorController::startProfiling` does about elapsed time. -/
def startProfiling (s : State) (elapsedTimeStackSampleRateMillis : UInt64)
    (switchElapsedTimeProfilingOn : Bool) : State :=
  if switchElapsedTimeProfilingOn then
    if elapsedTimeStackSampleRateMillis ≠ dontChangeSampleRate then
      updateScanningThreadsInterval s elapsedTimeStackSampleRateMillis
    else s
  else if isScanningThreads s then stopScanningThreads s
  else s

/-! ## The metrics thread -/

def onMetricsThreadStart (s : State) (th : Thread) : State :=
  { s with
    metricsThreadId := th.tid
    metricsThreadStarted := true
    metricsThread := some th }

/-- `timer_settime` refuses a number of nanoseconds outside of a second, and
the error is only logged. -/
def setTimerInterval (intervalNs : Int) (timer : Timer) : Timer :=
  if 0 ≤ intervalNs ∧ intervalNs ≤ 999999999 then { timer with interval := intervalNs } else timer

/-- The thread that a timer created for `tid` signals. -/
def timerCreate (live : List Thread) (tid : Nat) : Option Thread :=
  live.find? fun th => th.tid == tid

def startTimer (live : List Thread) (s : State) (tid : Nat) (intervalNs : Int) : State :=
  match timerCreate live tid with
  | none => s
  | some th =>
    { s with
      timers := s.timers ++ [setTimerInterval intervalNs ⟨s.nextTimer, th, 0⟩]
      nextTimer := s.nextTimer + 1 }

/-- The interval is passed on as a `long`. -/
def startProfilingThread (live : List Thread) (s : State) (tid : Nat) : State :=
  startTimer live s tid s.localIntervalInNs.toInt64.toInt

def onIntervalChange (live : List Thread) (s : State) (atomicIntervalInNs : UInt64) : State :=
  let oldLocalIntervalInNs := s.localIntervalInNs
  let s := { s with localIntervalInNs := atomicIntervalInNs }
  if atomicIntervalInNs = notScanning then
    { s with timers := [], deleted := s.deleted ++ s.timers.map Timer.id }
  else if oldLocalIntervalInNs = notScanning then
    s.lastScanThreads.foldl (startProfilingThread live) s
  else
    { s with timers := s.timers.map (setTimerInterval s.localIntervalInNs.toInt64.toInt) }

def checkInterval (live : List Thread) (s : State) : State :=
  if s.atomicIntervalInNs ≠ s.localIntervalInNs then
    onIntervalChange live s s.atomicIntervalInNs
  else s

/-- One round of the `readdir` loop, with `currentThreads`. -/
def readEntry (live : List Thread) : State × List Nat → DirEntry → State × List Nat
  | x, .dot => x
  | (s, currentThreads), .task th =>
    let pid := th.tid
    if pid = s.metricsThreadId ∨ pid = s.processorThreadId then (s, currentThreads)
    else if pid ∈ s.lastScanThreads then (s, currentThreads.insert pid)
    else (startProfilingThread live s pid, currentThreads.insert pid)

def threads (entries : List DirEntry) : List Thread :=
  entries.filterMap fun
    | .dot => none
    | .task th => some th

/-- `scan_threads`, for what `/proc/self/task` holds at the time and whether
`opendir` succeeds on it. -/
def scanThreads (s : State) (opened : Bool) (entries : List DirEntry) : State :=
  let live := threads entries
  if s.metricsThreadStarted && s.processorThreadStarted then
    let s := { checkInterval live s with live := live, lastScan := some s.wanted }
    if s.localIntervalInNs = notScanning then s
    else if opened then
      let (s, currentThreads) := entries.foldl (readEntry live) (s, [])
      { s with lastScanThreads := currentThreads, listing := live }
    else s
  else s

/-! ## The fork thread -/

/-- In the child, which starts without timers of its own. -/
def resetScanThreads (_ : State) : State := init

/-! ## The system -/

inductive Label where
  | metricsStart (th : Thread)
  | processorStart (th : Thread)
  | update (intervalInMs : UInt64)
  | stop
  | sampleRate (rateMillis : UInt64) (switchOn : Bool)
  | scan (opened : Bool) (entries : List DirEntry)
  | fork
  deriving DecidableEq, Repr

/-- A switch on at a rate of 0 leaves the request as it was. -/
def requested (wanted : Bool) (rateMillis : UInt64) (switchOn : Bool) : Bool :=
  if switchOn then rateMillis != dontChangeSampleRate || wanted else false

def step (s : State) : Label → Option State
  | .metricsStart th =>
    if s.metricsThreadStarted then none else some (onMetricsThreadStart s th)
  | .processorStart th =>
    if s.processorThreadStarted then none else some (onProcessorThreadStart s th)
  | .update ms => some { updateScanningThreadsInterval s ms with wanted := true }
  | .stop => some { stopScanningThreads s with wanted := false }
  | .sampleRate rate switchOn =>
    some { startProfiling s rate switchOn with wanted := requested s.wanted rate switchOn }
  | .scan opened entries =>
    if ((threads entries).map Thread.tid).Nodup then some (scanThreads s opened entries) else none
  | .fork => some (resetScanThreads s)

end Opsian.Scanner.ProcScanner
