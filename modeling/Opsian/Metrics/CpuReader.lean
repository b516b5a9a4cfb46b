import Opsian.Metrics.Completion

/-! # The reader of the CPU and memory metrics

A read goes over four blocks of metrics, each behind its own flag: the number of cores,
the usage of the process, `/proc/stat` and `/proc/meminfo`. How a line is split and how a
number is read are parameters. -/
namespace Opsian.Metrics.CpuReader
open Opsian.Metrics.Listener Opsian.Metrics.Completion

def kiloToBytes : Int64 := 1024

def memCoreNamePrefix : String := "mem.system.core."

def memExtendedNamePrefix : String := "mem.system.extended."

inductive NotificationCategory where
  | userWarning
  | userError
  | infoLogging
  deriving DecidableEq, Repr

/-- The calls on the `MetricDataListener`. -/
inductive ListenerCall where
  | recordEntries (entries : List MetricListenerEntry) (timestampInMs : Int64)
  | recordNotification (category : NotificationCategory) (payload : String)
  deriving DecidableEq, Repr

/-- `string(name)` of a `const char*`. -/
def cString (name : String) : String := String.ofList (name.toList.takeWhile (· ≠ '\x00'))

def addLongEntry (name : String) (unit : MetricUnit) (variability : MetricVariability)
    (value : Int64) : MetricListenerEntry where
  name := cString name
  variability := variability
  unit := unit
  data := ⟨.long, "", value⟩

def addLongVar (name : String) (unit : MetricUnit) (value : Int64) : MetricListenerEntry :=
  addLongEntry name unit .variable value

@[simp] theorem addLongEntry_name (name : String) (unit : MetricUnit)
    (variability : MetricVariability) (value : Int64) :
    (addLongEntry name unit variability value).name = cString name := rfl

@[simp] theorem addLongVar_name (name : String) (unit : MetricUnit) (value : Int64) :
    (addLongVar name unit value).name = cString name := rfl

/-! ## The usage of the process -/

structure TimeVal where
  tvSec : Int64
  tvUsec : Int64
  deriving DecidableEq, Repr

def timevalToMs (ts : TimeVal) : Int64 := ts.tvSec * 1000 + ts.tvUsec / 1000

/-- `rusage`, as far as it is recorded. -/
structure RUsage where
  utime : TimeVal
  stime : TimeVal
  maxrss : Int64
  minflt : Int64
  majflt : Int64
  inblock : Int64
  oublock : Int64
  nvcsw : Int64
  nivcsw : Int64
  deriving DecidableEq, Repr

def processEntries (usage : RUsage) : List MetricListenerEntry :=
  [addLongVar "cpu.process.time.user" .milliseconds (timevalToMs usage.utime),
    addLongVar "cpu.process.time.system" .milliseconds (timevalToMs usage.stime),
    addLongVar "cpu.process.maxrss" .bytes (usage.maxrss * kiloToBytes),
    addLongVar "cpu.process.page_faults.soft" .events usage.minflt,
    addLongVar "cpu.process.page_faults.hard" .events usage.majflt,
    addLongVar "cpu.process.blocks.in" .events usage.inblock,
    addLongVar "cpu.process.blocks.out" .events usage.oublock,
    addLongVar "cpu.process.csw.voluntary" .events usage.nvcsw,
    addLongVar "cpu.process.csw.involuntary" .events usage.nivcsw]

inductive Error where
  | rusageFailure
  | procStatFileError
  | procStatParseError
  | procMeminfoFileError
  | procMeminfoParseError
  deriving DecidableEq, Repr

/-- What a block adds to the entries and the errors it reports, with their payloads. -/
abbrev Block := List MetricListenerEntry × List (Error × String)

/-- The block of `cpuProcessEnabled`, with the answer of `getrusage`. -/
def processBlock : Except Int32 RUsage → Block
  | .ok usage => (processEntries usage, [])
  | .error err => ([], [(.rusageFailure, "Got getrusage error of " ++ toString err)])

/-! ## The lines of the files -/

/-- The exceptions that end a line. -/
inductive Exception where
  | badLexicalCast (what : String)
  | outOfRange
  deriving DecidableEq, Repr

/-- One `addLongVar` of a line, whose value may throw. -/
structure Addition where
  name : String
  unit : MetricUnit
  value : Except Exception Int64

/-- The additions of a line up to the first that throws. -/
def addAll : List Addition → List MetricListenerEntry × Option Exception
  | [] => ([], none)
  | a :: rest =>
    match a.value with
    | .ok value => (addLongVar a.name a.unit value :: (addAll rest).1, (addAll rest).2)
    | .error ex => ([], some ex)

/-- The successful `getline`s over a file. -/
def getlines (content : String) : List String :=
  let pieces := content.toList.splitOn '\n'
  (if pieces.getLast? = some [] then pieces.dropLast else pieces).map String.ofList

section Lines

-- `boost::split` at the blanks, and `boost::lexical_cast<int64_t>` with the `what()` it throws.
variable (split : String → List String) (lexicalCast : String → Except String Int64)

def int64At (result : List String) (i : Nat) : Except Exception Int64 :=
  match result[i]? with
  | none => .error .outOfRange
  | some s => (lexicalCast s).mapError .badLexicalCast

def ticksAt (clockTicksPerSecond : Int64) (result : List String) (i : Nat) :
    Except Exception Int64 :=
  (int64At lexicalCast result i).map fun value => value * 1000 / clockTicksPerSecond

def kbAt (result : List String) (i : Nat) : Except Exception Int64 :=
  (int64At lexicalCast result i).map (· * kiloToBytes)

def statAdditions (clockTicksPerSecond : Int64) (result : List String) (key : String) :
    List Addition :=
  let ticksAt := ticksAt lexicalCast clockTicksPerSecond result
  let int64At := int64At lexicalCast result
  if key = "cpu" then
    [⟨"cpu.system.user", .milliseconds, ticksAt 1⟩,
      ⟨"cpu.system.nice", .milliseconds, ticksAt 2⟩,
      ⟨"cpu.system.system", .milliseconds, ticksAt 3⟩,
      ⟨"cpu.system.idle", .milliseconds, ticksAt 4⟩,
      ⟨"cpu.system.iowait", .milliseconds, ticksAt 5⟩,
      ⟨"cpu.system.irq", .milliseconds, ticksAt 6⟩,
      ⟨"cpu.system.softirq", .milliseconds, ticksAt 7⟩,
      ⟨"cpu.system.steal", .milliseconds, ticksAt 8⟩,
      ⟨"cpu.system.guest", .milliseconds, ticksAt 9⟩,
      ⟨"cpu.system.guest_nice", .milliseconds, ticksAt 10⟩]
  else if key = "page" then
    [⟨"cpu.system.pages.in", .events, int64At 1⟩, ⟨"cpu.system.pages.out", .events, int64At 2⟩]
  else if key = "swap" then
    [⟨"cpu.system.swap.in", .events, int64At 1⟩, ⟨"cpu.system.swap.out", .events, int64At 2⟩]
  else if key = "ctxt" then [⟨"cpu.system.csw", .events, int64At 1⟩]
  else if key = "procs_running" then [⟨"cpu.system.procs.running", .none, int64At 1⟩]
  else if key = "procs_blocked" then [⟨"cpu.system.procs.blocked", .none, int64At 1⟩]
  else []

def statLine (clockTicksPerSecond : Int64) (result : List String) :
    List MetricListenerEntry × Option Exception :=
  match result[0]? with
  | none => ([], some .outOfRange)
  | some key => addAll (statAdditions lexicalCast clockTicksPerSecond result key)

def procMemNames : List String :=
  ["MemTotal:", "MemFree:", "MemAvailable:", "SwapTotal:", "SwapFree:", "Shmem:", "Dirty:",
    "Writeback:"]

/-- The addition of a line of `/proc/meminfo`: the name without the character behind it. -/
def addMemInfo (namePrefix entryName : String) (result : List String) :
    List MetricListenerEntry × Option Exception :=
  -- an empty name has no last character to erase
  if entryName = "" then ([], some .outOfRange)
  else
    let name := namePrefix ++ String.ofList entryName.toList.dropLast
    if 2 < result.length then addAll [⟨name, .bytes, kbAt lexicalCast result 1⟩]
    else addAll [⟨name, .none, int64At lexicalCast result 1⟩]

def memInfoLine (memExtendedEnabled : Bool) (result : List String) :
    List MetricListenerEntry × Option Exception :=
  match result[0]? with
  | none => ([], some .outOfRange)
  | some entryName =>
    let isCoreMetric := procMemNames.contains entryName
    if memExtendedEnabled || isCoreMetric then
      addMemInfo lexicalCast (if isCoreMetric then memCoreNamePrefix else memExtendedNamePrefix)
        entryName result
    else ([], none)

/-- The loop over a file: an out of range is passed over, a bad cast is reported. -/
def parseLines (parse : List String → List MetricListenerEntry × Option Exception)
    (status : Error) (message content : String) : Block :=
  let lines := (getlines content).map fun line => parse (split line)
  (lines.flatMap Prod.fst,
    lines.filterMap fun line =>
      match line.2 with
      | some (.badLexicalCast what) => some (status, message ++ what)
      | _ => none)

end Lines

/-! ## The reader -/

structure SeekableFile where
  readable : Bool
  openError : Bool
  error : String
  deriving DecidableEq, Repr

/-- A file is read, or its error is reported the first time. -/
def SeekableFile.block (f : SeekableFile) (status : Error) (lines : Block) : Block :=
  if f.readable then lines else if f.openError then ([], [(status, f.error)]) else ([], [])

def SeekableFile.afterBlock (f : SeekableFile) : SeekableFile :=
  { f with openError := f.openError && f.readable }

structure CPUDataReader where
  cpuProcessEnabled : Bool
  cpuSystemEnabled : Bool
  cpuNCoresEnabled : Bool
  memCoreEnabled : Bool
  memExtendedEnabled : Bool
  readNCores : Bool
  readClockTicksPerSecond : Bool
  sentErrors : List Error
  clockTicksPerSecond : Int64
  procMemInfo : SeekableFile
  procStat : SeekableFile
  hasEmittedConstantMetrics : Bool
  deriving DecidableEq, Repr

/-- What a read finds: the answers of `get_nprocs`, `getrusage` and `sysconf`, and what the
files hold. -/
structure Input where
  nprocs : Int64
  rusage : Except Int32 RUsage
  clockTicks : Int64
  procStat : String
  procMemInfo : String

def cpuProcessName : String := "cpu.process"

def cpuSystemName : String := "cpu.system"

def cpuNCoresName : String := "cpu.ncores"

def memCoreName : String := "mem.system.core"

def memExtendedName : String := "mem.system.extended"

namespace CPUDataReader

def updateEntryPrefixes (r : CPUDataReader) (disabledPrefixes : List String) : CPUDataReader :=
  { r with
    cpuProcessEnabled := !isPrefixDisabled cpuProcessName disabledPrefixes
    cpuSystemEnabled := !isPrefixDisabled cpuSystemName disabledPrefixes
    cpuNCoresEnabled := !isPrefixDisabled cpuNCoresName disabledPrefixes
    memCoreEnabled := !isPrefixDisabled memCoreName disabledPrefixes
    memExtendedEnabled := !isPrefixDisabled memExtendedName disabledPrefixes }

/-- The constructor, with what became of opening the files. -/
def new (disabledPrefixes : List String) (procMemInfo procStat : SeekableFile) : CPUDataReader :=
  updateEntryPrefixes
    ⟨false, false, false, false, false, false, false, [], 0, procMemInfo, procStat, false⟩
    disabledPrefixes

/-- `error` for one error after another: only the first of a kind is sent. -/
def error (sentErrors : List Error) : List (Error × String) → List Error × List ListenerCall
  | [] => (sentErrors, [])
  | (status, payload) :: rest =>
    if status ∈ sentErrors then error sentErrors rest
    else
      let r := error (status :: sentErrors) rest
      (r.1, .recordNotification .userError "Unable to record CPU Metrics" ::
        .recordNotification .infoLogging payload :: r.2)

section Read

variable (split : String → List String) (lexicalCast : String → Except String Int64)

def nCoresEntries (r : CPUDataReader) (input : Input) : List MetricListenerEntry :=
  if r.cpuNCoresEnabled && !r.readNCores then
    [addLongEntry "cpu.ncores" .none .constant input.nprocs]
  else []

/-- The ticks that the block of `/proc/stat` counts with. -/
def ticks (r : CPUDataReader) (input : Input) : Int64 :=
  if r.readClockTicksPerSecond then r.clockTicksPerSecond else input.clockTicks

def systemBlock (r : CPUDataReader) (input : Input) : Block :=
  r.procStat.block .procStatFileError
    (parseLines split (statLine lexicalCast (r.ticks input)) .procStatParseError
      "Got bad_lexical_cast exception while parsing /proc/stat: " input.procStat)

def memBlock (r : CPUDataReader) (input : Input) : Block :=
  r.procMemInfo.block .procMeminfoFileError
    (parseLines split (memInfoLine lexicalCast r.memExtendedEnabled) .procMeminfoParseError
      "Got bad_lexical_cast exception while parsing /proc/meminfo: " input.procMemInfo)

def blocks (r : CPUDataReader) (input : Input) : List Block :=
  [(r.nCoresEntries input, []),
    if r.cpuProcessEnabled then processBlock input.rusage else ([], []),
    if r.cpuSystemEnabled then r.systemBlock split lexicalCast input else ([], []),
    if r.memCoreEnabled then r.memBlock split lexicalCast input else ([], [])]

def entries (r : CPUDataReader) (input : Input) : List MetricListenerEntry :=
  (r.blocks split lexicalCast input).flatMap Prod.fst

def read (r : CPUDataReader) (input : Input) (timestampInMs : Int64) :
    CPUDataReader × List ListenerCall :=
  let reported := error r.sentErrors ((r.blocks split lexicalCast input).flatMap Prod.snd)
  let entries := r.entries split lexicalCast input
  ({ r with
      readNCores := r.readNCores || r.cpuNCoresEnabled
      readClockTicksPerSecond := r.readClockTicksPerSecond || r.cpuSystemEnabled
      clockTicksPerSecond := if r.cpuSystemEnabled then r.ticks input else r.clockTicksPerSecond
      procStat := if r.cpuSystemEnabled then r.procStat.afterBlock else r.procStat
      procMemInfo := if r.memCoreEnabled then r.procMemInfo.afterBlock else r.procMemInfo
      sentErrors := reported.1
      hasEmittedConstantMetrics := true },
    reported.2 ++ if entries = [] then [] else [.recordEntries entries timestampInMs])

end Read

end CPUDataReader

/-- What the calls record. -/
def recorded (calls : List ListenerCall) : List MetricListenerEntry :=
  calls.flatMap fun
    | .recordEntries entries _ => entries
    | .recordNotification .. => []

/-! ## What a read records -/

variable {split : String → List String} {lexicalCast : String → Except String Int64}

theorem recorded_error (sentErrors : List Error) (errors : List (Error × String)) :
    recorded (CPUDataReader.error sentErrors errors).2 = [] := by
  induction errors generalizing sentErrors with
  | nil => rfl
  | cons e rest ih =>
    rw [CPUDataReader.error]
    split
    · exact ih _
    · exact ih _

/-- The errors add nothing to the entries of the blocks. -/
theorem recorded_read (r : CPUDataReader) (input : Input) (timestampInMs : Int64) :
    recorded (r.read split lexicalCast input timestampInMs).2 =
      r.entries split lexicalCast input := by
  rw [CPUDataReader.read, recorded, List.flatMap_append]
  refine (congrArg (· ++ _) (recorded_error _ _)).trans ?_
  split
  · rename_i hempty
    exact hempty.symm
  · simp

theorem prefix_cString {pre : List Char} (hpre : '\x00' ∉ pre) {name : String}
    (h : pre <+: name.toList) : pre <+: (cString name).toList := by
  obtain ⟨rest, hname⟩ := h
  have hkept : ∀ c ∈ pre, decide (c ≠ '\x00') = true := fun c hc =>
    decide_eq_true fun heq => hpre (heq ▸ hc)
  rw [cString, String.toList_ofList, ← hname, List.takeWhile_append_of_pos hkept]
  exact List.prefix_append ..

theorem addAll_names {pre : List Char} (hpre : '\x00' ∉ pre) {as : List Addition}
    (h : ∀ a ∈ as, pre <+: a.name.toList) : ∀ e ∈ (addAll as).1, pre <+: e.name.toList := by
  induction as with
  | nil => exact List.forall_mem_nil _
  | cons a as ih =>
    obtain ⟨hfirst, hrest⟩ := List.forall_mem_cons.mp h
    rw [addAll]
    split
    · refine List.forall_mem_cons.mpr ⟨?_, ih hrest⟩
      exact prefix_cString hpre hfirst
    · exact List.forall_mem_nil _

theorem nCoresEntries_names (r : CPUDataReader) (input : Input) :
    ∀ e ∈ r.nCoresEntries input, "cpu.ncores".toList <+: e.name.toList := by
  unfold CPUDataReader.nCoresEntries
  split
  · rw [List.forall_mem_singleton, addLongEntry_name]
    exact prefix_cString (by simp) (by simp)
  · exact List.forall_mem_nil _

theorem processBlock_names (rusage : Except Int32 RUsage) :
    ∀ e ∈ (processBlock rusage).1, "cpu.process.".toList <+: e.name.toList := by
  cases rusage with
  | error err => exact List.forall_mem_nil _
  | ok usage =>
    simp only [processBlock, processEntries, List.forall_mem_cons, addLongVar_name]
    refine ⟨?_, ?_, ?_, ?_, ?_, ?_, ?_, ?_, ?_, List.forall_mem_nil _⟩
    all_goals exact prefix_cString (by simp) (by simp)

theorem statAdditions_names (ticks : Int64) (result : List String) (key : String) :
    ∀ a ∈ statAdditions lexicalCast ticks result key, "cpu.system.".toList <+: a.name.toList := by
  unfold statAdditions
  dsimp only
  split_ifs
  all_goals simp

theorem statLine_names (ticks : Int64) (result : List String) :
    ∀ e ∈ (statLine lexicalCast ticks result).1, "cpu.system.".toList <+: e.name.toList := by
  unfold statLine
  split
  · exact List.forall_mem_nil _
  · exact addAll_names (by simp) (statAdditions_names ticks result _)

theorem addMemInfo_names {namePrefix : String} (hpre : '\x00' ∉ namePrefix.toList)
    (entryName : String) (result : List String) :
    ∀ e ∈ (addMemInfo lexicalCast namePrefix entryName result).1,
      namePrefix.toList <+: e.name.toList := by
  have hname : namePrefix.toList <+:
      (namePrefix ++ String.ofList entryName.toList.dropLast).toList := by
    rw [String.toList_append]
    exact List.prefix_append ..
  unfold addMemInfo
  split
  · exact List.forall_mem_nil _
  · split
    · exact addAll_names hpre (List.forall_mem_singleton.mpr hname)
    · exact addAll_names hpre (List.forall_mem_singleton.mpr hname)

end Opsian.Metrics.CpuReader
