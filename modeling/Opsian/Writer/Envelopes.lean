import Opsian.Lib.Simulation
import Opsian.Queue.CircularQueue
import Opsian.Writer.Messages

/-! # Envelopes that are used again

The log writer fills in the same two envelopes for all of its messages: one for what it
records, and one for the names it finds on the way, which are sent while a stack trace is
only half written. Its timers, and whoever else sends meanwhile, use envelopes of their own. -/
namespace Opsian.Writer.Envelopes
open Opsian.Globals Opsian.Lib.Simulation Opsian.Metrics Opsian.Queue.CircularQueue
open Opsian.Prometheus.Exporter (CallFrame)
open Opsian.Symbols.SymbolTable (Location)
open Opsian.Writer.LogWriter (Intervals addFrames maxFrames readFrames setSampleType)
open Opsian.Writer.Messages

/-- Which envelope a call fills in: the one that the calls before have left, as the code
has it, or a newly constructed one. -/
inductive Supply where
  | reused
  | fresh
  deriving DecidableEq, Repr

def Supply.take : Supply → AgentEnvelope → AgentEnvelope
  | .reused, envelope => envelope
  | .fresh, _ => .notSet

/-- What `pthread_getname_np` answers, where a name may not be valid UTF-8. -/
inductive NameAnswer where
  | error
  | valid (name : String)
  | malformed
  deriving DecidableEq, Repr

def NameAnswer.threadName : NameAnswer → String
  | .error => "Unknown"
  | .valid name => name
  | .malformed => "Invalid"

/-- Where the loop of `recordStackTrace` stands: the frames it has not looked up yet. -/
structure Walk where
  isError : Bool
  numFrames : Nat
  frames : List CallFrame
  deriving DecidableEq, Repr

structure AllocationInfo where
  numberOfAllocations : UInt32
  totalBytesAllocated : UInt64
  deriving DecidableEq, Repr

/-- The log writer, and what it asks the controller. -/
structure State where
  frameAgentEnvelope : AgentEnvelope
  nameAgentEnvelope : AgentEnvelope
  /-- By the thread's id, which the map's key cuts to an `int`. -/
  threadIdToInformation : List (Int32 × String)
  /-- By the symbol, and whether it was outside of the TLAB. -/
  allocationsTable : List ((UInt64 × Bool) × AllocationInfo)
  controller : Intervals
  isConnected : Bool
  notifications : List Notification
  walk : Option Walk
  deriving DecidableEq, Repr

def init : State where
  frameAgentEnvelope := .notSet
  nameAgentEnvelope := .notSet
  threadIdToInformation := []
  allocationsTable := []
  controller := ⟨0, 0⟩
  isConnected := false
  notifications := []
  walk := none

/-! ## Stack traces and the names in them -/

def toInt32 (threadId : UInt64) : Int32 := threadId.toUInt32.toInt32

/-- The arguments of `recordStackTrace`, and the answer for its thread. -/
structure StackTrace where
  ts : Timespec
  trace : CallTrace
  signum : Int
  threadState : Int
  nameAnswer : NameAnswer
  deriving DecidableEq, Repr

/-- `threadName`: the name, and the map behind it. -/
def threadName (s : State) (threadId : UInt64) (answer : NameAnswer) :
    String × List (Int32 × String) :=
  match s.threadIdToInformation.lookup (toInt32 threadId) with
  | some name => (name, s.threadIdToInformation)
  | none =>
    (answer.threadName, s.threadIdToInformation ++ [(toInt32 threadId, answer.threadName)])

/-- What is set before the loop. -/
def setSample (s : State) (c : StackTrace) (stackSample : StackSample) : StackSample :=
  { stackSample with
    type := (setSampleType s.controller c.signum).1
    sampleRateMillis := (setSampleType s.controller c.signum).2
    timeEpochMillis := (toMillis c.ts).toUInt64
    threadId := toInt32 c.trace.threadId
    threadName := (threadName s c.trace.threadId c.nameAnswer).1
    threadState := c.threadState
    compressedFrames := []
    errorCode := if c.trace.numFrames < 0 then c.trace.numFrames else 0 }

/-- `recordStackTrace`, up to its loop. -/
def recordStackTrace (k : Supply) (s : State) (c : StackTrace) : State :=
  { s with
    frameAgentEnvelope :=
      .stackSample (setSample s c (k.take s.frameAgentEnvelope).mutableStackSample)
    threadIdToInformation := (threadName s c.trace.threadId c.nameAnswer).2
    walk := some ⟨decide (c.trace.numFrames < 0), c.trace.numFrames.natAbs,
      readFrames ⟨c.trace.numFrames, c.trace.frames⟩⟩ }

def addCompressedFrames (isError : Bool) (locations : List Location) (stackSample : StackSample) :
    StackSample :=
  { stackSample with
    compressedFrames := stackSample.compressedFrames ++ addFrames isError locations }

def setHasMaxFrames (numFrames : Nat) (stackSample : StackSample) : StackSample :=
  { stackSample with hasMaxFrames := decide (maxFrames ≤ numFrames) }

/-- A change to the sample that the call's pointer points to. -/
def modify (s : State) (f : StackSample → StackSample) : AgentEnvelope :=
  .stackSample (f s.frameAgentEnvelope.mutableStackSample)

/-- The loop goes on behind `lookup_locations`. -/
def lookedUp (s : State) (w : Walk) (frames : List CallFrame) (locations : List Location) :
    State :=
  { s with
    frameAgentEnvelope := modify s (addCompressedFrames w.isError locations)
    walk := some { w with frames := frames } }

/-- Behind the loop. -/
def endStackTrace (s : State) (w : Walk) : List AgentEnvelope × State :=
  let envelope := modify s (setHasMaxFrames w.numFrames)
  ([envelope], { s with frameAgentEnvelope := envelope, walk := none })

def onNewFile (k : Supply) (s : State) (fileId : UInt64) (fileName : String) :
    List AgentEnvelope × State :=
  let moduleInfo := (k.take s.nameAgentEnvelope).mutableModuleInformation
  let envelope := .moduleInformation { moduleInfo with
    moduleId := fileId.toInt64
    filename := fileName
    moduleName := "" }
  ([envelope], { s with nameAgentEnvelope := envelope })

def onNewFunction (k : Supply) (s : State) (functionId : UInt64) (functionName : String)
    (fileId : UInt64) : List AgentEnvelope × State :=
  let methodInfo := (k.take s.nameAgentEnvelope).mutableMethodInformation
  let envelope := .methodInformation { methodInfo with
    methodId := functionId.toInt64
    methodName := functionName
    moduleId := fileId.toInt64 }
  ([envelope], { s with nameAgentEnvelope := envelope })

/-! ## Notifications and metrics -/

/-- `recordWithSize` of the envelope for what is recorded. -/
def record (s : State) (envelope : AgentEnvelope) : List AgentEnvelope × State :=
  ([envelope], { s with frameAgentEnvelope := envelope })

def payloadOf (initialPayload : String) (value : Int) : String :=
  if value ≠ 0 then initialPayload ++ toString value else initialPayload

def recordNotification (k : Supply) (s : State) (category : NotificationCategory)
    (initialPayload : String) (value : Int) : List AgentEnvelope × State :=
  let payload := payloadOf initialPayload value
  if s.isConnected then
    let notification := (k.take s.frameAgentEnvelope).mutableNotification
    record s (.notification { notification with payload := payload, category := category })
  else ([], { s with notifications := s.notifications ++ [⟨payload, category⟩] })

def mapDataType : Listener.MetricDataType → MetricDataType
  | .long => .long
  | .string => .string
  | .invalid => .unknownType

def mapVariability : Listener.MetricVariability → MetricVariability
  | .constant => .constant
  | .monotonic => .counter
  | .variable => .variable
  | .invalid => .unknownVariability

def mapUnit : Listener.MetricUnit → MetricUnit
  | .none => .none
  | .bytes => .bytes
  | .ticks => .ticks
  | .events => .events
  | .string => .unitString
  | .hertz => .hertz
  | .milliseconds => .milliseconds
  | .nanoseconds => .nanoseconds
  | .invalid => .unknownUnit

def recordMetricInformation (k : Supply) (s : State) (info : Listener.MetricInformation) :
    List AgentEnvelope × State :=
  let infoEnvelope := (k.take s.frameAgentEnvelope).mutableMetricInformation
  record s (.metricInformation { infoEnvelope with
    metricId := info.id
    name := info.name
    dataType := mapDataType info.dataType
    variability := mapVariability info.variability
    unit := mapUnit info.unit })

/-- A sample that `add_samples` has added. -/
def sampleOf (sample : Listener.MetricSample) : MetricSample where
  metricId := sample.id
  value :=
    match sample.data.type with
    | .string => .stringValue sample.data.valueString
    | .long => .longValue sample.data.valueLong
    | .invalid => .notSet

def recordMetricSamples (k : Supply) (s : State) (timeEpochMillis : Int64)
    (metricSamples : List Listener.MetricSample) : List AgentEnvelope × State :=
  let samplesEnvelope := (k.take s.frameAgentEnvelope).mutableMetricSamples
  record s (.metricSamples { samplesEnvelope with
    timeEpochMillis := timeEpochMillis.toUInt64
    samples := metricSamples.map sampleOf })

/-- There is nothing to set. -/
def recordConstantMetricsComplete (s : State) : List AgentEnvelope × State :=
  record s .constantMetricsComplete

/-- A first allocation of its key begins with a row of zeros. -/
def recordAllocation (s : State) (allocationSize : UInt64) (outsideTlab : Bool)
    (symbol : UInt64) : State :=
  let add (info : AllocationInfo) : AllocationInfo :=
    ⟨info.numberOfAllocations + 1, info.totalBytesAllocated + allocationSize⟩
  { s with
    allocationsTable :=
      if (s.allocationsTable.lookup (symbol, outsideTlab)).isSome then
        s.allocationsTable.map fun row =>
          if row.1 = (symbol, outsideTlab) then (row.1, add row.2) else row
      else s.allocationsTable ++ [((symbol, outsideTlab), add ⟨0, 0⟩)] }

/-! ## The handlers -/

/-- The rows stand in the order of the keys' first allocations. -/
def recordAllocationTable (s : State) : List AgentEnvelope × State :=
  let allocationTable := AgentEnvelope.notSet.mutableAllocationTable
  let rows := s.allocationsTable.map fun row =>
    ⟨row.1.1, row.2.numberOfAllocations, row.2.totalBytesAllocated, row.1.2⟩
  ([.allocationTable { allocationTable with
    timeEpochMillis := 0
    rows := allocationTable.rows ++ rows }], { s with allocationsTable := [] })

/-- The counters that `onAgentStatisticsTimer` sends. -/
structure Counters where
  allocationFailures : UInt32
  cputimeFailures : UInt32
  wallclockFailures : UInt32
  threadIdDenials : UInt32
  cpuErrors : UInt32
  cpuWarnings : UInt32
  metricFailures : UInt32
  allocationStackTraceFailures : UInt32
  deriving DecidableEq, Repr

def onAgentStatisticsTimer (s : State) (counters : Counters) : List AgentEnvelope × State :=
  let agentStatistics := AgentEnvelope.notSet.mutableAgentStatistics
  ([.agentStatistics { agentStatistics with
    allocationEnqueueFailures := counters.allocationFailures
    cputimeEnqueueFailures := counters.cputimeFailures
    wallclockEnqueueFailures := counters.wallclockFailures
    threadIdDenials := counters.threadIdDenials
    cpuMetricErrors := counters.cpuErrors
    cpuMetricWarnings := counters.cpuWarnings
    metricEnqueueFailures := counters.metricFailures
    allocationStackTraceEnqueueFailures := counters.allocationStackTraceFailures }], s)

/-- The loop of `sendStashedNotifications`, which fills in one envelope of its own. -/
def stashedEnvelopes (k : Supply) (agentEnvelope : AgentEnvelope) :
    List Notification → List AgentEnvelope
  | [] => []
  | stashed :: rest =>
    let notification := (k.take agentEnvelope).mutableNotification
    let agentEnvelope := .notification { notification with
      category := stashed.category
      payload := stashed.payload }
    agentEnvelope :: stashedEnvelopes k agentEnvelope rest

/-- A `SampleRate` changes what is reported; the first one sends what was stashed. -/
def onSampleRate (k : Supply) (s : State) (controller : Intervals) (first : Bool) :
    List AgentEnvelope × State :=
  if first then
    (stashedEnvelopes k .notSet s.notifications,
      { s with controller := controller, isConnected := true, notifications := [] })
  else ([], { s with controller := controller })

inductive Label where
  | recordStackTrace (c : StackTrace)
  /-- `lookup_locations` returns for the next frame. -/
  | lookedUp (locations : List Location)
  | endStackTrace
  | onNewFile (fileId : UInt64) (fileName : String)
  | onNewFunction (functionId : UInt64) (functionName : String) (fileId : UInt64)
  | recordNotification (category : NotificationCategory) (initialPayload : String) (value : Int)
  | recordMetricInformation (info : Listener.MetricInformation)
  | recordMetricSamples (timeEpochMillis : Int64) (metricSamples : List Listener.MetricSample)
  | recordConstantMetricsComplete
  | recordAllocation (allocationSize : UInt64) (outsideTlab : Bool) (symbol : UInt64)
  | recordAllocationTable
  | sendHeartbeat (time : UInt64)
  | onAgentStatisticsTimer (counters : Counters)
  | onSampleRate (controller : Intervals) (first : Bool)
  | onDisconnect
  deriving DecidableEq, Repr

/-- No stack trace is being recorded. -/
def idle (s : State) (x : List AgentEnvelope × State) : Option (List AgentEnvelope × State) :=
  if s.walk = none then some x else none

/-- The envelopes that a step hands over to the network, and the state behind it. Names are
found and handlers run at any time, but only one call of the listener is in progress. -/
def step (k : Supply) (s : State) : Label → Option (List AgentEnvelope × State)
  | .recordStackTrace c => idle s ([], recordStackTrace k s c)
  | .lookedUp locations =>
    match s.walk with
    | some ⟨isError, numFrames, frame :: frames⟩ =>
      some ([], lookedUp s ⟨isError, numFrames, frame :: frames⟩ frames locations)
    | _ => none
  | .endStackTrace =>
    match s.walk with
    | some ⟨isError, numFrames, []⟩ => some (endStackTrace s ⟨isError, numFrames, []⟩)
    | _ => none
  | .onNewFile fileId fileName => some (onNewFile k s fileId fileName)
  | .onNewFunction functionId functionName fileId =>
    some (onNewFunction k s functionId functionName fileId)
  | .recordNotification category initialPayload value =>
    idle s (recordNotification k s category initialPayload value)
  | .recordMetricInformation info => idle s (recordMetricInformation k s info)
  | .recordMetricSamples timeEpochMillis metricSamples =>
    idle s (recordMetricSamples k s timeEpochMillis metricSamples)
  | .recordConstantMetricsComplete => idle s (recordConstantMetricsComplete s)
  | .recordAllocation allocationSize outsideTlab symbol =>
    idle s ([], recordAllocation s allocationSize outsideTlab symbol)
  | .recordAllocationTable => some (recordAllocationTable s)
  | .sendHeartbeat time => some ([.heartbeat time], s)
  | .onAgentStatisticsTimer counters => some (onAgentStatisticsTimer s counters)
  | .onSampleRate controller first => some (onSampleRate k s controller first)
  | .onDisconnect => some ([], { s with isConnected := false })

/-! ## What a step can do -/

theorem idle_eq_some {s : State} {x y : List AgentEnvelope × State} :
    idle s x = some y ↔ s.walk = none ∧ x = y := Option.ite_some_none_eq_some

theorem step_lookedUp {k : Supply} {s : State} {locations : List Location}
    {x : List AgentEnvelope × State} (h : step k s (.lookedUp locations) = some x) :
    ∃ isError numFrames frame frames, s.walk = some ⟨isError, numFrames, frame :: frames⟩ ∧
      x = ([], lookedUp s ⟨isError, numFrames, frame :: frames⟩ frames locations) := by
  unfold step at h
  cases hwalk : s.walk with
  | none =>
    rw [hwalk] at h
    cases h
  | some w =>
    rw [hwalk] at h
    obtain ⟨isError, numFrames, _ | ⟨frame, frames⟩⟩ := w
    · cases h
    · exact ⟨isError, numFrames, frame, frames, rfl, (Option.some.inj h).symm⟩

theorem step_endStackTrace {k : Supply} {s : State} {x : List AgentEnvelope × State}
    (h : step k s .endStackTrace = some x) :
    ∃ isError numFrames, s.walk = some ⟨isError, numFrames, []⟩ ∧
      x = endStackTrace s ⟨isError, numFrames, []⟩ := by
  unfold step at h
  cases hwalk : s.walk with
  | none =>
    rw [hwalk] at h
    cases h
  | some w =>
    rw [hwalk] at h
    obtain ⟨isError, numFrames, _ | ⟨frame, frames⟩⟩ := w
    · exact ⟨isError, numFrames, rfl, (Option.some.inj h).symm⟩
    · cases h

/-! ## Two writers in lockstep -/

/-- What the log writer never sets is as in a new message. -/
structure Unset (m : StackSample) : Prop where
  frames : m.frames = []
  wallclockScanId : m.wallclockScanId = 0
  originalTimeEpochMillis : m.originalTimeEpochMillis = 0
  symbol : m.symbol = 0

/-- A sample in progress: what an earlier one has left is in the flag that is set last. -/
def HalfSet (e e' : AgentEnvelope) : Prop :=
  ∃ m flag, e = .stackSample m ∧ e' = .stackSample { m with hasMaxFrames := flag }

/-- Of two writers the first one uses its envelopes again. -/
structure Alike (s t : State) : Prop where
  others : ∃ frameEnvelope nameEnvelope,
    t = { s with frameAgentEnvelope := frameEnvelope, nameAgentEnvelope := nameEnvelope }
  unset : Unset s.frameAgentEnvelope.mutableStackSample
  walking : s.walk ≠ none → HalfSet s.frameAgentEnvelope t.frameAgentEnvelope

theorem unset_default : Unset AgentEnvelope.notSet.mutableStackSample := ⟨rfl, rfl, rfl, rfl⟩

theorem Unset.keep {m m' : StackSample} (h : Unset m) (hframes : m'.frames = m.frames)
    (hscan : m'.wallclockScanId = m.wallclockScanId)
    (horiginal : m'.originalTimeEpochMillis = m.originalTimeEpochMillis)
    (hsymbol : m'.symbol = m.symbol) : Unset m' where
  frames := hframes.trans h.frames
  wallclockScanId := hscan.trans h.wallclockScanId
  originalTimeEpochMillis := horiginal.trans h.originalTimeEpochMillis
  symbol := hsymbol.trans h.symbol

theorem init_alike : Alike init init := ⟨⟨_, _, rfl⟩, unset_default, fun h => absurd rfl h⟩

variable {s t : State}

/-- Every other field is set before the loop. -/
theorem setSample_eq (s : State) (c : StackTrace) {m : StackSample} (h : Unset m) :
    setSample s c AgentEnvelope.notSet.mutableStackSample =
      { setSample s c m with hasMaxFrames := false } := by
  obtain ⟨hframes, hscan, horiginal, hsymbol⟩ := h
  simp only [setSample, hframes, hscan, horiginal, hsymbol]
  rfl

theorem stashedEnvelopes_eq (k : Supply) (envelope : AgentEnvelope) (ns : List Notification) :
    stashedEnvelopes k envelope ns = ns.map .notification := by
  induction ns generalizing envelope with
  | nil => rfl
  | cons n ns ih => rw [stashedEnvelopes, ih, List.map_cons]

/-- A change that leaves the flag alone. -/
theorem HalfSet.modify (h : HalfSet s.frameAgentEnvelope t.frameAgentEnvelope)
    {f : StackSample → StackSample}
    (hf : ∀ m flag, f { m with hasMaxFrames := flag } = { f m with hasMaxFrames := flag }) :
    HalfSet (modify s f) (modify t f) := by
  obtain ⟨m, flag, hs, ht⟩ := h
  refine ⟨f m, flag, ?_, ?_⟩
  · rw [Envelopes.modify, hs]
    rfl
  · rw [Envelopes.modify, ht, ← hf]
    rfl

/-- A change that sets it. -/
theorem HalfSet.modify_eq (h : HalfSet s.frameAgentEnvelope t.frameAgentEnvelope)
    {f : StackSample → StackSample} (hf : ∀ m flag, f { m with hasMaxFrames := flag } = f m) :
    Envelopes.modify t f = Envelopes.modify s f := by
  obtain ⟨m, flag, hs, ht⟩ := h
  rw [Envelopes.modify, Envelopes.modify, hs, ht]
  exact congrArg AgentEnvelope.stackSample (hf m flag)

/-- A call begins while none is in progress. -/
theorem Alike.idle (h : Alike s t) {ms : List AgentEnvelope} {s' t' : State}
    (ha : s.walk = none → Alike s' t') :
    Together Alike (idle s (ms, s')) (idle t (ms, t')) := by
  obtain ⟨⟨frameEnvelope, nameEnvelope, rfl⟩, -, -⟩ := h
  unfold Envelopes.idle
  by_cases hwalk : s.walk = none
  · rw [if_pos hwalk, if_pos hwalk]
    exact .inr ⟨ms, s', t', rfl, rfl, ha hwalk⟩
  · rw [if_neg hwalk, if_neg hwalk]
    exact .inl ⟨rfl, rfl⟩

/-- Whatever replaces the envelope is nothing that is left of a sample. -/
theorem Alike.record (h : Alike s t) {envelope : AgentEnvelope}
    (he : envelope.mutableStackSample = AgentEnvelope.notSet.mutableStackSample) :
    Together Alike (Envelopes.idle s (record s envelope))
      (Envelopes.idle t (record t envelope)) := by
  refine h.idle fun hwalk => ?_
  obtain ⟨⟨frameEnvelope, nameEnvelope, rfl⟩, -, -⟩ := h
  refine ⟨⟨envelope, nameEnvelope, rfl⟩, ?_, fun hw => absurd hwalk hw⟩
  exact he ▸ unset_default

theorem Alike.recordStackTrace (h : Alike s t) (c : StackTrace) :
    Alike (recordStackTrace .reused s c) (recordStackTrace .fresh t c) := by
  obtain ⟨⟨frameEnvelope, nameEnvelope, rfl⟩, hunset, -⟩ := h
  refine ⟨⟨_, nameEnvelope, rfl⟩, ?_, fun _ => ⟨_, false, rfl, ?_⟩⟩
  · exact hunset.keep rfl rfl rfl rfl
  · exact congrArg AgentEnvelope.stackSample (setSample_eq s c hunset)

theorem Alike.lookedUp (h : Alike s t) {w : Walk} (hw : s.walk = some w)
    (frames : List CallFrame) (locations : List Location) :
    Alike (lookedUp s w frames locations) (lookedUp t w frames locations) := by
  have hhalf := h.walking (by rw [hw]; exact Option.some_ne_none w)
  have hnext := hhalf.modify (f := addCompressedFrames w.isError locations) fun _ _ => rfl
  obtain ⟨⟨frameEnvelope, nameEnvelope, rfl⟩, hunset, -⟩ := h
  refine ⟨⟨_, nameEnvelope, rfl⟩, ?_, fun _ => hnext⟩
  exact hunset.keep rfl rfl rfl rfl

theorem Alike.endStackTrace (h : Alike s t) {w : Walk} (hw : s.walk = some w) :
    (endStackTrace t w).1 = (endStackTrace s w).1 ∧
      Alike (endStackTrace s w).2 (endStackTrace t w).2 := by
  have hhalf := h.walking (by rw [hw]; exact Option.some_ne_none w)
  have hsame := hhalf.modify_eq (f := setHasMaxFrames w.numFrames) fun _ _ => rfl
  obtain ⟨⟨frameEnvelope, nameEnvelope, rfl⟩, hunset, -⟩ := h
  refine ⟨congrArg (fun e => [e]) hsame, ⟨_, nameEnvelope, rfl⟩, ?_, fun hw => absurd rfl hw⟩
  exact hunset.keep rfl rfl rfl rfl

/-- A step that leaves the envelope alone. -/
theorem Alike.keep {s' t' : State} (h : Alike s t)
    (hothers : ∃ frameEnvelope nameEnvelope,
      t' = { s' with frameAgentEnvelope := frameEnvelope, nameAgentEnvelope := nameEnvelope })
    (hs : s'.frameAgentEnvelope = s.frameAgentEnvelope)
    (ht : t'.frameAgentEnvelope = t.frameAgentEnvelope) (hwalk : s'.walk = s.walk) :
    Alike s' t' := by
  refine ⟨hothers, hs ▸ h.unset, ?_⟩
  rw [hs, ht, hwalk]
  exact h.walking

/-- One step, by what it does to the envelopes. -/
theorem Alike.step (h : Alike s t) (a : Label) :
    Together Alike (step .reused s a) (step .fresh t a) := by
  obtain ⟨frameEnvelope, nameEnvelope, rfl⟩ := h.others
  cases a with
  | recordStackTrace c => exact h.idle fun _ => h.recordStackTrace c
  | lookedUp locations =>
    unfold Envelopes.step
    cases hwalk : s.walk with
    | none => exact .inl ⟨rfl, rfl⟩
    | some w =>
      obtain ⟨isError, numFrames, _ | ⟨frame, frames⟩⟩ := w
      · exact .inl ⟨rfl, rfl⟩
      · exact .inr ⟨_, _, _, rfl, rfl, h.lookedUp hwalk frames locations⟩
  | endStackTrace =>
    unfold Envelopes.step
    cases hwalk : s.walk with
    | none => exact .inl ⟨rfl, rfl⟩
    | some w =>
      obtain ⟨isError, numFrames, _ | ⟨frame, frames⟩⟩ := w
      · obtain ⟨hsame, halike⟩ := h.endStackTrace hwalk
        exact .inr ⟨_, _, _, rfl, congrArg (fun ms => some (ms, _)) hsame, halike⟩
      · exact .inl ⟨rfl, rfl⟩
  | onNewFile | onNewFunction =>
    exact .inr ⟨_, _, _, rfl, rfl, h.keep ⟨frameEnvelope, _, rfl⟩ rfl rfl rfl⟩
  | recordNotification category initialPayload value =>
    unfold Envelopes.step recordNotification
    by_cases hconnected : s.isConnected = true
    · simp only [if_pos hconnected]
      exact h.record rfl
    · simp only [if_neg hconnected]
      exact h.idle fun _ => h.keep ⟨frameEnvelope, nameEnvelope, rfl⟩ rfl rfl rfl
  | recordMetricInformation | recordMetricSamples | recordConstantMetricsComplete =>
    exact h.record rfl
  | recordAllocation =>
    exact h.idle fun _ => h.keep ⟨frameEnvelope, nameEnvelope, rfl⟩ rfl rfl rfl
  | onSampleRate controller first =>
    unfold Envelopes.step onSampleRate
    cases first with
    | true =>
      simp only [if_true, stashedEnvelopes_eq]
      exact .inr ⟨_, _, _, rfl, rfl, h.keep ⟨frameEnvelope, nameEnvelope, rfl⟩ rfl rfl rfl⟩
    | false =>
      exact .inr ⟨_, _, _, rfl, rfl, h.keep ⟨frameEnvelope, nameEnvelope, rfl⟩ rfl rfl rfl⟩
  | recordAllocationTable | sendHeartbeat | onAgentStatisticsTimer | onDisconnect =>
    exact .inr ⟨_, _, _, rfl, rfl, h.keep ⟨frameEnvelope, nameEnvelope, rfl⟩ rfl rfl rfl⟩

/-- **An envelope that is used again is as good as a new one**: for every sequence of calls,
announcements and handlers, what is handed over to the network is the same. -/
theorem reused_eq_fresh (labels : List Label) :
    (exec (step .reused) init labels).map Prod.fst =
      (exec (step .fresh) init labels).map Prod.fst :=
  exec_eq_exec (fun _ _ a h => h.step a) init_alike labels

end Opsian.Writer.Envelopes
