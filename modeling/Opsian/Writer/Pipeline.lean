import Opsian.Queue.Fifos
import Opsian.Writer.Envelopes

/-! # From the queue to the network

The processor thread pops the lanes of the circular queue in turn, and calls the log writer
for each record it finds, which stays in its slot until the call returns. Meanwhile other
threads push, names are found, and handlers of the event loop run. A push is one step here: what
becomes of pushes whose loads and compare-exchanges are interleaved is in `Opsian.Queue.Safety`. -/
namespace Opsian.Writer.Pipeline
open Opsian.Globals Opsian.Lib Opsian.Lib.Runs Opsian.Queue.CircularQueue Opsian.Queue.Fifos
open Opsian.Prometheus.Exporter (CallFrame numberOfSignalHandlerFrames)
open Opsian.Queue.HandOver (blank clear zeroFrame)
open Opsian.Symbols.SymbolTable (Location)
open Opsian.Writer.LogWriter (addFrames maxFrames readFrames setSampleType)
open Opsian.Writer.Messages
open Opsian.Writer.Envelopes (NameAnswer Walk)

/-- Where `CircularQueue::pop` stands: before a lane's `acquireRead`, or in the call for the
record that it has found there. -/
inductive Place where
  | acquiring (lane : Lane)
  | calling (lane : Lane)
  deriving DecidableEq, Repr

/-- The queue and the log writer, what was accepted by the lanes, what the listener was called
for, and what was handed over to the network. -/
structure State where
  queue : Queue.CircularQueue.State
  writer : Envelopes.State
  place : Place
  pushed : Lane → List Push
  popped : Lane → List Call
  handed : List AgentEnvelope

def init (maxFrameSize : Nat) (symbol timeTsc : UInt64) : State where
  queue := Queue.CircularQueue.init maxFrameSize symbol timeTsc
  writer := Envelopes.init
  place := .acquiring .main
  pushed := fun _ => []
  popped := fun _ => []
  handed := []

/-- The order of the lanes in a pop, and in the next. -/
def nextLane : Lane → Lane
  | .main => .allocation
  | .allocation => .stack
  | .stack => .main

def popLane (s : Queue.CircularQueue.State) :
    Lane → Option (Option Call × Queue.CircularQueue.State)
  | .main => popMain s
  | .allocation => popAllocation s
  | .stack => popStack s

/-- The categories by their numbers in `data.proto`. -/
def notificationCategory : Nat → NotificationCategory
  | 0 => .userWarning
  | 1 => .userError
  | _ => .infoLogging

/-- A call of the listener. `recordThread` does nothing. -/
def listenerCall (nameAnswer : NameAnswer) : Call → Option Envelopes.Label
  | .recordStackTrace ts item signum threadState _ =>
    some (.recordStackTrace ⟨ts, item, signum, threadState, nameAnswer⟩)
  | .recordThread _ _ => none
  | .recordAllocation allocationSize outsideTlab symbol =>
    some (.recordAllocation allocationSize outsideTlab symbol)
  | .recordNotification category payload value =>
    some (.recordNotification (notificationCategory category) payload value)
  | .recordMetricInformation info => some (.recordMetricInformation info)
  | .recordMetricSamples timeEpochMillis metricSamples =>
    some (.recordMetricSamples (Int64.ofInt timeEpochMillis) metricSamples)
  | .recordConstantMetricsComplete => some .recordConstantMetricsComplete

inductive Label where
  /-- A whole push. -/
  | push (p : Push)
  /-- `acquireRead` finds the lane empty. -/
  | skip
  /-- It finds a record, for which the listener is called. -/
  | call (nameAnswer : NameAnswer)
  /-- The call returns. -/
  | commitRead
  /-- The log writer goes on with a stack trace, or a handler runs. -/
  | writer (a : Envelopes.Label)
  deriving DecidableEq, Repr

/-- A step of the log writer. -/
def deliver (s : State) (a : Envelopes.Label) : Option State :=
  (Envelopes.step .reused s.writer a).map fun x =>
    { s with writer := x.2, handed := s.handed ++ x.1 }

section step

-- Which locations `lookup_locations` may answer for a frame.
variable (lookups : CallFrame → List Location → Bool)

/-- What the log writer does other than to begin a call of the listener. -/
def inner (s : Envelopes.State) : Envelopes.Label → Bool
  | .lookedUp locations =>
    match s.walk with
    | some ⟨_, _, frame :: _⟩ => lookups frame locations
    | _ => false
  | .endStackTrace | .onNewFile .. | .onNewFunction .. | .recordAllocationTable
  | .sendHeartbeat _ | .onAgentStatisticsTimer _ | .onSampleRate .. | .onDisconnect => true
  | .recordStackTrace _ | .recordNotification .. | .recordMetricInformation _
  | .recordMetricSamples .. | .recordConstantMetricsComplete | .recordAllocation .. => false

def accept (s : State) (p : Push) : State :=
  { s with
    queue := (push s.queue p).2
    pushed :=
      if (push s.queue p).1 then Function.update s.pushed (lane p) (s.pushed (lane p) ++ [p])
      else s.pushed }

def begin (s : State) (l : Lane) (nameAnswer : NameAnswer) : Option State :=
  match popLane s.queue l with
  | some (some call, _) =>
    let s : State := { s with
      place := .calling l
      popped := Function.update s.popped l (s.popped l ++ [call]) }
    match listenerCall nameAnswer call with
    | some a => deliver s a
    | none => some s
  | _ => none

def step (s : State) : Label → Option State
  | .push p => some (accept s p)
  | .skip =>
    match s.place with
    | .acquiring l =>
      match popLane s.queue l with
      | some (none, _) => some { s with place := .acquiring (nextLane l) }
      | _ => none
    | .calling _ => none
  | .call nameAnswer =>
    match s.place with
    | .acquiring l => begin s l nameAnswer
    | .calling _ => none
  | .commitRead =>
    match s.place with
    | .acquiring _ => none
    | .calling l =>
      if s.writer.walk = none then
        (popLane s.queue l).map fun popped =>
          { s with queue := popped.2, place := .acquiring (nextLane l) }
      else none
  | .writer a => if inner lookups s.writer a then deliver s a else none

end step

/-! ## What is to be handed over -/

/-- A trace whose frames fit the buffers, where a broken one has a negative count. -/
def Fits (maxFrameSize : Nat) : Push → Prop
  | .stackTrace _ item _ _ _ =>
    item.numFrames ≤ maxFrameSize ∧ item.numFrames ≤ item.frames.length
  | _ => True

/-- The sample that a trace becomes: its own time, thread and frames, each of them looked up. -/
structure Carries (lookups : CallFrame → List Location → Bool) (ts : Timespec)
    (item : CallTrace) (signum threadState : Int) (m : StackSample) : Prop where
  type : ∃ controller, setSampleType controller signum = (m.type, m.sampleRateMillis)
  timeEpochMillis : m.timeEpochMillis = (toMillis ts).toUInt64
  threadId : m.threadId = Envelopes.toInt32 item.threadId
  threadState : m.threadState = threadState
  errorCode : m.errorCode = if item.numFrames < 0 then item.numFrames else 0
  hasMaxFrames : m.hasMaxFrames = decide (maxFrames ≤ item.numFrames.natAbs)
  compressedFrames : if item.numFrames < 0 then m.compressedFrames = []
    else ∃ looked, List.Forall₂ (fun frame locations => lookups frame locations = true)
        (readFrames ⟨item.numFrames, item.frames⟩) looked ∧
      m.compressedFrames = looked.flatMap (addFrames false)

def isStackTrace : Push → Bool
  | .stackTrace .. => true
  | _ => false

def CarriesPush (lookups : CallFrame → List Location → Bool) : Push → StackSample → Prop
  | .stackTrace ts item signum threadState _, m =>
    Carries lookups ts item signum threadState m
  | _, _ => False

def stackSample? : AgentEnvelope → Option StackSample
  | .stackSample m => some m
  | _ => none

def isMetric : AgentEnvelope → Bool
  | .metricInformation _ | .metricSamples _ | .constantMetricsComplete => true
  | _ => false

/-- The message that a record of the metrics becomes. -/
def metricEnvelope? : Push → Option AgentEnvelope
  | .metricInformation info => some (.metricInformation ⟨info.id, info.name,
      Envelopes.mapVariability info.variability, Envelopes.mapDataType info.dataType,
      Envelopes.mapUnit info.unit⟩)
  | .metricSamples metricSamples timeEpochMillis => some (.metricSamples
      ⟨(Int64.ofInt timeEpochMillis).toUInt64, metricSamples.map Envelopes.sampleOf⟩)
  | .constantMetricsComplete => some .constantMetricsComplete
  | _ => none

/-- What was popped from a lane is what it has accepted first, and the rest waits there. -/
structure InTurn (maxFrameSize : Nat) (s : State) (l : Lane) : Prop where
  first : s.popped l = ((s.pushed l).take (s.popped l).length).map (record maxFrameSize)
  popped : (s.popped l).length ≤ (s.pushed l).length
  waiting : (s.pushed l).length ≤ (s.popped l).length + l.size

/-- The records whose calls have handed over all that they hand over: those that were popped,
without the trace that is still walked. -/
def done (s : State) (l : Lane) : List Push :=
  (s.pushed l).take ((s.popped l).length - if l = .stack ∧ s.writer.walk.isSome then 1 else 0)

/-! ## The lanes -/

section lanes

variable {maxFrameSize : Nat} {q : Queue.CircularQueue.State} {f : Queues}

theorem popLane_popped (h : Refines maxFrameSize q f) (l : Lane) :
    Popped maxFrameSize f l (popLane q l) := by
  cases l with
  | main => exact popMain_popped h
  | allocation => exact popAllocation_popped h
  | stack => exact popStack_popped h

theorem lane_length (h : Refines maxFrameSize q f) (l : Lane) : (f l).length ≤ l.size := by
  cases l with
  | main => exact Nat.lt_succ_iff.mp h.main.room
  | allocation => exact Nat.lt_succ_iff.mp h.allocation.room
  | stack => exact Nat.lt_succ_iff.mp h.stack.room

theorem map_update (waiting : Lane → List Push) (l : Lane) (ps : List Push) :
    (fun l' => (Function.update waiting l ps l').map (record maxFrameSize)) =
      Function.update (fun l' => (waiting l').map (record maxFrameSize)) l
        (ps.map (record maxFrameSize)) := by
  funext l'
  by_cases hl : l' = l
  · rw [hl, Function.update_self, Function.update_self]
  · rw [Function.update_of_ne hl, Function.update_of_ne hl]

theorem clear_of_nonpos {fb : List CallFrame} {n : Int} (h : n ≤ 0) : clear fb n = fb := by
  rw [clear, Int.toNat_of_nonpos h]
  rfl

/-- A broken trace leaves its buffer blank. -/
theorem pushStackTrace_broken (h : Refines maxFrameSize q f) {ts : Timespec} {item : CallTrace}
    {signum threadState : Int} {timeTsc : UInt64} (hbroken : item.numFrames ≤ 0) :
    Accepted maxFrameSize f .stack
      (.recordStackTrace ts (delivered maxFrameSize item) signum threadState timeTsc)
      (pushStackTrace q ts item signum threadState timeTsc) := by
  unfold Accepted pushStackTrace
  by_cases hl : (f .stack).length = Lane.stack.size
  · rw [acquireWrite_full h.stack hl, if_pos hl, decide_eq_true hl]
    exact ⟨rfl, h⟩
  · rw [acquireWrite_room h.stack hl, if_neg hl, decide_eq_false hl]
    refine ⟨rfl, stack_push h hl _ _ (fun _ => rfl) ?_ ?_⟩
    · simp only [StackHolder.call, HeldTrace.read, Option.elim_some, Function.update_self,
        h.blank_input, write_blank]
      rfl
    · simp only [StackHolder.cleaned, h.blank_input, write_blank, clear_of_nonpos hbroken,
        delivered, Int.toNat_of_nonpos hbroken, List.take_zero, List.nil_append, Nat.sub_zero]
      rfl

theorem accepted_of_fits (h : Refines maxFrameSize q f) {p : Push} (hfits : Fits maxFrameSize p) :
    Accepted maxFrameSize f (lane p) (record maxFrameSize p) (push q p) := by
  cases p with
  | stackTrace ts item signum threadState timeTsc =>
    by_cases hbroken : item.numFrames ≤ 0
    · exact pushStackTrace_broken h hbroken
    · exact Queue.Fifos.push_accepted h ⟨by omega, hfits⟩
  | _ => exact Queue.Fifos.push_accepted h trivial

end lanes

/-! ## The log writer -/

section writer

variable {lookups : CallFrame → List Location → Bool} {s t : Envelopes.State}
  {es : List AgentEnvelope}

/-- Neither a sample nor a message of the metrics. -/
def Other (es : List AgentEnvelope) : Prop :=
  es.filterMap stackSample? = [] ∧ es.filter isMetric = []

theorem other_nil : Other [] := ⟨rfl, rfl⟩

theorem other_stashed (envelope : AgentEnvelope) (ns : List Notification) :
    Other (Envelopes.stashedEnvelopes .reused envelope ns) := by
  rw [Envelopes.stashedEnvelopes_eq]
  constructor
  · rw [List.filterMap_map, List.filterMap_eq_nil_iff]
    exact fun _ _ => rfl
  · rw [List.filter_eq_nil_iff]
    intro e he
    obtain ⟨n, -, rfl⟩ := List.mem_map.mp he
    exact Bool.false_ne_true

/-- What the log writer does between two calls of the listener and inside them. -/
inductive Inner (lookups : CallFrame → List Location → Bool) (s : Envelopes.State) :
    List AgentEnvelope → Envelopes.State → Prop
  | beside {es : List AgentEnvelope} {t : Envelopes.State} (hes : Other es)
    (henvelope : t.frameAgentEnvelope = s.frameAgentEnvelope) (hwalk : t.walk = s.walk) :
    Inner lookups s es t
  | lookedUp {isError numFrames frame frames locations}
    (hwalk : s.walk = some ⟨isError, numFrames, frame :: frames⟩)
    (hlookup : lookups frame locations = true) :
    Inner lookups s []
      (Envelopes.lookedUp s ⟨isError, numFrames, frame :: frames⟩ frames locations)
  | ended {isError numFrames} (hwalk : s.walk = some ⟨isError, numFrames, []⟩) :
    Inner lookups s (Envelopes.endStackTrace s ⟨isError, numFrames, []⟩).1
      (Envelopes.endStackTrace s ⟨isError, numFrames, []⟩).2

theorem step_inner {a : Envelopes.Label} (ha : inner lookups s a = true)
    (hs : Envelopes.step .reused s a = some (es, t)) : Inner lookups s es t := by
  cases a with
  | recordStackTrace | recordNotification | recordMetricInformation | recordMetricSamples
  | recordConstantMetricsComplete | recordAllocation => cases ha
  | lookedUp locations =>
    obtain ⟨_, _, _, _, hwalk, hx⟩ := Envelopes.step_lookedUp hs
    cases hx
    unfold inner at ha
    rw [hwalk] at ha
    exact .lookedUp hwalk ha
  | endStackTrace =>
    obtain ⟨_, _, hwalk, hx⟩ := Envelopes.step_endStackTrace hs
    cases hx
    exact .ended hwalk
  | onNewFile | onNewFunction | recordAllocationTable | sendHeartbeat | onAgentStatisticsTimer
  | onDisconnect =>
    cases hs
    exact .beside ⟨rfl, rfl⟩ rfl rfl
  | onSampleRate controller first =>
    cases first with
    | true =>
      cases hs
      exact .beside (other_stashed _ _) rfl rfl
    | false =>
      cases hs
      exact .beside other_nil rfl rfl

/-- How far the sample of a trace is, whose frames have been looked up but for the rest. -/
structure Walking (lookups : CallFrame → List Location → Bool) (c : Envelopes.StackTrace)
    (w : Walk) (m : StackSample) : Prop where
  isError : w.isError = decide (c.trace.numFrames < 0)
  numFrames : w.numFrames = c.trace.numFrames.natAbs
  sample : ∃ s m', m =
    { Envelopes.setSample s c m' with compressedFrames := m.compressedFrames }
  frames : ∃ seen looked, seen ++ w.frames = readFrames ⟨c.trace.numFrames, c.trace.frames⟩ ∧
    List.Forall₂ (fun frame locations => lookups frame locations = true) seen looked ∧
    m.compressedFrames = looked.flatMap (addFrames w.isError)

theorem walking_begin (s : Envelopes.State) (c : Envelopes.StackTrace) :
    ∃ w m, (Envelopes.recordStackTrace .reused s c).walk = some w ∧
      (Envelopes.recordStackTrace .reused s c).frameAgentEnvelope = .stackSample m ∧
      Walking lookups c w m :=
  ⟨_, _, rfl, rfl, rfl, rfl, ⟨s, _, rfl⟩, [], [], rfl, .nil, rfl⟩

theorem Walking.lookedUp {c : Envelopes.StackTrace} {isError : Bool} {numFrames : Nat}
    {frame : CallFrame} {frames : List CallFrame} {locations : List Location} {m : StackSample}
    (h : Walking lookups c ⟨isError, numFrames, frame :: frames⟩ m)
    (hlookup : lookups frame locations = true) :
    Walking lookups c ⟨isError, numFrames, frames⟩
      (Envelopes.addCompressedFrames isError locations m) := by
  obtain ⟨herror, hnum, ⟨s, m', hm⟩, seen, looked, hseen, hlooked, hframes⟩ := h
  refine ⟨herror, hnum, ⟨s, m', ?_⟩, seen ++ [frame], looked ++ [locations], ?_, ?_, ?_⟩
  · rw [Envelopes.addCompressedFrames, hm]
  · rw [List.append_assoc]
    exact hseen
  · exact List.rel_append hlooked (.cons hlookup .nil)
  · rw [List.flatMap_append, ← hframes]
    simp [Envelopes.addCompressedFrames]

theorem flatMap_error (looked : List (List Location)) :
    looked.flatMap (addFrames true) = [] := by
  induction looked with
  | nil => rfl
  | cons locations looked ih => exact ih

/-- All frames have been looked up. -/
theorem Walking.carries {c : Envelopes.StackTrace} {isError : Bool} {numFrames : Nat}
    {m : StackSample} (h : Walking lookups c ⟨isError, numFrames, []⟩ m) :
    Carries lookups c.ts c.trace c.signum c.threadState
      (Envelopes.setHasMaxFrames numFrames m) := by
  obtain ⟨herror, hnum, ⟨s, m', hm⟩, seen, looked, hseen, hlooked, hframes⟩ := h
  rw [List.append_nil] at hseen
  dsimp only at herror hnum hframes
  subst hnum
  have hset : Envelopes.setHasMaxFrames c.trace.numFrames.natAbs m =
      { Envelopes.setSample s c m' with
        compressedFrames := m.compressedFrames
        hasMaxFrames := decide (maxFrames ≤ c.trace.numFrames.natAbs) } := by
    rw [Envelopes.setHasMaxFrames, hm]
  rw [hset]
  refine ⟨⟨s.controller, rfl⟩, rfl, rfl, rfl, rfl, rfl, ?_⟩
  split
  · rename_i hneg
    rw [hframes, herror, decide_eq_true hneg]
    exact flatMap_error looked
  · rename_i hpos
    rw [herror, decide_eq_false hpos] at hframes
    exact ⟨looked, hseen ▸ hlooked, hframes⟩

/-- The frames of a trace that fits are read as they were captured. -/
theorem readFrames_delivered {maxFrameSize : Nat} {item : CallTrace} (hpos : ¬ item.numFrames < 0)
    (hframes : item.numFrames ≤ item.frames.length) :
    readFrames ⟨item.numFrames, (delivered maxFrameSize item).frames⟩ =
      readFrames ⟨item.numFrames, item.frames⟩ := by
  have hlength : (item.frames.take item.numFrames.toNat).length = item.numFrames.natAbs := by
    rw [List.length_take]
    omega
  have hnat : item.numFrames.natAbs = item.numFrames.toNat := by omega
  unfold readFrames delivered
  simp only
  rw [List.take_append_of_le_length (Nat.le_of_eq hlength.symm), hnat, List.take_take,
    Nat.min_self]

theorem Carries.of_delivered {maxFrameSize : Nat} {ts : Timespec} {item : CallTrace}
    {signum threadState : Int} {m : StackSample} (hframes : item.numFrames ≤ item.frames.length)
    (h : Carries lookups ts (delivered maxFrameSize item) signum threadState m) :
    Carries lookups ts item signum threadState m := by
  refine ⟨h.type, h.timeEpochMillis, h.threadId, h.threadState, h.errorCode, h.hasMaxFrames, ?_⟩
  have hlooked := h.compressedFrames
  split
  · rename_i hneg
    rwa [if_pos (show (delivered maxFrameSize item).numFrames < 0 from hneg)] at hlooked
  · rename_i hpos
    rw [if_neg (show ¬ (delivered maxFrameSize item).numFrames < 0 from hpos)] at hlooked
    rw [← readFrames_delivered hpos hframes]
    exact hlooked

/-- The first step of a call for a record that is no stack trace is the only one. -/
theorem step_call {maxFrameSize : Nat} {nameAnswer : NameAnswer} {p : Push} {a : Envelopes.Label}
    (hp : isStackTrace p = false)
    (ha : listenerCall nameAnswer (record maxFrameSize p) = some a)
    (hs : Envelopes.step .reused s a = some (es, t)) :
    t.walk = none ∧ es.filterMap stackSample? = [] ∧
      es.filter isMetric = (metricEnvelope? p).toList := by
  cases p with
  | stackTrace => cases hp
  | thread => cases ha
  | allocation | metricInformation | metricSamples | constantMetricsComplete =>
    cases ha
    obtain ⟨hwalk, hx⟩ := Envelopes.idle_eq_some.mp hs
    cases hx
    exact ⟨hwalk, rfl, rfl⟩
  | notification category payload value =>
    cases ha
    obtain ⟨hwalk, hx⟩ := Envelopes.idle_eq_some.mp hs
    unfold Envelopes.recordNotification at hx
    split at hx
    · cases hx
      exact ⟨hwalk, rfl, rfl⟩
    · cases hx
      exact ⟨hwalk, rfl, rfl⟩

end writer

end Opsian.Writer.Pipeline
