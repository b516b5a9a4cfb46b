import Mathlib.Logic.Function.Basic
import Opsian.Metrics.Listener

/-! # Runtime events

The callbacks that a poll of the OCaml runtime makes for each event of its rings, with
the phases they keep open and the entries that they collect into batches. -/
namespace Opsian.Metrics.RuntimeEvents
open Opsian.Metrics.Listener

/-- `ev_runtime_phase`; the phases that are not asked for are numbered. -/
inductive RuntimePhase where
  | minor
  | major
  | other (value : Nat)
  deriving DecidableEq, Repr

/-- `ev_runtime_counter`, likewise. -/
inductive RuntimeCounter where
  | forceMinorAllocSmall
  | forceMinorMakeVect
  | forceMinorSetMinorHeapSize
  | forceMinorWeak
  | forceMinorMemprof
  | minorPromoted
  | minorAllocated
  | other (value : Nat)
  deriving DecidableEq, Repr

/-- `REQUIRED_PHASES`. -/
def requiredPhases : RuntimePhase → Option String
  | .minor => some "ocaml.eventring.EV_MINOR"
  | .major => some "ocaml.eventring.EV_MAJOR"
  | .other _ => none

/-- `REQUIRED_COUNTERS`. -/
def requiredCounters : RuntimeCounter → Option String
  | .forceMinorAllocSmall => some "ocaml.eventring.EV_C_FORCE_MINOR_ALLOC_SMALL"
  | .forceMinorMakeVect => some "ocaml.eventring.EV_C_FORCE_MINOR_MAKE_VECT"
  | .forceMinorSetMinorHeapSize => some "ocaml.eventring.EV_C_FORCE_MINOR_SET_MINOR_HEAP_SIZE"
  | .forceMinorWeak => some "ocaml.eventring.EV_C_FORCE_MINOR_WEAK"
  | .forceMinorMemprof => some "ocaml.eventring.EV_C_FORCE_MINOR_MEMPROF"
  | .minorPromoted => some "ocaml.eventring.EV_C_MINOR_PROMOTED"
  | .minorAllocated => some "ocaml.eventring.EV_C_MINOR_ALLOCATED"
  | .other _ => none

def lostEventsName : String := "ocaml.eventring.lost_events"

def nsInMs : UInt64 := 1000000

/-- `sizeof(unsigned)`. -/
def wordSize : UInt64 := 4

/-! ## The callbacks -/

structure EventState where
  beginTimestamp : UInt64
  eventName : String
  deriving DecidableEq, Repr

/-- `phaseToEventState_`. -/
abbrev PhaseStates := RuntimePhase → Option EventState

/-- The calls on the `PollState` of the poll. -/
inductive Call where
  | addEntry (entry : MetricListenerEntry) (timestampInNs : UInt64)
  | lostEvents (n : Int32)
  deriving DecidableEq, Repr

def eventRingBegin (m : PhaseStates) (timestamp : UInt64) (phase : RuntimePhase) : PhaseStates :=
  match requiredPhases phase with
  | none => m
  | some name =>
    match m phase with
    | none => Function.update m phase (some ⟨timestamp, name⟩)
    | some state => Function.update m phase (some { state with beginTimestamp := timestamp })

def durationEntry (name : String) (duration : UInt64) : MetricListenerEntry where
  name := name
  variability := .variable
  unit := .nanoseconds
  data := ⟨.long, "", duration.toInt64⟩

def eventRingEnd (m : PhaseStates) (timestamp : UInt64) (phase : RuntimePhase) :
    PhaseStates × List Call :=
  match requiredPhases phase with
  | none => (m, [])
  | some _ =>
    match m phase with
    | none => (m, [])
    | some state =>
      (Function.update m phase none,
        [.addEntry (durationEntry state.eventName (timestamp - state.beginTimestamp)) timestamp])

def eventRingCounter (timestamp : UInt64) (counter : RuntimeCounter) (value : UInt64) :
    List Call :=
  match requiredCounters counter with
  | none => []
  | some name =>
    let words := counter = .minorPromoted ∨ counter = .minorAllocated
    [.addEntry
      { name := name
        variability := .variable
        unit := if words then .bytes else .events
        data := ⟨.long, "", (if words then value * wordSize else value).toInt64⟩ }
      timestamp]

/-- What `caml_runtime_events_read_poll` calls for one event of a domain's ring. -/
inductive Callback where
  | eventRingBegin (domainId : Nat) (timestamp : UInt64) (phase : RuntimePhase)
  | eventRingEnd (domainId : Nat) (timestamp : UInt64) (phase : RuntimePhase)
  | eventRingCounter (domainId : Nat) (timestamp : UInt64) (counter : RuntimeCounter)
      (value : UInt64)
  | eventRingLostEvents (domainId : Nat) (n : Int32)
  deriving DecidableEq, Repr

def callback (m : PhaseStates) : Callback → PhaseStates × List Call
  | .eventRingBegin _ timestamp phase => (eventRingBegin m timestamp phase, [])
  | .eventRingEnd _ timestamp phase => eventRingEnd m timestamp phase
  | .eventRingCounter _ timestamp counter value => (m, eventRingCounter timestamp counter value)
  | .eventRingLostEvents _ n => (m, [.lostEvents n])

/-- The callbacks of a poll, one after another. -/
def callbacks (m : PhaseStates) : List Callback → PhaseStates × List Call
  | [] => (m, [])
  | c :: cs =>
    let r := callback m c
    let r' := callbacks r.1 cs
    (r'.1, r.2 ++ r'.2)

/-! ## The entries of a poll -/

/-- `PollState`, with what it has given to `recordEntries` of its listener. -/
structure PollState where
  entries : List MetricListenerEntry
  lostEvents : Int32
  lastTimestampInMs : UInt64
  recorded : List (List MetricListenerEntry × Int64)
  deriving DecidableEq, Repr

namespace PollState

def new : PollState := ⟨[], 0, 0, []⟩

def lostEventsEntry (lostEvents : Int32) : MetricListenerEntry where
  name := lostEventsName
  variability := .variable
  unit := .none
  data := ⟨.long, "", lostEvents.toInt64⟩

/-- `adjustment` is `MONOTONIC_TO_REALTIME_ADJUSTMENT_IN_MS`. -/
def push (adjustment : Int64) (s : PollState) : PollState :=
  if s.entries = [] then s
  else
    let s : PollState :=
      if 0 < s.lostEvents then
        { s with entries := s.entries ++ [lostEventsEntry s.lostEvents], lostEvents := 0 }
      else s
    { s with
      entries := []
      recorded := s.recorded ++ [(s.entries, adjustment + s.lastTimestampInMs.toInt64)] }

def addEntry (adjustment : Int64) (s : PollState) (entry : MetricListenerEntry)
    (timestampInNs : UInt64) : PollState :=
  let timestampInMs := timestampInNs / nsInMs
  let s : PollState :=
    if s.lastTimestampInMs = 0 then { s with lastTimestampInMs := timestampInMs }
    else if s.lastTimestampInMs ≠ timestampInMs then
      { s.push adjustment with lastTimestampInMs := timestampInMs }
    else s
  { s with entries := s.entries ++ [entry] }

def apply (adjustment : Int64) (s : PollState) : Call → PollState
  | .addEntry entry timestampInNs => s.addEntry adjustment entry timestampInNs
  | .lostEvents n => { s with lostEvents := s.lostEvents + n }

/-- `read_runtime_events` with a cursor, whose callbacks make the calls, and its last push. -/
def run (adjustment : Int64) (calls : List Call) : PollState :=
  (calls.foldl (apply adjustment) new).push adjustment

end PollState

theorem callbacks_append (m : PhaseStates) (cs cs' : List Callback) :
    callbacks m (cs ++ cs') =
      ((callbacks (callbacks m cs).1 cs').1,
        (callbacks m cs).2 ++ (callbacks (callbacks m cs).1 cs').2) := by
  induction cs generalizing m with
  | nil => rfl
  | cons c cs ih => simp [callbacks, ih]

theorem callbacks_concat (m : PhaseStates) (cs : List Callback) (c : Callback) :
    (callbacks m (cs ++ [c])).1 = (callback (callbacks m cs).1 c).1 := by
  rw [callbacks_append]
  rfl

/-! ## The names -/

/-- The open phases have the names that they are asked for by. -/
def Named (m : PhaseStates) : Prop :=
  ∀ phase state, m phase = some state → requiredPhases phase = some state.eventName

/-- The entry is named after a phase or a counter that is asked for. -/
def Required (e : MetricListenerEntry) : Prop :=
  (∃ phase, requiredPhases phase = some e.name) ∨
    ∃ counter, requiredCounters counter = some e.name

theorem Required.ne_lostEvents {e : MetricListenerEntry} (h : Required e) :
    e.name ≠ lostEventsName := by
  intro he
  rcases h with ⟨phase, h⟩ | ⟨counter, h⟩
  · rw [he] at h
    cases phase <;> simp [requiredPhases, lostEventsName] at h
  · rw [he] at h
    cases counter <;> simp [requiredCounters, lostEventsName] at h

theorem named_none : Named fun _ => none := nofun

theorem named_update {m : PhaseStates} (h : Named m) {phase : RuntimePhase}
    {state : Option EventState}
    (hstate : ∀ st, state = some st → requiredPhases phase = some st.eventName) :
    Named (Function.update m phase state) := by
  intro p st hp
  by_cases he : p = phase
  · subst he
    rw [Function.update_self] at hp
    exact hstate st hp
  · rw [Function.update_of_ne he] at hp
    exact h p st hp

theorem eventRingBegin_named {m : PhaseStates} (h : Named m) (timestamp : UInt64)
    (phase : RuntimePhase) : Named (eventRingBegin m timestamp phase) := by
  unfold eventRingBegin
  split
  · exact h
  · rename_i name hname
    split
    · refine named_update h fun st hst => ?_
      cases hst
      exact hname
    · rename_i state hstate
      refine named_update h fun st hst => ?_
      cases hst
      exact h phase state hstate

theorem eventRingEnd_named {m : PhaseStates} (h : Named m) (timestamp : UInt64)
    (phase : RuntimePhase) :
    Named (eventRingEnd m timestamp phase).1 ∧
      ∀ e ts, .addEntry e ts ∈ (eventRingEnd m timestamp phase).2 → Required e := by
  unfold eventRingEnd
  split
  · exact ⟨h, fun _ _ he => absurd he List.not_mem_nil⟩
  · split
    · exact ⟨h, fun _ _ he => absurd he List.not_mem_nil⟩
    · rename_i state hstate
      refine ⟨named_update h nofun, fun e ts he => ?_⟩
      cases List.mem_singleton.mp he
      exact .inl ⟨phase, h phase state hstate⟩

theorem eventRingCounter_required {timestamp ts value : UInt64} {counter : RuntimeCounter}
    {e : MetricListenerEntry} (he : .addEntry e ts ∈ eventRingCounter timestamp counter value) :
    Required e := by
  unfold eventRingCounter at he
  split at he
  · cases he
  · rename_i name hname
    cases List.mem_singleton.mp he
    exact .inr ⟨counter, hname⟩

theorem callback_named {m : PhaseStates} (h : Named m) (c : Callback) :
    Named (callback m c).1 ∧ ∀ e ts, .addEntry e ts ∈ (callback m c).2 → Required e := by
  cases c with
  | eventRingBegin d ts phase =>
    exact ⟨eventRingBegin_named h ts phase, fun _ _ he => absurd he List.not_mem_nil⟩
  | eventRingEnd d ts phase => exact eventRingEnd_named h ts phase
  | eventRingCounter d ts counter value => exact ⟨h, fun _ _ => eventRingCounter_required⟩
  | eventRingLostEvents d n => exact ⟨h, fun e ts he => by cases List.mem_singleton.mp he⟩

theorem callbacks_required {m : PhaseStates} (h : Named m) (cs : List Callback)
    {e : MetricListenerEntry} {ts : UInt64} (he : .addEntry e ts ∈ (callbacks m cs).2) :
    Required e := by
  induction cs generalizing m with
  | nil => cases he
  | cons c cs ih =>
    obtain ⟨hnamed, hrequired⟩ := callback_named h c
    exact (List.mem_append.mp he).elim (hrequired e ts) (ih hnamed)

end Opsian.Metrics.RuntimeEvents
