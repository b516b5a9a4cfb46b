import Opsian.Lib.History
import Opsian.Metrics.Completion

/-! # The cursor of the runtime events

The event-ring reader is made and deleted with the metrics, but its cursor is a global that
the OCaml runtime allocates, and so is the switch that the runtime records events at all. A
fork forgets the reader and keeps both. -/
namespace Opsian.Metrics.Cursor
open Opsian.Lib.Runs Opsian.Lib.History
open Opsian.Metrics.Completion (Events eventRingName isPrefixDisabled)

/-- The runtime's side: whether it was started and is not paused, and its cursors. -/
structure Runtime where
  started : Bool
  recording : Bool
  cursors : List Nat
  next : Nat
  deriving DecidableEq, Repr

/-- `Metrics::enabled_`, the `enabled_` of its event-ring reader, and the globals
`calledStart_` and `cursor_`. -/
structure State where
  enabled : Bool
  reader : Option Bool
  calledStart : Bool
  cursor : Option Nat
  runtime : Runtime
  deriving DecidableEq, Repr

def init : State := ⟨false, none, false, none, ⟨false, false, [], 0⟩⟩

/-- `caml_runtime_events_free_cursor`, of one that there is. -/
def freeCursor (r : Runtime) (cursor : Nat) : Option Runtime :=
  if cursor ∈ r.cursors then some { r with cursors := r.cursors.erase cursor } else none

def disableRuntimeEvents (events : Events) (s : State) : Option State :=
  match events with
  | .disabled => some s
  | .enabled =>
    let s : State :=
      if s.calledStart then { s with runtime := { s.runtime with recording := false } } else s
    match s.cursor with
    | none => some s
    | some cursor => (freeCursor s.runtime cursor).map fun r =>
        { s with runtime := r, cursor := none }

/-- `caml_runtime_events_start` the first time ever, then `caml_runtime_events_resume`. -/
def startRuntimeEvents (s : State) : State :=
  if s.calledStart then { s with runtime := { s.runtime with recording := true } }
  else { s with
    runtime := { s.runtime with started := true, recording := true }
    calledStart := true }

/-- `caml_runtime_events_create_cursor`, which overwrites the global. -/
def createCursor (s : State) (created : Bool) : State :=
  if created then { s with
    cursor := some s.runtime.next
    runtime := { s.runtime with
      cursors := s.runtime.next :: s.runtime.cursors
      next := s.runtime.next + 1 } }
  else { s with cursor := none }

def enableRuntimeEvents (events : Events) (s : State) (wasEnabled enable created : Bool) :
    Option (Bool × State) :=
  match events with
  | .disabled => some (false, s)
  | .enabled =>
    if !wasEnabled && enable then some (created, createCursor (startRuntimeEvents s) created)
    else if wasEnabled && !enable then (disableRuntimeEvents .enabled s).map fun s => (enable, s)
    else some (enable, s)

def updateEntryPrefixes (events : Events) (s : State) (wasEnabled : Bool)
    (disabledPrefixes : List String) (created : Bool) : Option State :=
  (enableRuntimeEvents events s wasEnabled (!isPrefixDisabled eventRingName disabledPrefixes)
    created).map fun x => { x.2 with enabled := true, reader := some x.1 }

/-- `Metrics::enable`; the constructor of a reader begins with one that is not enabled. -/
def enable (events : Events) (s : State) (disabledPrefixes : List String) (created : Bool) :
    Option State :=
  if s.enabled then
    s.reader.bind fun enabled => updateEntryPrefixes events s enabled disabledPrefixes created
  else updateEntryPrefixes events s false disabledPrefixes created

/-- `Metrics::disable`. -/
def disable (events : Events) (s : State) : Option State :=
  if s.enabled then
    s.reader.bind fun enabled =>
      (if enabled then disableRuntimeEvents events s else some s).map fun s =>
        { s with enabled := false, reader := none }
  else some { s with enabled := false }

/-- What the metrics thread does with the cursor: it polls one that there is. -/
def read (events : Events) (s : State) : Option State :=
  if s.enabled then
    s.reader.bind fun enabled =>
      match events, enabled, s.cursor with
      | .enabled, true, some cursor => if cursor ∈ s.runtime.cursors then some s else none
      | _, _, _ => some s
  else some s

/-- `Metrics::on_fork` in the child, whose memory has all cursors of the parent. -/
def onFork (s : State) : State := { s with enabled := false, reader := none }

inductive Label where
  | enable (disabledPrefixes : List String) (created : Bool)
  | disable
  | read
  | fork
  deriving DecidableEq, Repr

def step (events : Events) (s : State) : Label → Option State
  | .enable disabledPrefixes created => enable events s disabledPrefixes created
  | .disable => disable events s
  | .read => read events s
  | .fork => some (onFork s)

/-- How many forks have forgotten a reader that was enabled. -/
def note (orphans : Nat) (s : State) (a : Label) (_ : State) : Nat :=
  if a = .fork ∧ s.reader = some true then orphans + 1 else orphans

/-- An enabled reader has a cursor in a runtime that records. Any other cursor that there is
was forgotten by a fork, and no step uses or frees one that there is not. -/
structure Accounted (events : Events) (x : State × Nat) : Prop where
  opened : x.1.reader = some true → ∃ cursor ∈ x.1.runtime.cursors, x.1.cursor = some cursor ∧
    x.1.runtime.started = true ∧ x.1.runtime.recording = true
  count : x.1.runtime.cursors.length = x.2 + if x.1.reader = some true then 1 else 0
  enabled : ∀ a, (step events x.1 a).isSome

/-! ## The invariant -/

section invariant

variable {events : Events} {s t : State} {orphans : Nat} {a : Label}

structure Inv (events : Events) (s : State) (orphans : Nat) : Prop where
  pointed : s.enabled = s.reader.isSome
  nodup : s.runtime.cursors.Nodup
  fresh : ∀ cursor ∈ s.runtime.cursors, cursor < s.runtime.next
  started : s.calledStart = s.runtime.started
  opened : s.reader = some true → events = .enabled ∧
    ∃ cursor ∈ s.runtime.cursors, s.cursor = some cursor ∧ s.runtime.started = true ∧
      s.runtime.recording = true
  count : s.runtime.cursors.length = orphans + if s.reader = some true then 1 else 0

theorem init_inv (events : Events) : Inv events init 0 where
  pointed := rfl
  nodup := List.nodup_nil
  fresh _ h := by cases h
  started := rfl
  opened h := by cases h
  count := rfl

/-- The reader of an enabled component. -/
theorem Inv.reader_of_enabled (h : Inv events s orphans) (he : s.enabled = true) :
    ∃ enabled, s.reader = some enabled :=
  Option.isSome_iff_exists.mp (h.pointed.symm.trans he)

theorem Inv.reader_none (h : Inv events s orphans) (he : ¬ s.enabled = true) :
    s.reader = none := by
  rw [h.pointed] at he
  exact Option.not_isSome_iff_eq_none.mp he

/-- An enabled reader gives its cursor back. -/
theorem Inv.disableRuntimeEvents (h : Inv events s orphans) (hr : s.reader = some true) :
    ∃ u, disableRuntimeEvents events s = some u ∧ u.enabled = s.enabled ∧
      u.calledStart = u.runtime.started ∧ u.runtime.cursors.Nodup ∧
      (∀ cursor ∈ u.runtime.cursors, cursor < u.runtime.next) ∧
      u.runtime.cursors.length = orphans := by
  obtain ⟨rfl, cursor, hmem, hcursor, hstarted, -⟩ := h.opened hr
  have hcount := h.count
  rw [if_pos hr] at hcount
  have hcalled := h.started.trans hstarted
  unfold Cursor.disableRuntimeEvents
  simp only [hcalled, if_true, hcursor, freeCursor, if_pos hmem, Option.map_some]
  refine ⟨_, rfl, rfl, hstarted.symm, h.nodup.erase cursor, fun c hc => ?_, ?_⟩
  · exact h.fresh c (List.mem_of_mem_erase hc)
  · rw [List.length_erase_of_mem hmem, hcount]
    rfl

/-- Without an enabled reader a cursor is created, and the one before it forgotten. -/
theorem Inv.created (h : Inv .enabled s orphans) (hr : s.reader ≠ some true) (created : Bool) :
    Inv .enabled { createCursor (startRuntimeEvents s) created with
      enabled := true, reader := some created } orphans := by
  have hcount := h.count
  rw [if_neg hr, Nat.add_zero] at hcount
  have hruntime : (startRuntimeEvents s).runtime =
      { s.runtime with started := true, recording := true } := by
    unfold startRuntimeEvents
    split
    · rename_i hcalled
      rw [← hcalled, h.started]
    · rfl
  have hcalled : (startRuntimeEvents s).calledStart = true := by
    unfold startRuntimeEvents
    split
    · assumption
    · rfl
  cases created with
  | true =>
    refine ⟨rfl, ?_, fun c hc => ?_, ?_, fun _ => ⟨rfl, s.runtime.next, ?_⟩, ?_⟩
    all_goals simp only [createCursor, if_true, hruntime] at *
    · exact List.nodup_cons.mpr ⟨fun hmem => Nat.lt_irrefl _ (h.fresh _ hmem), h.nodup⟩
    · rcases List.mem_cons.mp hc with rfl | hc
      · exact Nat.lt_succ_self _
      · exact Nat.lt_succ_of_lt (h.fresh c hc)
    · exact hcalled
    · simp
    · rw [List.length_cons, hcount]
  | false =>
    refine ⟨rfl, ?_, fun c hc => ?_, ?_, fun hreader => ?_, ?_⟩
    · show (startRuntimeEvents s).runtime.cursors.Nodup
      rw [hruntime]
      exact h.nodup
    · have hc : c ∈ (startRuntimeEvents s).runtime.cursors := hc
      show c < (startRuntimeEvents s).runtime.next
      rw [hruntime] at hc ⊢
      exact h.fresh c hc
    · show (startRuntimeEvents s).calledStart = (startRuntimeEvents s).runtime.started
      rw [hcalled, hruntime]
    · cases hreader
    · show (startRuntimeEvents s).runtime.cursors.length = orphans + 0
      rw [hruntime]
      exact hcount

/-- The switch of a reader, whose flag is `wasEnabled`; a new one is not enabled. -/
theorem Inv.updateEntryPrefixes (h : Inv events s orphans) {wasEnabled : Bool}
    (hwas : s.reader = some true ↔ wasEnabled = true) (disabledPrefixes : List String)
    (created : Bool) :
    ∃ u, updateEntryPrefixes events s wasEnabled disabledPrefixes created = some u ∧
      Inv events u orphans := by
  unfold Cursor.updateEntryPrefixes enableRuntimeEvents
  generalize (!isPrefixDisabled eventRingName disabledPrefixes) = wanted
  cases events with
  | disabled =>
    have hr : s.reader ≠ some true := fun hr => by cases (h.opened hr).1
    have hcount := h.count
    rw [if_neg hr] at hcount
    refine ⟨_, rfl, rfl, h.nodup, h.fresh, h.started, fun hreader => ?_, hcount⟩
    cases hreader
  | enabled =>
    cases wasEnabled with
    | false =>
      have hr : s.reader ≠ some true := fun hr => by cases hwas.mp hr
      cases wanted with
      | true => exact ⟨_, rfl, h.created hr created⟩
      | false =>
        have hcount := h.count
        rw [if_neg hr] at hcount
        refine ⟨_, rfl, rfl, h.nodup, h.fresh, h.started, fun hreader => ?_, hcount⟩
        cases hreader
    | true =>
      have hr := hwas.mpr rfl
      cases wanted with
      | true =>
        have hcount := h.count
        rw [if_pos hr] at hcount
        exact ⟨_, rfl, rfl, h.nodup, h.fresh, h.started, fun _ => h.opened hr, hcount⟩
      | false =>
        obtain ⟨u, hu, -, hstarted, hnodup, hfresh, hcount⟩ := h.disableRuntimeEvents hr
        simp only [Bool.not_true, Bool.not_false, Bool.and_self, if_true,
          Bool.false_eq_true, if_false, hu, Option.map_some]
        refine ⟨_, rfl, rfl, hnodup, hfresh, hstarted, fun hreader => ?_, hcount⟩
        cases hreader

theorem Inv.enable (h : Inv events s orphans) (disabledPrefixes : List String)
    (created : Bool) :
    ∃ u, enable events s disabledPrefixes created = some u ∧ Inv events u orphans := by
  unfold Cursor.enable
  split
  · rename_i he
    obtain ⟨enabled, hr⟩ := h.reader_of_enabled he
    rw [hr, Option.bind_some]
    refine h.updateEntryPrefixes ?_ disabledPrefixes created
    rw [hr, Option.some_inj]
  · rename_i he
    refine h.updateEntryPrefixes ?_ disabledPrefixes created
    rw [h.reader_none he]
    simp

theorem Inv.disable (h : Inv events s orphans) :
    ∃ u, disable events s = some u ∧ Inv events u orphans := by
  unfold Cursor.disable
  split
  · rename_i he
    obtain ⟨enabled, hr⟩ := h.reader_of_enabled he
    rw [hr, Option.bind_some]
    cases enabled with
    | true =>
      obtain ⟨u, hu, -, hstarted, hnodup, hfresh, hcount⟩ := h.disableRuntimeEvents hr
      rw [if_pos rfl, hu, Option.map_some]
      refine ⟨_, rfl, rfl, hnodup, hfresh, hstarted, fun hreader => ?_, hcount⟩
      cases hreader
    | false =>
      have hcount := h.count
      rw [hr] at hcount
      refine ⟨_, rfl, rfl, h.nodup, h.fresh, h.started, fun hreader => ?_, hcount⟩
      cases hreader
  · rename_i he
    have hcount := h.count
    refine ⟨_, rfl, ?_, h.nodup, h.fresh, h.started, h.opened, hcount⟩
    rw [h.reader_none he]
    rfl

theorem Inv.read (h : Inv events s orphans) : read events s = some s := by
  unfold Cursor.read
  split
  · rename_i he
    obtain ⟨enabled, hr⟩ := h.reader_of_enabled he
    rw [hr, Option.bind_some]
    cases enabled with
    | true =>
      obtain ⟨rfl, cursor, hmem, hcursor, -⟩ := h.opened hr
      rw [hcursor]
      exact if_pos hmem
    | false => cases events <;> rfl
  · rfl

/-- The child has the cursor of a reader that it has not got. -/
theorem Inv.onFork (h : Inv events s orphans) :
    Inv events (Cursor.onFork s) (note orphans s .fork (Cursor.onFork s)) := by
  have hcount := h.count
  refine ⟨rfl, h.nodup, h.fresh, h.started, fun hreader => ?_, ?_⟩
  · cases hreader
  · show s.runtime.cursors.length = note orphans s .fork (Cursor.onFork s) + 0
    unfold note
    by_cases hr : s.reader = some true
    · rw [if_pos hr] at hcount
      rw [if_pos ⟨rfl, hr⟩, hcount]
    · rw [if_neg hr] at hcount
      rw [if_neg fun hand => hr hand.2, hcount]

theorem note_of_ne (ha : a ≠ .fork) : note orphans s a t = orphans :=
  if_neg fun hand => ha hand.1

/-- Every step is possible, and keeps the invariant. -/
theorem Inv.next (h : Inv events s orphans) (a : Label) :
    ∃ u, step events s a = some u ∧ Inv events u (note orphans s a u) := by
  cases a with
  | enable disabledPrefixes created =>
    obtain ⟨u, hu, hinv⟩ := h.enable disabledPrefixes created
    refine ⟨u, hu, ?_⟩
    rw [note_of_ne (by simp)]
    exact hinv
  | disable =>
    obtain ⟨u, hu, hinv⟩ := h.disable
    refine ⟨u, hu, ?_⟩
    rw [note_of_ne (by simp)]
    exact hinv
  | read =>
    refine ⟨s, h.read, ?_⟩
    rw [note_of_ne (by simp)]
    exact h
  | fork => exact ⟨_, rfl, h.onFork⟩

theorem Inv.accounted (h : Inv events s orphans) : Accounted events (s, orphans) where
  opened hr := (h.opened hr).2
  count := h.count
  enabled a := by
    obtain ⟨u, hu, -⟩ := h.next a
    exact Option.isSome_iff_exists.mpr ⟨u, hu⟩

end invariant

/-- **No cursor is used that has been freed, and none is lost but to forks**: one for each
fork that found the reader enabled, whatever is switched on and off before and behind it. -/
theorem cursors_accounted (events : Events) (labels : List Label) :
    Along (recording (step events) note) (Accounted events) (init, 0) labels := by
  have hstep : ∀ x a y, Inv events x.1 x.2 → recording (step events) note x a = some y →
      Inv events y.1 y.2 := fun x a y hx hs => by
    obtain ⟨u, hu, hinv⟩ := Inv.next hx a
    obtain ⟨hy, hnote⟩ := recording_eq_some.mp hs
    cases hu.symm.trans hy
    rw [hnote]
    exact hinv
  exact (along_of_step (I := fun x => Inv events x.1 x.2) hstep (init_inv events) labels).mono
    fun x hx => hx.accounted

end Opsian.Metrics.Cursor
