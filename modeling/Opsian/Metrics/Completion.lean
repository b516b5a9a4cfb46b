import Opsian.Metrics.Loop

/-! # The readers and the completion

The completion waits until both readers say they have emitted their constants.
The CPU reader says so behind its first read, the event-ring reader only if it
was enabled when it was read. -/
namespace Opsian.Metrics.Completion
open Opsian.Lib.Runs Opsian.Metrics.Loop

/-- The implementation the runtime-events layer is built with. -/
inductive Events where
  | enabled
  | disabled
  deriving DecidableEq, Repr

def isPrefixDisabled (entryName : String) (disabledPrefixes : List String) : Bool :=
  disabledPrefixes.any fun p => p.toList.isPrefixOf entryName.toList

def eventRingName : String := "ocaml.eventring"

/-- Whether enabling succeeded; `created` is the answer of
`caml_runtime_events_create_cursor`. -/
def enableRuntimeEvents (events : Events) (wasEnabled enable created : Bool) : Bool :=
  match events with
  | .enabled => if !wasEnabled && enable then created else enable
  | .disabled => false

structure EventRingReader where
  enabled : Bool
  hasEmittedConstantMetrics : Bool
  deriving DecidableEq, Repr

namespace EventRingReader

def updateEntryPrefixes (events : Events) (r : EventRingReader) (disabledPrefixes : List String)
    (created : Bool) : EventRingReader :=
  { r with
    enabled := enableRuntimeEvents events r.enabled
      (!isPrefixDisabled eventRingName disabledPrefixes) created }

/-- The constructor. -/
def new (events : Events) (disabledPrefixes : List String) (created : Bool) : EventRingReader :=
  updateEntryPrefixes events ⟨false, false⟩ disabledPrefixes created

/-- What `read` does to the flags. -/
def read (r : EventRingReader) : EventRingReader :=
  { r with hasEmittedConstantMetrics := r.hasEmittedConstantMetrics || r.enabled }

end EventRingReader

/-- `cpudataReader_`, of which only the flag counts, and `eventRingReader_`. -/
structure Readers where
  cpudataHasEmitted : Bool
  eventRing : EventRingReader
  deriving DecidableEq, Repr

/-- The reads of a section: the elimination loop leaves out the CPU reader. -/
def Readers.read (r : Readers) (poll : Bool) : Readers where
  cpudataHasEmitted := r.cpudataHasEmitted || !poll
  eventRing := r.eventRing.read

structure State where
  metrics : Loop.State
  readers : Option Readers
  /-- The completion was pushed since the latest `enable` that found metrics disabled. -/
  completed : Bool
  /-- The section of the latest cycle left no constant to retry and found a free slot. -/
  due : Bool

def init : State := ⟨Loop.init, none, false, false⟩

inductive Label where
  | enable (disabledPrefixes : List String) (created : Bool)
  | disable
  | exit
  /-- Any step of the thread but the end of its reads. -/
  | thread (a : Action)
  /-- The reads of a section are over; whether the main queue has a free slot. -/
  | readersDone (slotFree : Bool)
  deriving DecidableEq, Repr

section Steps

variable (events : Events)

def enable (s : State) (disabledPrefixes : List String) (created : Bool) : State :=
  if s.metrics.enabled then
    { s with
      metrics := Loop.enable s.metrics
      readers := s.readers.map fun r =>
        { r with eventRing := r.eventRing.updateEntryPrefixes events disabledPrefixes created } }
  else
    { metrics := Loop.enable s.metrics
      readers := some ⟨false, .new events disabledPrefixes created⟩
      completed := false
      due := false }

def disable (s : State) : State :=
  { s with
    metrics := Loop.disable s.metrics
    readers := if s.metrics.enabled then none else s.readers }

/-- A step of the thread, with the answer of the completion's push noted down. -/
def noteThread (s : State) (m : Loop.State) : Action → State
  | .pushed ok =>
    if s.metrics.pc = .pushComplete then
      { s with metrics := m, completed := s.completed || ok, due := s.due && ok }
    else { s with metrics := m }
  | _ => { s with metrics := m }

def readersDone (s : State) (r : Readers) (poll slotFree : Bool) : Option State :=
  (threadStep s.metrics s.metrics.pc
      (.readersDone (r.cpudataHasEmitted && r.eventRing.hasEmittedConstantMetrics))).map fun m =>
    { s with
      metrics := m
      readers := some r
      due := if poll then s.due else s.metrics.retryEntries.isEmpty && slotFree }

def step (s : State) : Label → Option State
  | .enable disabledPrefixes created =>
    if s.metrics.pc.locked then none else some (enable events s disabledPrefixes created)
  | .disable => if s.metrics.pc.locked then none else some (disable s)
  | .exit => some { s with metrics := { s.metrics with running := false } }
  | .thread (.readersDone _) => none
  | .thread a => (threadStep s.metrics s.metrics.pc a).map fun m => noteThread s m a
  | .readersDone slotFree =>
    match s.readers, s.metrics.pc with
    | some r, .reading poll => readersDone s (r.read poll) poll slotFree
    | _, _ => none

end Steps

/-- At the end of a section where it is due, the completion has been pushed. -/
def Prompt (s : State) : Prop :=
  s.metrics.pc ≠ .pushComplete → s.due = true → s.completed = true

/-- A cycle that ends with nothing to retry and a free slot, before any completion,
has an event-ring reader that is enabled or has emitted already. -/
def Emits (s : State) : Label → Prop
  | .readersDone slotFree => s.metrics.pc = .reading false → s.metrics.retryEntries = [] →
      slotFree = true → s.completed = false → ∀ r, s.readers = some r →
        r.eventRing.enabled = true ∨ r.eventRing.hasEmittedConstantMetrics = true
  | _ => True

/-- The readers stand for metrics being enabled, and what is owed is what was not pushed. -/
structure Inv (s : State) : Prop where
  readers : s.readers.isSome = s.metrics.enabled
  owes : s.metrics.enabled = true → s.metrics.needsToSendConstantMetrics = !s.completed
  pushing : s.metrics.pc = .pushComplete → s.metrics.enabled = true ∧ s.completed = false

variable {events : Events} {s t : State} {m : Loop.State} {a : Action}

theorem init_inv : Inv init := ⟨rfl, nofun, nofun⟩

theorem not_pushing_of_unlocked (h : ¬ s.metrics.pc.locked = true) :
    s.metrics.pc ≠ .pushComplete := by
  intro hpc
  rw [hpc] at h
  exact h rfl

/-- Metrics were on already, or start with an owed completion. -/
theorem Inv.enable (h : Inv s) (hp : Prompt s) (hlock : ¬ s.metrics.pc.locked = true)
    (disabledPrefixes : List String) (created : Bool) :
    Inv (enable events s disabledPrefixes created) ∧
      Prompt (enable events s disabledPrefixes created) := by
  have hpc := not_pushing_of_unlocked hlock
  unfold Completion.enable Loop.enable
  by_cases hon : s.metrics.enabled = true
  · rw [if_pos hon, if_pos hon]
    exact ⟨⟨by rw [Option.isSome_map]; exact h.readers, h.owes, h.pushing⟩, hp⟩
  · rw [if_neg hon, if_neg hon]
    exact ⟨⟨rfl, fun _ => rfl, fun hpc' => absurd hpc' hpc⟩, nofun⟩

theorem Inv.disable (h : Inv s) (hlock : ¬ s.metrics.pc.locked = true) : Inv (disable s) := by
  refine ⟨?_, nofun, fun hpc => absurd hpc (not_pushing_of_unlocked hlock)⟩
  have hreaders := h.readers
  unfold Completion.disable
  by_cases hon : s.metrics.enabled = true
  · rw [if_pos hon]
    rfl
  · rw [if_neg hon]
    exact hreaders.trans (Bool.eq_false_iff.mpr hon)

theorem noteThread_eq (h : s.metrics.pc ≠ .pushComplete) :
    noteThread s m a = { s with metrics := m } := by
  unfold noteThread
  split
  · rw [if_neg h]
  · rfl

/-- A step of the thread keeps what is owed, and a completion that is due is pushed. -/
theorem Inv.thread (h : Inv s) (hp : Prompt s)
    (hs : threadStep s.metrics s.metrics.pc a = some m) (ha : ∀ emitted, a ≠ .readersDone emitted) :
    Inv (noteThread s m a) ∧ Prompt (noteThread s m a) := by
  have henabled := (threadStep_effect hs).enabled
  by_cases hpc : s.metrics.pc = .pushComplete
  · obtain ⟨hon, hopen⟩ := h.pushing hpc
    rw [hpc] at hs
    cases a with
    | pushed ok =>
      cases hs
      rw [noteThread, if_pos hpc]
      refine ⟨⟨henabled ▸ h.readers, fun _ => by simp [hopen], nofun⟩, fun _ hdue => ?_⟩
      have hok : ok = true := (Bool.and_eq_true_iff.mp hdue).2
      simp [hok]
    | _ => cases hs
  · obtain ⟨hneeds, hnext⟩ := threadStep_owes hs ha hpc
    rw [noteThread_eq hpc]
    refine ⟨⟨henabled ▸ h.readers, fun hon => ?_, fun hpc' => absurd hpc' hnext⟩, fun _ => hp hpc⟩
    rw [henabled] at hon
    exact hneeds.trans (h.owes hon)

theorem readersDone_eq {slotFree : Bool} (hs : step events s (.readersDone slotFree) = some t) :
    ∃ r poll, s.readers = some r ∧ s.metrics.pc = .reading poll ∧
      readersDone s (r.read poll) poll slotFree = some t := by
  cases hr : s.readers with
  | none =>
    rw [step, hr] at hs
    cases hs
  | some r =>
    cases hpc : s.metrics.pc with
    | reading poll =>
      rw [step, hr, hpc] at hs
      exact ⟨r, poll, rfl, rfl, hs⟩
    | _ =>
      rw [step, hr, hpc] at hs
      cases hs

theorem endSection_enabled (m : Loop.State) (emitted : Bool) :
    (endSection m emitted).enabled = m.enabled := by
  unfold endSection
  split <;> rfl

theorem endSection_needs (m : Loop.State) (emitted : Bool) :
    (endSection m emitted).needsToSendConstantMetrics = m.needsToSendConstantMetrics := by
  unfold endSection
  split <;> rfl

theorem needs_of_endSection {emitted : Bool} (h : (endSection m emitted).pc = .pushComplete) :
    m.needsToSendConstantMetrics = true := by
  unfold endSection at h
  split at h
  · rename_i hc
    simp only [Bool.and_eq_true] at hc
    exact hc.1.1
  · cases h

/-- The first section of a cycle ends. -/
theorem endSection_prompt {r : Readers} (hneeds : m.needsToSendConstantMetrics = !s.completed)
    {slotFree : Bool} : Prompt { s with
        metrics := endSection m ((r.read false).cpudataHasEmitted &&
          (r.read false).eventRing.hasEmittedConstantMetrics)
        readers := some (r.read false)
        due := m.retryEntries.isEmpty && slotFree } ↔
      (m.retryEntries = [] → slotFree = true → s.completed = false →
        r.eventRing.enabled = true ∨ r.eventRing.hasEmittedConstantMetrics = true) := by
  have hemitted : ((r.read false).cpudataHasEmitted &&
      (r.read false).eventRing.hasEmittedConstantMetrics) = true ↔
      r.eventRing.enabled = true ∨ r.eventRing.hasEmittedConstantMetrics = true := by
    simp [Readers.read, EventRingReader.read, or_comm]
  unfold Prompt endSection
  split
  · rename_i hc
    simp only [Bool.and_eq_true] at hc hemitted
    exact iff_of_true (fun hpc => absurd rfl hpc) fun _ _ _ => hemitted.mp hc.1.2
  · rename_i hc
    have hwindow : Pc.window ≠ .pushComplete := by
      intro h
      cases h
    simp only [Bool.and_eq_true, List.isEmpty_iff, hneeds, not_and] at hc hemitted
    simp only [State.goto, ne_eq, hwindow, not_false_eq_true, true_implies, Bool.and_eq_true,
      List.isEmpty_iff, and_imp]
    cases hcompleted : s.completed with
    | true => simp
    | false =>
      rw [hcompleted] at hc
      refine forall_congr' fun hretry => forall_congr' fun _ => ?_
      rw [← hemitted]
      exact iff_of_false Bool.false_ne_true fun hall => hc ⟨rfl, hall rfl⟩ hretry

/-- The end of a section: the completion is due if and only if a reader that can
emit makes it so. -/
theorem Inv.readersDone (h : Inv s) (hp : Prompt s) {slotFree : Bool}
    (hs : step events s (.readersDone slotFree) = some t) :
    Inv t ∧ (Prompt t ↔ Emits s (.readersDone slotFree)) := by
  obtain ⟨r, poll, hr, hpc, ht⟩ := readersDone_eq hs
  have hon : s.metrics.enabled = true := by rw [← h.readers, hr]; rfl
  have hneeds := h.owes hon
  rw [Completion.readersDone, hpc] at ht
  cases poll with
  | true =>
    cases ht
    refine ⟨⟨?_, h.owes, nofun⟩, ?_⟩
    · exact hon.symm
    · refine iff_of_true (fun _ => hp (by rw [hpc]; exact nofun)) fun hpc' => ?_
      rw [hpc] at hpc'
      cases hpc'
  | false =>
    cases ht
    refine ⟨⟨?_, fun _ => ?_, fun hpc' => ?_⟩, ?_⟩
    · exact hon.symm.trans (endSection_enabled s.metrics _).symm
    · exact (endSection_needs s.metrics _).trans hneeds
    · refine ⟨(endSection_enabled s.metrics _).trans hon, ?_⟩
      have howed := needs_of_endSection hpc'
      simpa [hneeds] using howed
    · unfold Emits
      simp only [hpc, hr, true_implies, Option.some.injEq, forall_eq']
      exact endSection_prompt hneeds

theorem Inv.next {a : Label} (h : Inv s) (hp : Prompt s) (hs : step events s a = some t) :
    Inv t ∧ (Prompt t ↔ Emits s a) := by
  cases a with
  | enable disabledPrefixes created =>
    obtain ⟨hlock, ht⟩ := Option.ite_none_left_eq_some.mp hs
    cases ht
    obtain ⟨hinv, hprompt⟩ := h.enable hp hlock disabledPrefixes created
    exact ⟨hinv, iff_of_true hprompt trivial⟩
  | disable =>
    obtain ⟨hlock, ht⟩ := Option.ite_none_left_eq_some.mp hs
    cases ht
    exact ⟨h.disable hlock, iff_of_true (fun hpc => hp hpc) trivial⟩
  | exit =>
    cases hs
    exact ⟨⟨h.readers, h.owes, h.pushing⟩, iff_of_true hp trivial⟩
  | thread a =>
    cases a with
    | readersDone emitted => cases hs
    | _ =>
      obtain ⟨m, hm, rfl⟩ := Option.map_eq_some_iff.mp hs
      obtain ⟨hinv, hprompt⟩ := h.thread hp hm nofun
      exact ⟨hinv, iff_of_true hprompt trivial⟩
  | readersDone slotFree => exact h.readersDone hp hs

/-- **The completion is not withheld** if and only if every cycle that could push it
has an event-ring reader that emits. -/
theorem prompt_iff_emits (events : Events) (labels : List Label) :
    Along (step events) Prompt init labels ↔ Steps (step events) Emits init labels :=
  along_iff_steps (I := fun s => Inv s ∧ Prompt s)
    (fun _ _ _ h hok hs => ⟨(h.1.next h.2 hs).1, (h.1.next h.2 hs).2.mpr hok⟩) (fun _ h => h.2)
    (fun _ _ _ h _ hs ht => (h.1.next h.2 hs).2.mp ht) ⟨init_inv, nofun⟩

/-- The prefix of the event ring is disabled: the first cycle has nothing to retry
and a free slot, and the completion does not come. -/
theorem disabled_prefix_withholds :
    ¬ Along (step .enabled) Prompt init
      [.enable ["ocaml.eventring"] true, .thread .go, .thread .go, .thread .go,
        .thread (.pushed true), .thread .go, .thread .go, .readersDone true] := by
  refine not_along_of_run (List.prefix_refl _) rfl fun h => ?_
  cases h nofun rfl

/-! ## Without runtime events -/

/-- No event-ring reader is ever enabled, so none emits. -/
structure Silent (s : State) : Prop where
  ring : ∀ r, s.readers = some r → r.eventRing = ⟨false, false⟩
  idle : s.metrics.pc ≠ .pushComplete
  completed : s.completed = false

theorem Silent.next {a : Label} (h : Silent s) (hs : step .disabled s a = some t) : Silent t := by
  cases a with
  | enable disabledPrefixes created =>
    obtain ⟨-, ht⟩ := Option.ite_none_left_eq_some.mp hs
    cases ht
    have hidle : (Loop.enable s.metrics).pc ≠ .pushComplete := by
      rw [enable_pc]
      exact h.idle
    unfold enable
    split
    · refine ⟨fun r hr => ?_, hidle, h.completed⟩
      obtain ⟨r', hr', rfl⟩ := Option.map_eq_some_iff.mp hr
      show EventRingReader.updateEntryPrefixes .disabled r'.eventRing _ _ = _
      rw [h.ring r' hr']
      rfl
    · refine ⟨fun r hr => ?_, hidle, rfl⟩
      cases hr
      rfl
  | disable =>
    obtain ⟨-, ht⟩ := Option.ite_none_left_eq_some.mp hs
    cases ht
    refine ⟨fun r hr => ?_, h.idle, h.completed⟩
    unfold disable at hr
    simp only at hr
    split at hr
    · cases hr
    · exact h.ring r hr
  | exit =>
    cases hs
    exact ⟨h.ring, h.idle, h.completed⟩
  | thread a =>
    cases a with
    | readersDone emitted => cases hs
    | _ =>
      obtain ⟨m, hm, rfl⟩ := Option.map_eq_some_iff.mp hs
      rw [noteThread_eq h.idle]
      exact ⟨h.ring, (threadStep_owes hm nofun h.idle).2, h.completed⟩
  | readersDone slotFree =>
    obtain ⟨r, poll, hr, hpc, ht⟩ := readersDone_eq hs
    have hring := h.ring r hr
    have hsilent : ∀ r', some (r.read poll) = some r' → r'.eventRing = ⟨false, false⟩ := by
      intro r' hr'
      cases hr'
      rw [Readers.read, hring]
      rfl
    rw [Completion.readersDone, hpc] at ht
    cases poll with
    | true =>
      cases ht
      exact ⟨hsilent, nofun, h.completed⟩
    | false =>
      cases ht
      refine ⟨hsilent, ?_, h.completed⟩
      show (endSection s.metrics _).pc ≠ .pushComplete
      rw [hsilent _ rfl]
      unfold endSection
      rw [if_neg (by simp)]
      exact nofun

theorem init_silent : Silent init := ⟨fun _ hr => (by cases hr), fun hpc => (by cases hpc), rfl⟩

/-- With `events.disabled` the completion never comes. -/
theorem never_completed (labels : List Label) :
    Along (step .disabled) (fun s => s.completed = false) init labels :=
  (along_of_step (I := Silent) (fun _ _ _ h hs => h.next hs) init_silent labels).mono
    fun _ h => h.completed

end Opsian.Metrics.Completion
