import Mathlib.Algebra.Ring.Nat
import Mathlib.Data.List.Induction
import Opsian.Metrics.RuntimeEvents

/-! # The pauses of the domains

The open phases are kept by phase only, for all domains together: a begin in one domain
takes the place of another domain's, and the end of one takes it away. A pause is
measured where nothing came in between. -/
namespace Opsian.Metrics.Pauses
open Opsian.Metrics.Listener Opsian.Metrics.RuntimeEvents

/-- The domain of an event with a timestamp. -/
def stamp : Callback → Option (Nat × UInt64)
  | .eventRingBegin domainId timestamp _ | .eventRingEnd domainId timestamp _
  | .eventRingCounter domainId timestamp _ _ => some (domainId, timestamp)
  | .eventRingLostEvents .. => none

def openStep (domainId : Nat) (phase : RuntimePhase) (open' : List UInt64) :
    Callback → List UInt64
  | .eventRingBegin d timestamp p =>
    if d = domainId ∧ p = phase then timestamp :: open' else open'
  | .eventRingEnd d _ p => if d = domainId ∧ p = phase then open'.tail else open'
  | _ => open'

/-- The begins of the phase in the domain that have no end yet, the latest first. -/
def openBegins (domainId : Nat) (phase : RuntimePhase) (past : List Callback) : List UInt64 :=
  past.foldl (openStep domainId phase) []

/-- Each domain's events come in the order of their timestamps, its begins and ends in
pairs. -/
structure WellFormed (cs : List Callback) : Prop where
  ordered : cs.Pairwise fun c c' => ∀ s ∈ stamp c, ∀ s' ∈ stamp c', s.1 = s'.1 → s.2 ≤ s'.2
  paired : ∀ past d t p rest, cs = past ++ .eventRingEnd d t p :: rest → openBegins d p past ≠ []

/-- The phases that are open behind the events, for the code. -/
def phasesAfter (past : List Callback) : PhaseStates := (callbacks (fun _ => none) past).1

/-- The end adds one entry, of the time since the begin. -/
def Measures (past : List Callback) (timestamp : UInt64) (phase : RuntimePhase) (name : String)
    (begin' : UInt64) : Prop :=
  ∃ e, (eventRingEnd (phasesAfter past) timestamp phase).2 = [.addEntry e timestamp] ∧
    e.name = name ∧ e.data.valueLong.toInt = timestamp.toNat - begin'.toNat

/-- Every end of a required phase measures its own domain's pause. -/
def Measured (cs : List Callback) : Prop :=
  ∀ past d t p rest, cs = past ++ .eventRingEnd d t p :: rest → ∀ name,
    requiredPhases p = some name → ∀ begin' ∈ (openBegins d p past).head?,
      Measures past t p name begin'

def touches (phase : RuntimePhase) : Callback → Bool
  | .eventRingBegin _ _ p | .eventRingEnd _ _ p => p = phase
  | _ => false

/-- The latest begin or end of the phase, in any domain. -/
def latest (phase : RuntimePhase) (past : List Callback) : Option Callback :=
  past.reverse.find? (touches phase)

/-- The latest event of the phase is a begin at the time of the domain's own, and the
pause fits into an `int64_t`. -/
def Own (past : List Callback) (timestamp : UInt64) (phase : RuntimePhase) (begin' : UInt64) :
    Prop :=
  (∃ d, latest phase past = some (.eventRingBegin d begin' phase)) ∧
    timestamp.toNat - begin'.toNat < 2 ^ 63

def Undisturbed (cs : List Callback) : Prop :=
  ∀ past d t p rest, cs = past ++ .eventRingEnd d t p :: rest → ∀ name,
    requiredPhases p = some name → ∀ begin' ∈ (openBegins d p past).head?, Own past t p begin'

variable {past cs : List Callback} {c : Callback} {phase : RuntimePhase} {name : String}

/-! ## What the code keeps -/

theorem latest_concat (past : List Callback) (c : Callback) (phase : RuntimePhase) :
    latest phase (past ++ [c]) = if touches phase c then some c else latest phase past := by
  rw [latest, List.reverse_append]
  simp only [List.reverse_singleton, List.singleton_append, List.find?_cons]
  split <;> simp_all [latest]

/-- The state that the latest event leaves. -/
def stateOf (name : String) : Option Callback → Option EventState
  | some (.eventRingBegin _ timestamp _) => some ⟨timestamp, name⟩
  | _ => none

theorem named_phasesAfter (past : List Callback) : Named (phasesAfter past) := by
  induction past using List.reverseRecOn with
  | nil => exact named_none
  | append_singleton past c ih =>
    rw [phasesAfter, callbacks_concat]
    exact (callback_named ih c).1

theorem eventRingBegin_self {m : PhaseStates} (h : Named m)
    (hname : requiredPhases phase = some name) (timestamp : UInt64) :
    eventRingBegin m timestamp phase phase = some ⟨timestamp, name⟩ := by
  unfold eventRingBegin
  rw [hname]
  cases hstate : m phase with
  | none => exact Function.update_self ..
  | some state =>
    have heq : name = state.eventName := Option.some.inj (hname.symm.trans (h phase state hstate))
    rw [heq]
    exact Function.update_self ..

theorem eventRingBegin_of_ne {m : PhaseStates} {p : RuntimePhase} (hne : phase ≠ p)
    (timestamp : UInt64) : eventRingBegin m timestamp p phase = m phase := by
  unfold eventRingBegin
  cases requiredPhases p with
  | none => rfl
  | some name => cases m p <;> exact Function.update_of_ne hne _ _

theorem eventRingEnd_self {m : PhaseStates} (hname : requiredPhases phase = some name)
    (timestamp : UInt64) : (eventRingEnd m timestamp phase).1 phase = none := by
  unfold eventRingEnd
  rw [hname]
  cases hstate : m phase with
  | none => exact hstate
  | some state => exact Function.update_self ..

theorem eventRingEnd_of_ne {m : PhaseStates} {p : RuntimePhase} (hne : phase ≠ p)
    (timestamp : UInt64) : (eventRingEnd m timestamp p).1 phase = m phase := by
  unfold eventRingEnd
  split
  · rfl
  · split
    · rfl
    · exact Function.update_of_ne hne _ _

/-- What is kept for a phase depends on the latest of its events only. -/
theorem phasesAfter_eq (hname : requiredPhases phase = some name) (past : List Callback) :
    phasesAfter past phase = stateOf name (latest phase past) := by
  induction past using List.reverseRecOn with
  | nil => rfl
  | append_singleton past c ih =>
    rw [phasesAfter, callbacks_concat, latest_concat]
    cases c with
    | eventRingBegin d t p =>
      by_cases hp : p = phase
      · subst hp
        rw [touches, if_pos (decide_eq_true rfl)]
        exact eventRingBegin_self (named_phasesAfter past) hname t
      · rw [touches, decide_eq_false hp, if_neg Bool.false_ne_true]
        exact (eventRingBegin_of_ne (Ne.symm hp) t).trans ih
    | eventRingEnd d t p =>
      by_cases hp : p = phase
      · subst hp
        rw [touches, if_pos (decide_eq_true rfl)]
        exact eventRingEnd_self hname t
      · rw [touches, decide_eq_false hp, if_neg Bool.false_ne_true]
        exact (eventRingEnd_of_ne (Ne.symm hp) t).trans ih
    | eventRingCounter d t counter value => exact ih
    | eventRingLostEvents d n => exact ih

/-! ## One end -/

theorem mem_of_mem_openBegins {d : Nat} {begin' : UInt64}
    (h : begin' ∈ openBegins d phase past) : .eventRingBegin d begin' phase ∈ past := by
  induction past using List.reverseRecOn with
  | nil => cases h
  | append_singleton past c ih =>
    rw [openBegins, List.foldl_concat] at h
    refine List.mem_append.mpr ?_
    cases c with
    | eventRingBegin d' t p =>
      rw [openStep] at h
      split at h
      · rename_i heq
        obtain ⟨rfl, rfl⟩ := heq
        rcases List.mem_cons.mp h with rfl | h
        · exact .inr (List.mem_singleton_self _)
        · exact .inl (ih h)
      · exact .inl (ih h)
    | eventRingEnd d' t p =>
      rw [openStep] at h
      split at h
      · exact .inl (ih (List.mem_of_mem_tail h))
      · exact .inl (ih h)
    | eventRingCounter d' t counter value => exact .inl (ih h)
    | eventRingLostEvents d' n => exact .inl (ih h)

/-- A pause as a signed number is right if and only if it is counted from the right
begin and fits. -/
theorem duration_eq_iff {timestamp begin' kept : UInt64} (hle : begin' ≤ timestamp) :
    (timestamp - kept).toInt64.toInt = timestamp.toNat - begin'.toNat ↔
      kept = begin' ∧ timestamp.toNat - begin'.toNat < 2 ^ 63 := by
  have hle' : begin'.toNat ≤ timestamp.toNat := UInt64.le_iff_toNat_le.mp hle
  have hdiff : (timestamp - begin').toNat = timestamp.toNat - begin'.toNat :=
    UInt64.toNat_sub_of_le _ _ hle
  have hsigned (x : UInt64) :
      x.toInt64.toInt = if 2 * x.toNat < 2 ^ 64 then (x.toNat : Int) else x.toNat - 2 ^ 64 :=
    BitVec.toInt_eq_toNat_cond x.toBitVec
  rw [hsigned]
  constructor
  · intro h
    have hkept := (timestamp - kept).toNat_lt
    have heq : (timestamp - kept).toNat = (timestamp - begin').toNat := by split at h <;> omega
    refine ⟨(UInt64.sub_right_inj timestamp).mp (UInt64.toNat_inj.mp heq), ?_⟩
    split at h <;> omega
  · rintro ⟨rfl, hfits⟩
    rw [if_pos (by omega)]
    omega

theorem latest_touches (h : latest phase past = some c) : touches phase c = true :=
  List.find?_some h

theorem measures_iff (hname : requiredPhases phase = some name) {timestamp begin' : UInt64}
    (hle : begin' ≤ timestamp) :
    Measures past timestamp phase name begin' ↔ Own past timestamp phase begin' := by
  have hkept := phasesAfter_eq hname past
  unfold Measures Own eventRingEnd
  rw [hname]
  cases hlatest : latest phase past with
  | none =>
    rw [hlatest] at hkept
    rw [hkept]
    simp [stateOf]
  | some c =>
    rw [hlatest] at hkept
    have htouches := latest_touches hlatest
    rw [hkept]
    cases c with
    | eventRingBegin d t p =>
      cases of_decide_eq_true htouches
      simp only [stateOf, List.cons.injEq, Call.addEntry.injEq, and_true, exists_eq_left',
        durationEntry, true_and, Option.some.injEq, Callback.eventRingBegin.injEq]
      exact duration_eq_iff hle
    | eventRingEnd d t p => simp [stateOf]
    | eventRingCounter d t counter value => cases htouches
    | eventRingLostEvents d n => cases htouches

/-! ## All of them -/

theorem WellFormed.begin_le (h : WellFormed cs) {d : Nat} {t begin' : UInt64} {rest : List Callback}
    (hcs : cs = past ++ .eventRingEnd d t phase :: rest)
    (hbegin : begin' ∈ (openBegins d phase past).head?) : begin' ≤ t := by
  have hmem := mem_of_mem_openBegins (List.mem_of_mem_head? hbegin)
  have hordered := h.ordered
  rw [hcs, List.pairwise_append] at hordered
  exact hordered.2.2 _ hmem _ List.mem_cons_self (d, begin') rfl (d, t) rfl rfl

/-- **The pauses belong to their domains** if and only if no event of another comes
between a begin and its end. -/
theorem measured_iff_undisturbed (cs : List Callback) (h : WellFormed cs) :
    Measured cs ↔ Undisturbed cs := by
  unfold Measured Undisturbed
  refine forall_congr' fun past => forall_congr' fun d => forall_congr' fun t =>
    forall_congr' fun p => forall_congr' fun rest => forall_congr' fun hcs =>
    forall_congr' fun name => forall_congr' fun hname => forall_congr' fun begin' =>
    forall_congr' fun hbegin => ?_
  exact measures_iff hname (h.begin_le hcs hbegin)

/-- It is enough to look at the ends by their places. -/
theorem ends_of_take {P : List Callback → Nat → UInt64 → RuntimePhase → Prop}
    (h : ∀ i < cs.length, ∀ d t p, cs[i]? = some (.eventRingEnd d t p) → P (cs.take i) d t p) :
    ∀ past d t p rest, cs = past ++ .eventRingEnd d t p :: rest → P past d t p := by
  rintro past d t p rest rfl
  have hend := h past.length (by simp) d t p (by simp)
  rwa [List.take_left' rfl] at hend

/-- A minor and a major collection of one domain, one in the other, and then another domain's
minor collection of the same time. -/
def apart : List Callback :=
  [.eventRingBegin 0 10 .major, .eventRingBegin 0 20 .minor, .eventRingEnd 0 30 .minor,
    .eventRingEnd 0 50 .major, .eventRingBegin 1 15 .minor, .eventRingEnd 1 25 .minor]

theorem apart_wellFormed : WellFormed apart where
  ordered := by decide
  paired := by
    refine ends_of_take fun i hi d t p h => ?_
    match i, h with
    | 2, rfl | 3, rfl | 5, rfl => exact nofun

theorem apart_measured : Measured apart := by
  refine (measured_iff_undisturbed apart apart_wellFormed).mpr ?_
  refine ends_of_take fun i hi d t p h name hname begin' hbegin => ?_
  match i, h, hbegin with
  | 2, rfl, rfl => exact ⟨⟨0, rfl⟩, by decide⟩
  | 3, rfl, rfl => exact ⟨⟨0, rfl⟩, by decide⟩
  | 5, rfl, rfl => exact ⟨⟨1, rfl⟩, by decide⟩

/-- Two domains collect at the same time: the first one's pause is counted from the
other's begin, and the other's is lost. -/
def together : List Callback :=
  [.eventRingBegin 0 1 .minor, .eventRingBegin 1 5 .minor, .eventRingEnd 0 8 .minor,
    .eventRingEnd 1 9 .minor]

theorem together_wellFormed : WellFormed together where
  ordered := by decide
  paired := by
    refine ends_of_take fun i hi d t p h => ?_
    match i, h with
    | 2, rfl | 3, rfl => exact nofun

theorem together_mixed : WellFormed together ∧ ¬ Measured together := by
  refine ⟨together_wellFormed, fun h => ?_⟩
  obtain ⟨e, hcalls, -⟩ := h (together.take 3) 1 9 .minor [] rfl _ rfl 5 rfl
  cases hcalls

end Opsian.Metrics.Pauses
