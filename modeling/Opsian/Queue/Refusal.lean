import Opsian.Lib.History
import Opsian.Queue.Owners

/-! # When a push is refused

`acquireWrite` loads `input` first and `output` later. A record that is pushed and
read between the two loads leaves `output` where it stands for a full queue, as seen
from the `input` of before. -/
namespace Opsian.Queue.Refusal
open Opsian.Lib Opsian.Lib.Runs Opsian.Lib.History Opsian.Queue.InternalQueue

variable {P : Type} {size : Nat}

/-- The queue holds `Size` records. -/
def Full (size : Nat) (s : State P) : Prop := Ring.advance (capacity size) s.input = s.output

instance (s : State P) : Decidable (Full size s) := inferInstanceAs (Decidable (_ = _))

/-- For a producer in a call of `acquireWrite`, whether the queue was full at some
moment since the call. -/
abbrev Calls (P : Type) := P → Option Bool

section Note
variable [DecidableEq P]

/-- A call begins where `input` is loaded and goes on around the loop; it returns
where the queue is taken for full and where the compare-exchange succeeds. -/
def track (calls : Calls P) (s : State P) (p : P) (t : State P) : Calls P :=
  match s.writers p, t.writers p with
  | .start, _ => Function.update calls p (some ((calls p).getD false))
  | .loadedInput _, .start | .notFull _, .acquired .. => Function.update calls p none
  | _, _ => calls

def note (size : Nat) (calls : Calls P) (s : State P) (a : Label P) (t : State P) : Calls P :=
  let calls := match a with
    | .producer p => track calls s p t
    | .consumer => calls
  fun q => (calls q).map (· || decide (Full size t))

end Note

/-- The producer's next step returns false. -/
def Refused (size : Nat) (s : State P) (p : P) (currentInput : Nat) : Prop :=
  s.writers p = .loadedInput currentInput ∧
    s.output = Ring.advance (capacity size) currentInput

/-- A push that is refused has met a full queue in its call. -/
def Justified (size : Nat) (x : State P × Calls P) : Label P → Prop
  | .producer p => ∀ i, Refused size x.1 p i → x.2 p = some true
  | .consumer => True

/-- Where a push is refused, `input` is still what the producer has loaded. -/
def Unmoved (size : Nat) (s : State P) : Label P → Prop
  | .producer p => ∀ i, Refused size s p i → s.input = i
  | .consumer => True

/-- The calls in progress know of a full queue. Where there is one record only, `input`
does not move without one. -/
structure Inv (size : Nat) (x : State P × Calls P) : Prop where
  owners : Owners.Inv size x.1
  full : ∀ p b, x.2 p = some b → Full size x.1 → b = true
  calling : ∀ p i, x.1.writers p = .loadedInput i ∨ x.1.writers p = .notFull i →
    ∃ b, x.2 p = some b
  single : size = 1 → ∀ p i, x.1.writers p = .loadedInput i → x.1.input = i ∨ x.2 p = some true

variable {s t : State P} {calls : Calls P}

theorem init_inv : Inv size (init P, fun _ => none) where
  owners := Owners.init_inv
  full := by intro p b h; cases h
  calling := by intro p i h; rcases h with h | h <;> cases h
  single := by intro _ p i h; cases h

/-- A call that is in progress hears of a full queue in time. -/
theorem Inv.justified (h : Inv size (s, calls)) {p : P} {i : Nat} (hr : Refused size s p i)
    (hin : s.input = i) : calls p = some true := by
  obtain ⟨hw, hout⟩ := hr
  obtain ⟨b, hb⟩ := h.calling p i (.inl hw)
  have hfull : Full size s := by
    unfold Full
    rw [hin, hout]
  have htrue : b = true := h.full p b hb hfull
  rw [← htrue]
  exact hb

/-! ## One step -/

theorem full_of_map {c : Option Bool} {b : Bool}
    (h : c.map (· || decide (Full size t)) = some b) (hf : Full size t) : b = true := by
  obtain ⟨b', -, rfl⟩ := Option.map_eq_some_iff.mp h
  simp [hf]

theorem map_true {c : Option Bool} (h : c = some true) :
    c.map (· || decide (Full size t)) = some true := by
  simp [h]

theorem map_isSome {c : Option Bool} (h : ∃ b, c = some b) :
    ∃ b, c.map (· || decide (Full size t)) = some b := by
  obtain ⟨b, rfl⟩ := h
  exact ⟨_, rfl⟩

/-- A step that leaves `input` alone and begins no call. -/
theorem Inv.of_calls {calls' : Calls P} (h : Inv size (s, calls)) (ho : Owners.Inv size t)
    (hin : t.input = s.input)
    (hw : ∀ q i, t.writers q = .loadedInput i ∨ t.writers q = .notFull i →
      calls' q = calls q ∧ (s.writers q = .loadedInput i ∨ s.writers q = .notFull i) ∧
        (t.writers q = .loadedInput i → s.writers q = .loadedInput i)) :
    Inv size (t, fun q => (calls' q).map (· || decide (Full size t))) where
  owners := ho
  full _ _ hb hf := full_of_map hb hf
  calling q i hq := by
    obtain ⟨hc, hs, -⟩ := hw q i hq
    exact map_isSome (hc ▸ h.calling q i hs)
  single hone q i hq := by
    obtain ⟨hc, -, hs⟩ := hw q i (.inl hq)
    rw [hin]
    exact (h.single hone q i (hs hq)).imp_right fun htrue => map_true (hc.trans htrue)

theorem consume_writers (s : State P) (c : Reader) : (consume size s c).writers = s.writers := by
  cases c with
  | waiting o =>
    simp only [consume]
    split <;> rfl
  | _ => rfl

theorem consume_input (s : State P) (c : Reader) : (consume size s c).input = s.input := by
  cases c with
  | waiting o =>
    simp only [consume]
    split <;> rfl
  | _ => rfl

section Producer
variable [DecidableEq P] {p : P}

/-- The load of `input`. -/
theorem Inv.load (h : Inv size (s, calls)) (b : Bool)
    (ho : Owners.Inv size (s.goto p (.loadedInput s.input))) :
    Inv size (s.goto p (.loadedInput s.input), fun q =>
      (Function.update calls p (some b) q).map
        (· || decide (Full size (s.goto p (.loadedInput s.input))))) where
  owners := ho
  full _ _ hb hf := full_of_map hb hf
  calling q i hq := by
    refine map_isSome ?_
    by_cases hqp : q = p
    · exact ⟨b, by rw [hqp, Function.update_self]⟩
    · have hs : (s.goto p (.loadedInput s.input)).writers q = s.writers q :=
        Function.update_of_ne hqp _ _
      rw [hs] at hq
      rw [Function.update_of_ne hqp]
      exact h.calling q i hq
  single hone q i hq := by
    rcases of_update_eq hq with ⟨-, hload⟩ | ⟨hqp, hs⟩
    · exact .inl (Writer.loadedInput.inj hload)
    · refine (h.single hone q i hs).imp_right fun htrue => map_true ?_
      rw [Function.update_of_ne hqp]
      exact htrue

/-- A queue of one record is full before the compare-exchange or behind it. -/
theorem full_of_claim (h : Owners.Inv 1 s) :
    Full 1 s ∨ Full 1 (s.claim 1 p s.input) := by
  have hin := h.input
  have hout := h.output
  show Ring.advance 2 s.input = s.output ∨ Ring.advance 2 (Ring.advance 2 s.input) = s.output
  simp only [capacity] at hin hout
  simp only [Ring.advance]
  omega

/-- The compare-exchange, behind which the call returns. -/
theorem Inv.claim (h : Inv size (s, calls)) (ho : Owners.Inv size (s.claim size p s.input)) :
    Inv size (s.claim size p s.input, fun q =>
      (Function.update calls p none q).map
        (· || decide (Full size (s.claim size p s.input)))) where
  owners := ho
  full _ _ hb hf := full_of_map hb hf
  calling q i hq := by
    have hqp : q ≠ p := by
      intro he
      subst he
      rcases hq with hq | hq <;>
        · rw [show (s.claim size q s.input).writers q = _ from Function.update_self ..] at hq
          cases hq
    have hs : (s.claim size p s.input).writers q = s.writers q := Function.update_of_ne hqp _ _
    rw [hs] at hq
    refine map_isSome ?_
    rw [Function.update_of_ne hqp]
    exact h.calling q i hq
  single hone q i hq := by
    subst hone
    rcases of_update_eq hq with ⟨-, hload⟩ | ⟨hqp, hs⟩
    · cases hload
    right
    show (Function.update calls p none q).map _ = some true
    rw [Function.update_of_ne hqp]
    obtain ⟨b, hb⟩ := h.calling q i (.inl hs)
    rcases full_of_claim h.owners with hfull | hfull
    · have htrue : b = true := h.full q b hb hfull
      exact map_true (htrue ▸ hb)
    · have hcalling : ∃ b', (calls q).map (· || decide (Full 1 (s.claim 1 p s.input))) = some b' :=
        map_isSome ⟨b, hb⟩
      obtain ⟨b', hb'⟩ := hcalling
      rw [full_of_map hb' hfull] at hb'
      exact hb'

/-- Where the producer is behind a step of its call that neither begins it nor claims. -/
theorem Inv.goto {calls' : Calls P} (h : Inv size (s, calls)) {w : Writer}
    (ho : Owners.Inv size (s.goto p w)) (hcalls : ∀ q, q ≠ p → calls' q = calls q)
    (hw : w = .start ∨ calls' p = calls p ∧ ∃ i, w = .notFull i ∧ s.writers p = .loadedInput i) :
    Inv size (s.goto p w, fun q => (calls' q).map (· || decide (Full size (s.goto p w)))) := by
  refine h.of_calls ho rfl fun q i hq => ?_
  by_cases hqp : q = p
  · subst hqp
    rw [show (s.goto q w).writers q = w from Function.update_self ..] at hq ⊢
    rcases hw with rfl | ⟨hc, j, rfl, hs⟩
    · rcases hq with hq | hq <;> cases hq
    · rcases hq with hq | hq
      · cases hq
      · cases hq
        exact ⟨hc, .inl hs, fun he => by cases he⟩
  · have hs : (s.goto p w).writers q = s.writers q := Function.update_of_ne hqp _ _
    rw [hs] at hq ⊢
    exact ⟨hcalls q hqp, hq, id⟩

/-- The record is filled or committed. -/
theorem Inv.work (h : Inv size (s, calls)) {w : Writer} (ho : Owners.Inv size t)
    (hin : t.input = s.input) (ht : t.writers = Function.update s.writers p w)
    (hw : w = .start ∨ ∃ i r, w = .filled i r) :
    Inv size (t, fun q => (calls q).map (· || decide (Full size t))) := by
  refine h.of_calls ho hin fun q i hq => ?_
  have hqp : q ≠ p := by
    intro he
    subst he
    rw [ht, Function.update_self] at hq
    rcases hw with rfl | ⟨j, r, rfl⟩ <;> rcases hq with hq | hq <;> cases hq
  rw [ht, Function.update_of_ne hqp] at hq ⊢
  exact ⟨rfl, hq, id⟩

end Producer

/-! ## Runs -/

/-- A refusal without a full queue takes a queue of two records or more and a claim
between the two loads. -/
def Settled (size : Nat) (s : State P) (a : Label P) : Prop := size = 1 ∨ Unmoved size s a

theorem Inv.settle {x : State P × Calls P} {a : Label P} (h : Inv size x)
    (hok : Settled size x.1 a) : Justified size x a := by
  cases a with
  | consumer => trivial
  | producer p =>
    intro i hr
    rcases hok with hone | hunmoved
    · rcases h.single hone p i hr.1 with hin | htrue
      · exact h.justified hr hin
      · exact htrue
    · exact h.justified hr (hunmoved i hr)

variable [DecidableEq P]

theorem Inv.next {a : Label P} (h : Inv size (s, calls)) (hs : step size s a = some t) :
    Inv size (t, note size calls s a t) := by
  have ho : Owners.Inv size t := h.owners.next hs
  cases a with
  | consumer =>
    obtain rfl := Option.some.inj hs
    refine h.of_calls ho (consume_input s _) fun q i hq => ?_
    rw [consume_writers] at hq ⊢
    exact ⟨rfl, hq, id⟩
  | producer p =>
    obtain rfl := Option.some.inj hs
    cases hw : s.writers p with
    | start =>
      rw [hw] at ho
      simp only [note, track, hw]
      exact h.load _ ho
    | loadedInput i =>
      rw [hw] at ho
      simp only [produce] at ho ⊢
      split
      · rename_i hout
        rw [if_pos hout] at ho
        have hself : (s.goto p .start).writers p = .start := Function.update_self ..
        simp only [note, track, hw, hself]
        exact h.goto ho (fun q hq => Function.update_of_ne hq _ _) (.inl rfl)
      · rename_i hout
        rw [if_neg hout] at ho
        have hself : (s.goto p (.notFull i)).writers p = .notFull i := Function.update_self ..
        simp only [note, track, hw, hself]
        exact h.goto ho (fun q _ => rfl) (.inr ⟨rfl, i, rfl, hw⟩)
    | notFull i =>
      rw [hw] at ho
      simp only [produce] at ho ⊢
      split
      · rename_i hin
        subst hin
        rw [if_pos rfl] at ho
        have hself : (s.claim size p s.input).writers p = .acquired s.input s.claims.length :=
          Function.update_self ..
        simp only [note, track, hw, hself]
        exact h.claim ho
      · rename_i hin
        rw [if_neg hin] at ho
        have hself : (s.goto p .start).writers p = .start := Function.update_self ..
        simp only [note, track, hw, hself]
        exact h.goto ho (fun q _ => rfl) (.inl rfl)
    | acquired i r =>
      rw [hw] at ho
      simp only [note, track, hw]
      exact h.work ho rfl rfl (.inr ⟨i, r, rfl⟩)
    | filled i r =>
      rw [hw] at ho
      simp only [note, track, hw]
      exact h.work ho rfl rfl (.inl rfl)

/-- **A push is refused by a full queue**, in a run where no refused push has seen
`input` move between its two loads, and in every run of a queue of one record. -/
theorem justified_of_settled (size : Nat) (labels : List (Label P))
    (h : Steps (step size) (Settled size) (init P) labels) :
    Steps (recording (step size) (note size)) (Justified size) (init P, fun _ => none) labels :=
  Steps.transfer (fun _ _ _ hi _ => next_of_step fun _ => Inv.next hi)
    (fun _ _ hi hok => hi.settle hok) init_inv (steps_fst.mpr h)

/-- One producer fills a queue of two and is refused at its third push. -/
def fillUp : List (Label Unit) := List.replicate 12 (.producer ())

theorem fillUp_justified :
    (∃ t, run (step 2) (init Unit) (fillUp.take 11) = some t ∧ Refused 2 t () 2) ∧
      Steps (recording (step 2) (note 2)) (Justified 2) (init Unit, fun _ => none) fillUp := by
  refine ⟨⟨_, rfl, rfl, rfl⟩, justified_of_settled 2 fillUp ?_⟩
  iterate 12
    refine Steps.cons rfl (.inr fun i hr => ?_) ?_
    · obtain ⟨hw, -⟩ := hr
      cases hw <;> rfl
  trivial

/-- Two producers on a queue of two: between the loads of the first, the second pushes
one record, which is read. -/
def overtaken : List (Label Bool) :=
  .producer false :: List.replicate 5 (.producer true) ++ List.replicate 5 .consumer

/-- The first is refused by a queue that has never held more than one. -/
theorem overtaken_unjustified :
    ¬ Steps (recording (step 2) (note 2)) (Justified 2) (init Bool, fun _ => none)
      (overtaken ++ [.producer false]) :=
  not_steps_of_run rfl rfl fun h => absurd (h 0 ⟨rfl, rfl⟩) (by decide)

end Opsian.Queue.Refusal
