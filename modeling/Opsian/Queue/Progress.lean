import Opsian.Lib.History
import Opsian.Queue.InternalQueue

/-! # What a push may cost a producer

`acquireWrite` has no lock to wait for: it goes round its loop again only behind a
compare-exchange that failed, and that one failed because another producer's succeeded. So
the steps of a producer are paid for by pushes, its own or those of the others, whatever the
interleaving and wherever the others and the consumer are held up. -/
namespace Opsian.Queue.Progress
open Opsian.Lib Opsian.Lib.Runs Opsian.Lib.History
open Opsian.Queue.InternalQueue

variable {P : Type}

/-- What one producer and the others have done since the count began: its steps, its records
committed, its attempts that found the queue full, and the compare-exchanges of others. -/
structure Bill where
  steps : Nat
  pushed : Nat
  refused : Nat
  others : Nat
  deriving DecidableEq, Repr

def Bill.empty : Bill := ⟨0, 0, 0, 0⟩

/-- `acquireWrite` returns false in the next step, once or not at all. -/
def refusal (size : Nat) (s : State P) : Writer → Nat
  | .loadedInput i => if s.output = Ring.advance (capacity size) i then 1 else 0
  | _ => 0

def note [DecidableEq P] (size : Nat) (p : P) (b : Bill) (s : State P) (a : Label P)
    (t : State P) : Bill :=
  match a with
  | .consumer => b
  | .producer q =>
    if q = p then
      { b with
        steps := b.steps + 1
        pushed := b.pushed + (t.commits.length - s.commits.length)
        refused := b.refused + refusal size s (s.writers p) }
    else { b with others := b.others + (t.claims.length - s.claims.length) }

/-- The steps of a push that is under way. -/
def progress : Writer → Nat
  | .start => 0
  | .loadedInput _ => 1
  | .notFull _ => 2
  | .acquired _ _ => 3
  | .filled _ _ => 4

/-- The value of `input` that the compare-exchange will expect is no longer there. -/
def Stale (s : State P) : Writer → Prop
  | .loadedInput i => s.input ≠ i
  | .notFull i => s.input ≠ i
  | _ => False

theorem progress_le (w : Writer) : progress w ≤ 4 := by
  cases w <;> simp [progress]

section run
variable {size : Nat} {p q : P} {s t : State P} {b : Bill}

/-- Every compare-exchange that failed, or is going to fail, has one of another producer to
answer for it: three steps for each that has failed. -/
structure Paid (p : P) (s : State P) (b : Bill) (failed : Nat) : Prop where
  steps_eq : b.steps = 5 * b.pushed + 2 * b.refused + 3 * failed + progress (s.writers p)
  failed_le : failed ≤ b.others
  failed_lt : Stale s (s.writers p) → failed < b.others

theorem consume_frame (size : Nat) (s : State P) (c : Reader) :
    (consume size s c).writers = s.writers ∧ (consume size s c).input = s.input := by
  cases c with
  | waiting o =>
    simp only [consume]
    split
    · exact ⟨rfl, rfl⟩
    · exact ⟨rfl, rfl⟩
  | start | loadedOutput | acquired | uncommitted => exact ⟨rfl, rfl⟩

theorem Stale.congr {w : Writer} (h : Stale t w) (hinput : t.input = s.input) : Stale s w := by
  cases w with
  | loadedInput i => exact fun hsame => h (hinput.trans hsame)
  | notFull i => exact fun hsame => h (hinput.trans hsame)
  | start | acquired | filled => exact h.elim

theorem Paid.consumer {failed : Nat} (h : Paid p s b failed) :
    Paid p (consume size s s.reader) b failed := by
  obtain ⟨hwriters, hinput⟩ := consume_frame size s s.reader
  refine ⟨?_, h.failed_le, fun hstale => h.failed_lt ?_⟩
  · rw [hwriters]
    exact h.steps_eq
  · rw [hwriters] at hstale
    exact hstale.congr hinput

variable [DecidableEq P]

theorem note_own : note size p b s (.producer p) t =
    { b with
      steps := b.steps + 1
      pushed := b.pushed + (t.commits.length - s.commits.length)
      refused := b.refused + refusal size s (s.writers p) } :=
  if_pos rfl

theorem note_other (hq : q ≠ p) : note size p b s (.producer q) t =
    { b with others := b.others + (t.claims.length - s.claims.length) } :=
  if_neg hq

/-- The producer's own step. -/
theorem Paid.own {failed : Nat} (h : Paid p s b failed) (size : Nat) :
    ∃ failed', Paid p (produce size s p (s.writers p))
      (note size p b s (.producer p) (produce size s p (s.writers p))) failed' := by
  have hsteps := h.steps_eq
  have hfailed := h.failed_le
  rw [note_own]
  cases hw : s.writers p with
  | start =>
    rw [hw] at hsteps
    refine ⟨failed, ?_, hfailed, ?_⟩
    · simp only [produce, State.goto, Function.update_self, progress, refusal] at *
      omega
    · intro hstale
      simp [produce, State.goto, Stale] at hstale
  | loadedInput i =>
    rw [hw] at hsteps
    by_cases hfull : s.output = Ring.advance (capacity size) i
    · refine ⟨failed, ?_, hfailed, ?_⟩
      · simp only [produce, if_pos hfull, State.goto, Function.update_self, progress, refusal] at *
        omega
      · intro hstale
        simp [produce, if_pos hfull, State.goto, Stale] at hstale
    · refine ⟨failed, ?_, hfailed, ?_⟩
      · simp only [produce, if_neg hfull, State.goto, Function.update_self, progress, refusal] at *
        omega
      · intro hstale
        refine h.failed_lt ?_
        rw [hw]
        simpa [produce, if_neg hfull, State.goto, Stale] using hstale
  | notFull i =>
    rw [hw] at hsteps
    by_cases hsame : s.input = i
    · refine ⟨failed, ?_, hfailed, ?_⟩
      · simp only [produce, if_pos hsame, State.claim, Function.update_self, progress, refusal] at *
        omega
      · intro hstale
        simp [produce, if_pos hsame, State.claim, Stale] at hstale
    · -- the compare-exchange fails, and another one has been counted for it
      have hlt : failed < b.others := h.failed_lt (by rw [hw]; exact hsame)
      refine ⟨failed + 1, ?_, hlt, ?_⟩
      · simp only [produce, if_neg hsame, State.goto, Function.update_self, progress, refusal] at *
        omega
      · intro hstale
        simp [produce, if_neg hsame, State.goto, Stale] at hstale
  | acquired i r =>
    rw [hw] at hsteps
    refine ⟨failed, ?_, hfailed, ?_⟩
    · simp only [produce, State.fill, Function.update_self, progress, refusal] at *
      omega
    · intro hstale
      simp [produce, State.fill, Stale] at hstale
  | filled i r =>
    rw [hw] at hsteps
    refine ⟨failed, ?_, hfailed, ?_⟩
    · simp only [produce, State.commitWrite, Function.update_self, progress, refusal,
        List.length_append, List.length_singleton] at *
      omega
    · intro hstale
      simp [produce, State.commitWrite, Stale] at hstale

/-- What a step of another producer does to this one: it may move `input`, and then it counts. -/
theorem produce_other (size : Nat) (s : State P) (hq : q ≠ p) :
    (produce size s q (s.writers q)).writers p = s.writers p ∧
    ((produce size s q (s.writers q)).input = s.input ∧
        (produce size s q (s.writers q)).claims = s.claims ∨
      (produce size s q (s.writers q)).claims.length = s.claims.length + 1) := by
  have hp : ∀ w, Function.update s.writers q w p = s.writers p := fun w =>
    Function.update_of_ne (Ne.symm hq) w s.writers
  cases s.writers q with
  | start => exact ⟨hp _, .inl ⟨rfl, rfl⟩⟩
  | loadedInput i =>
    simp only [produce]
    split
    · exact ⟨hp _, .inl ⟨rfl, rfl⟩⟩
    · exact ⟨hp _, .inl ⟨rfl, rfl⟩⟩
  | notFull i =>
    simp only [produce]
    split
    · exact ⟨hp _, .inr (by simp [State.claim])⟩
    · exact ⟨hp _, .inl ⟨rfl, rfl⟩⟩
  | acquired i r => exact ⟨hp _, .inl ⟨rfl, rfl⟩⟩
  | filled i r => exact ⟨hp _, .inl ⟨rfl, rfl⟩⟩

theorem Paid.other {failed : Nat} (h : Paid p s b failed) (hq : q ≠ p) :
    Paid p (produce size s q (s.writers q))
      (note size p b s (.producer q) (produce size s q (s.writers q))) failed := by
  obtain ⟨hwriter, hmoved⟩ := produce_other size s hq
  have hfailed := h.failed_le
  rw [note_other hq]
  refine ⟨?_, ?_, fun hstale => ?_⟩
  · rw [hwriter]
    exact h.steps_eq
  · exact Nat.le_trans hfailed (Nat.le_add_right _ _)
  · rw [hwriter] at hstale
    rcases hmoved with ⟨hinput, -⟩ | hclaims
    · exact Nat.lt_of_lt_of_le (h.failed_lt (hstale.congr hinput)) (Nat.le_add_right _ _)
    · show failed < b.others + _
      rw [hclaims]
      omega

theorem Paid.next {failed : Nat} (h : Paid p s b failed) {a : Label P}
    (hs : step size s a = some t) : ∃ failed', Paid p t (note size p b s a t) failed' := by
  cases a with
  | consumer =>
    cases hs
    exact ⟨failed, h.consumer⟩
  | producer q =>
    cases hs
    by_cases hq : q = p
    · subst hq
      exact h.own size
    · exact ⟨failed, h.other hq⟩

end run

/-- **A producer's steps are paid for by pushes**: between its records and its refusals it
takes three more for each push of another that was first, and is held up by nothing else. -/
theorem steps_paid_for [DecidableEq P] (size : Nat) (p : P) (s : State P)
    (hs : s.writers p = .start) (labels : List (Label P)) :
    Along (recording (step size) (note size p)) (fun x =>
      x.2.steps ≤ 5 * x.2.pushed + 2 * x.2.refused + 3 * x.2.others + 4) (s, .empty) labels := by
  have hinit : Paid p s .empty 0 := by
    refine ⟨?_, Nat.le_refl 0, ?_⟩
    · rw [hs]
      rfl
    · intro hstale
      rw [hs] at hstale
      exact hstale.elim
  have hstep : ∀ x a y, (∃ failed, Paid p x.1 x.2 failed) →
      recording (step size) (note size p) x a = some y → ∃ failed, Paid p y.1 y.2 failed := by
    intro x a y ⟨failed, hx⟩ hr
    obtain ⟨hy, hnote⟩ := recording_eq_some.mp hr
    rw [hnote]
    exact hx.next hy
  refine (along_of_step (I := fun x => ∃ failed, Paid p x.1 x.2 failed) hstep ⟨0, hinit⟩
    labels).mono fun x hx => ?_
  obtain ⟨failed, hx⟩ := hx
  have hsteps := hx.steps_eq
  have hfailed := hx.failed_le
  have hprogress := progress_le (x.1.writers p)
  omega

/-- Another push comes between the load and the compare-exchange, and this one goes round. -/
theorem second_push_paid_for :
    let labels : List (Label Bool) :=
      [true, true, false, false, false, true, true, true, true, true, true].map .producer
    (run (recording (step 2) (note 2 true)) (init Bool, .empty) labels).map Prod.snd =
      some ⟨8, 1, 0, 1⟩ ∧
    Along (recording (step 2) (note 2 true)) (fun x =>
      x.2.steps ≤ 5 * x.2.pushed + 2 * x.2.refused + 3 * x.2.others + 4)
      (init Bool, .empty) labels :=
  ⟨by decide, steps_paid_for 2 true (init Bool) rfl _⟩

end Opsian.Queue.Progress
