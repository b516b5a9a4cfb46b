import Opsian.Lib.Runs
import Opsian.Queue.InternalQueue
import Opsian.Queue.Safety

/-! # Who still works on an uncommitted slot

Between `output` and `input`, a slot without its flag is being filled by a producer
or given back by the consumer. This holds of every run, also when claims have gone
round the ring behind the consumer's back. -/
namespace Opsian.Queue.Owners
open Opsian.Lib Opsian.Lib.Runs Opsian.Queue.InternalQueue

variable {P : Type} {size : Nat}

/-- The slot is committed, or somebody is at work on it. -/
def Accounted (s : State P) (i : Nat) : Prop :=
  s.isCommitted i = true ∨ (∃ p r, (s.writers p).Holds i r) ∨ s.reader = .uncommitted i

/-- What the consumer has loaded from `output`. -/
def position : Reader → Option Nat
  | .start => none
  | .loadedOutput o | .waiting o | .acquired o | .uncommitted o => some o

/-- The consumer has found the queue not empty. -/
def Reading (c : Reader) : Prop := ∃ o, c = .waiting o ∨ c = .acquired o ∨ c = .uncommitted o

/-- From `output` to `input`; where both are the same and the consumer reads, all round. -/
def Between (size : Nat) (s : State P) (i : Nat) : Prop :=
  i ∈ Ring.window (capacity size) s.output s.input ∨
    (Reading s.reader ∧ s.output = s.input ∧ i < capacity size)

structure Inv (size : Nat) (s : State P) : Prop where
  output : s.output < capacity size
  input : s.input < capacity size
  loaded : ∀ o, position s.reader = some o → o = s.output
  accounted : ∀ i, Between size s i → Accounted s i

variable {s t : State P}

@[simp] theorem not_reading_start : ¬ Reading .start := by simp [Reading]

@[simp] theorem not_reading_loadedOutput {o : Nat} : ¬ Reading (.loadedOutput o) := by
  simp [Reading]

theorem init_inv : Inv size (init P) where
  output := Nat.succ_pos _
  input := Nat.succ_pos _
  loaded := nofun
  accounted := by
    rintro i (h | h)
    · have h := (Ring.mem_window (Nat.succ_pos size) (Nat.succ_pos size)).mp h
      omega
    · exact absurd h.1 not_reading_start

/-- Who was at work still is, and no flag goes down. -/
theorem Accounted.of_le {i : Nat} (h : Accounted s i)
    (hf : s.isCommitted i = true → t.isCommitted i = true)
    (hw : ∀ p r, (s.writers p).Holds i r → Accounted t i)
    (hr : s.reader = .uncommitted i → t.reader = .uncommitted i) : Accounted t i := by
  rcases h with h | ⟨p, r, h⟩ | h
  · exact .inl (hf h)
  · exact hw p r h
  · exact .inr (.inr (hr h))

section Producer
variable [DecidableEq P] {p : P}

theorem holds_update {w : Writer} {i r : Nat} (f : P → Writer) (hold : ∀ i r, ¬ (f p).Holds i r)
    {q : P} (h : (f q).Holds i r) : (Function.update f p w q).Holds i r := by
  have hq : q ≠ p := fun he => hold i r (he ▸ h)
  rwa [Function.update_of_ne hq]

/-- A step of a producer that holds no record and takes none. -/
theorem Inv.goto (h : Inv size s) {w : Writer} (hold : ∀ i r, ¬ (s.writers p).Holds i r) :
    Inv size (s.goto p w) where
  output := h.output
  input := h.input
  loaded := h.loaded
  accounted i hi := (h.accounted i hi).of_le id
    (fun q r hq => .inr (.inl ⟨q, r, holds_update _ hold hq⟩)) id

theorem Inv.claim (h : Inv size s) (hold : ∀ i r, ¬ (s.writers p).Holds i r) :
    Inv size (s.claim size p s.input) := by
  have hin := h.input
  have hout := h.output
  have hadvance := Ring.advance_eq h.input
  have hlt : Ring.advance (capacity size) s.input < capacity size := Nat.mod_lt _ (Nat.succ_pos _)
  refine ⟨h.output, hlt, h.loaded, fun i hi => ?_⟩
  by_cases hnew : i = s.input
  · subst hnew
    exact .inr (.inl ⟨p, s.claims.length, .inl (Function.update_self ..)⟩)
  -- every other slot lay between `output` and `input` before
  have hold' : i ∈ Ring.window (capacity size) s.output s.input := by
    rw [Ring.mem_window hout hin]
    rcases hi with hi | ⟨-, heq, hi⟩
    · have hi := (Ring.mem_window hout hlt).mp hi
      split at hadvance <;> omega
    · have heq : s.output = Ring.advance (capacity size) s.input := heq
      split at hadvance <;> omega
  exact (h.accounted i (.inl hold')).of_le id
    (fun q r hq => .inr (.inl ⟨q, r, holds_update _ hold hq⟩)) id

theorem Inv.fill (h : Inv size s) {i r : Nat} (hs : s.writers p = .acquired i r) :
    Inv size (s.fill p i r) where
  output := h.output
  input := h.input
  loaded := h.loaded
  accounted j hj := by
    refine (h.accounted j hj).of_le id (fun q r' hq => .inr (.inl ?_)) id
    by_cases hqp : q = p
    · subst hqp
      rcases hq with hq | hq <;> rw [hs] at hq <;> cases hq
      exact ⟨q, r, .inr (Function.update_self ..)⟩
    · have hother : (s.fill p i r).writers q = s.writers q := Function.update_of_ne hqp _ _
      exact ⟨q, r', hother ▸ hq⟩

theorem Inv.commitWrite (h : Inv size s) {i r : Nat} (hs : s.writers p = .filled i r) :
    Inv size (s.commitWrite p i r) where
  output := h.output
  input := h.input
  loaded := h.loaded
  accounted j hj := by
    have hflag (he : j = i) : (s.commitWrite p i r).isCommitted j = true := by
      rw [he]
      exact Function.update_self ..
    refine (h.accounted j hj).of_le (fun hf => ?_) (fun q r' hq => ?_) id
    · by_cases he : j = i
      · exact hflag he
      · exact (Function.update_of_ne he _ _).trans hf
    · by_cases hqp : q = p
      · subst hqp
        rcases hq with hq | hq <;> rw [hs] at hq <;> cases hq
        exact .inl (hflag rfl)
      · have hother : (s.commitWrite p i r).writers q = s.writers q :=
          Function.update_of_ne hqp _ _
        exact .inr (.inl ⟨q, r', hother ▸ hq⟩)

end Producer

/-! ## The consumer's steps -/

/-- A step of the consumer that touches nothing shared. -/
theorem Inv.reads (h : Inv size s) {c : Reader} {l : List (Option Nat)}
    (hc : ∀ o, position c = some o → o = s.output)
    (hr : Reading c → Reading s.reader ∨ s.output ≠ s.input)
    (hold : ∀ i, s.reader ≠ .uncommitted i) :
    Inv size { s with reader := c, returned := l } where
  output := h.output
  input := h.input
  loaded := hc
  accounted i hi := by
    have hi' : Between size s i := by
      refine hi.imp_right fun ⟨hreading, heq, hlt⟩ => ?_
      rcases hr hreading with hreading | hne
      · exact ⟨hreading, heq, hlt⟩
      · exact absurd heq hne
    exact (h.accounted i hi').of_le id (fun p r hp => .inr (.inl ⟨p, r, hp⟩))
      fun he => absurd he (hold i)

theorem Inv.uncommit (h : Inv size s) {o : Nat} (hs : s.reader = .acquired o) :
    Inv size (s.uncommit o) where
  output := h.output
  input := h.input
  loaded o' ho' := h.loaded o' (by rw [hs]; exact ho')
  accounted i hi := by
    by_cases he : i = o
    · subst he
      exact .inr (.inr rfl)
    have hi' : Between size s i :=
      hi.imp_right fun ⟨_, heq, hlt⟩ => ⟨⟨o, .inr (.inl hs)⟩, heq, hlt⟩
    refine (h.accounted i hi').of_le (fun hf => (Function.update_of_ne he _ _).trans hf)
      (fun p r hp => .inr (.inl ⟨p, r, hp⟩)) fun hr => ?_
    rw [hs] at hr
    cases hr

/-- The slot that is given back is the only one that leaves. -/
theorem Inv.release (h : Inv size s) {o : Nat} (hs : s.reader = .uncommitted o) :
    Inv size (s.release size o) := by
  have hin := h.input
  have hout := h.output
  obtain rfl : o = s.output := h.loaded o (by rw [hs]; rfl)
  have hadvance := Ring.advance_eq h.output
  have hlt : Ring.advance (capacity size) s.output < capacity size :=
    Nat.mod_lt _ (Nat.succ_pos _)
  refine ⟨hlt, h.input, nofun, fun i hi => ?_⟩
  have hi := hi.resolve_right fun hr => not_reading_start hr.1
  have hi := (Ring.mem_window hlt hin).mp hi
  have hne : i ≠ s.output := by split at hadvance <;> omega
  have hi' : Between size s i := by
    by_cases heq : s.output = s.input
    · exact .inr ⟨⟨_, .inr (.inr hs)⟩, heq, hi.1⟩
    · left
      rw [Ring.mem_window hout hin]
      split at hadvance <;> omega
  refine (h.accounted i hi').of_le id (fun p r hp => .inr (.inl ⟨p, r, hp⟩)) fun hr => ?_
  rw [hs] at hr
  cases hr
  exact absurd rfl hne

/-- Where nobody is at work on a record, every slot between `output` and `input` is
committed. -/
theorem Inv.committed (h : Inv size s) (hw : ∀ p i r, ¬ (s.writers p).Holds i r)
    (hr : ∀ i, s.reader ≠ .uncommitted i) :
    ∀ i ∈ Ring.window (capacity size) s.output s.input, s.isCommitted i = true := by
  intro i hi
  rcases h.accounted i (.inl hi) with hf | ⟨p, r, hp⟩ | hread
  · exact hf
  · exact absurd hp (hw p i r)
  · exact absurd hread (hr i)

/-! ## While no claim is made on a full queue -/

/-- A slot that a producer works on is not committed. -/
theorem uncommitted_of_holds (h : Safety.Inv size s) {p : P} {i r : Nat}
    (hp : (s.writers p).Holds i r) :
    i ∈ Ring.window (capacity size) s.output s.input ∧ s.isCommitted i ≠ true := by
  have hmem := (h.safe.owned p i r hp).1
  rw [h.safe.window] at hmem
  refine ⟨hmem, fun hf => ?_⟩
  obtain ⟨rfl, hlow, hhigh, hnot⟩ := h.holds p i r hp
  obtain ⟨r', hr', hcleared, hslot⟩ := (h.flags _).mp hf
  have hcount := h.counters
  have he : r' = r :=
    h.eq_of_slot (by omega) (by omega) (h.commits_lt r' hr') hhigh hslot
  exact hnot (he ▸ hr')

/-- Nor is the one that the consumer is about to give back. -/
theorem uncommitted_of_reader (h : Safety.Inv size s) {i : Nat} (hr : s.reader = .uncommitted i) :
    i ∈ Ring.window (capacity size) s.output s.input ∧ s.isCommitted i ≠ true := by
  have hphase := h.phase
  simp only [Safety.Phase, hr] at hphase
  obtain ⟨rfl, hlen, hcleared⟩ := hphase
  have hle := h.returned_le
  constructor
  · rw [← h.safe.window, h.unread]
    exact Ring.mem_slots (Nat.le_refl _) (by omega)
  · intro hf
    obtain ⟨r, hr, hlow, hslot⟩ := (h.flags _).mp hf
    have he : r = s.released :=
      h.eq_of_slot (by omega) (Nat.le_refl _) (h.commits_lt r hr) (by omega) hslot
    omega

/-! ## Runs -/

variable [DecidableEq P]

theorem Inv.next {a : Label P} (h : Inv size s) (hs : step size s a = some t) : Inv size t := by
  cases a with
  | producer p =>
    obtain rfl := Option.some.inj hs
    cases hw : s.writers p with
    | start => exact h.goto (by simp [hw])
    | loadedInput i =>
      have hold (j r : Nat) : ¬ (s.writers p).Holds j r := by simp [hw]
      simp only [produce]
      split
      · exact h.goto hold
      · exact h.goto hold
    | notFull i =>
      have hold (j r : Nat) : ¬ (s.writers p).Holds j r := by simp [hw]
      simp only [produce]
      split
      · rename_i hin
        subst hin
        exact h.claim hold
      · exact h.goto hold
    | acquired i r => exact h.fill hw
    | filled i r => exact h.commitWrite hw
  | consumer =>
    obtain rfl := Option.some.inj hs
    cases hr : s.reader with
    | start =>
      refine h.reads (fun o ho => (Option.some.inj ho).symm) (fun h => ?_) fun i he => ?_
      · exact absurd h not_reading_loadedOutput
      · rw [hr] at he
        cases he
    | loadedOutput o =>
      have ho := h.loaded o (by rw [hr]; rfl)
      simp only [consume]
      refine h.reads (fun o' ho' => ?_) (fun h => ?_) fun i he => ?_
      · split at ho'
        · cases ho'
        · exact (Option.some.inj ho').symm.trans ho
      · split at h
        · exact absurd h not_reading_start
        · rename_i hne
          exact .inr (ho ▸ hne)
      · rw [hr] at he
        cases he
    | waiting o =>
      have ho := h.loaded o (by rw [hr]; rfl)
      simp only [consume]
      split
      · refine h.reads (fun o' ho' => (Option.some.inj ho').symm.trans ho) (fun _ => ?_)
          fun i he => ?_
        · exact .inl ⟨o, .inl hr⟩
        · rw [hr] at he
          cases he
      · exact h
    | acquired o => exact h.uncommit hr
    | uncommitted o => exact h.release hr

end Opsian.Queue.Owners
