import Mathlib.Logic.Function.Basic
import Opsian.Lib.Ring

/-! # The queue between the signal handlers and the processor

Any number of producers and one consumer share `input`, `output` and the
records' `is_committed` flags. Every load, store and compare-exchange is one
step. A producer is a context that runs `acquireWrite`: a thread, or a signal
handler that has interrupted one. -/
namespace Opsian.Queue.InternalQueue
open Opsian.Lib

/-- Where a producer stands in `acquireWrite`, in filling its record and in `commitWrite`. -/
inductive Writer where
  /-- About to load `input`: between two pushes, or at the top of the loop. -/
  | start
  | loadedInput (currentInput : Nat)
  /-- The check against `output` has passed; the compare-exchange is next. -/
  | notFull (currentInput : Nat)
  | acquired (position record : Nat)
  | filled (position record : Nat)
  deriving DecidableEq, Repr

/-- Where the consumer stands in `acquireRead` and `commitRead`. -/
inductive Reader where
  | start
  | loadedOutput (currentOutput : Nat)
  | waiting (currentOutput : Nat)
  | acquired (position : Nat)
  | uncommitted (position : Nat)
  deriving DecidableEq, Repr

/-- The shared words, the program counters, and what has happened so far. A
record's payload is the number of the compare-exchange that claimed it. -/
structure State (P : Type) where
  input : Nat
  output : Nat
  isCommitted : Nat → Bool
  payload : Nat → Option Nat
  writers : P → Writer
  reader : Reader
  /-- The slots of the successful compare-exchanges, in their order. -/
  claims : List Nat
  /-- The records whose `commitWrite` has happened. -/
  commits : List Nat
  /-- The payloads found where `acquireRead` succeeded, in order. -/
  returned : List (Option Nat)
  /-- The flags reset, and the `output` stores made, by `commitRead`. -/
  cleared : Nat
  released : Nat

def init (P : Type) : State P where
  input := 0
  output := 0
  isCommitted := fun _ => false
  payload := fun _ => none
  writers := fun _ => .start
  reader := .start
  claims := []
  commits := []
  returned := []
  cleared := 0
  released := 0

/-- `Capacity`: the gap tells a full queue from an empty one. -/
def capacity (size : Nat) : Nat := size + 1

inductive Label (P : Type) where
  | producer (p : P)
  | consumer
  deriving DecidableEq, Repr

section Steps
variable {P : Type} [DecidableEq P] (size : Nat)

def State.goto (s : State P) (p : P) (w : Writer) : State P :=
  { s with writers := Function.update s.writers p w }

/-- The compare-exchange of `acquireWrite` where it succeeds. -/
def State.claim (s : State P) (p : P) (currentInput : Nat) : State P :=
  { s with
    input := Ring.advance (capacity size) currentInput
    writers := Function.update s.writers p (.acquired currentInput s.claims.length)
    claims := s.claims ++ [currentInput] }

/-- `get(position)` and the stores to the record's fields. -/
def State.fill (s : State P) (p : P) (position record : Nat) : State P :=
  { s with
    payload := Function.update s.payload position (some record)
    writers := Function.update s.writers p (.filled position record) }

def State.commitWrite (s : State P) (p : P) (position record : Nat) : State P :=
  { s with
    isCommitted := Function.update s.isCommitted position true
    writers := Function.update s.writers p .start
    commits := s.commits ++ [record] }

/-- `acquireRead` leaves its loop and the caller sees the record. -/
def State.acquireRead (s : State P) (position : Nat) : State P :=
  { s with
    reader := .acquired position
    returned := s.returned ++ [s.payload position] }

/-- The first store of `commitRead`. -/
def State.uncommit (s : State P) (position : Nat) : State P :=
  { s with
    isCommitted := Function.update s.isCommitted position false
    reader := .uncommitted position
    cleared := s.cleared + 1 }

/-- The second store of `commitRead`. -/
def State.release (s : State P) (position : Nat) : State P :=
  { s with
    output := Ring.advance (capacity size) position
    reader := .start
    released := s.released + 1 }

/-- A producer's next step: the two loads, the compare-exchange, the record. -/
def produce (s : State P) (p : P) : Writer → State P
  | .start => s.goto p (.loadedInput s.input)
  | .loadedInput i =>
    -- full: acquireWrite returns false
    if s.output = Ring.advance (capacity size) i then s.goto p .start else s.goto p (.notFull i)
  | .notFull i => if s.input = i then s.claim size p i else s.goto p .start
  | .acquired i r => s.fill p i r
  | .filled i r => s.commitWrite p i r

/-- The consumer's next step: the two loads, the wait, the two stores. -/
def consume (s : State P) : Reader → State P
  | .start => { s with reader := .loadedOutput s.output }
  | .loadedOutput o =>
    -- empty: acquireRead returns false
    { s with reader := if o = s.input then .start else .waiting o }
  | .waiting o => if s.isCommitted o then s.acquireRead o else s
  | .acquired o => s.uncommit o
  | .uncommitted o => s.release size o

def step (s : State P) : Label P → Option (State P)
  | .producer p => some (produce size s p (s.writers p))
  | .consumer => some (consume size s s.reader)

end Steps

variable {P : Type}

/-- The slots claimed and not yet given back by `commitRead`. -/
def State.unread (s : State P) : List Nat := s.claims.drop s.released

/-- The producer is filling or committing this record at this slot. -/
def Writer.Holds (w : Writer) (position record : Nat) : Prop :=
  w = .acquired position record ∨ w = .filled position record

/-- The consumer is between `acquireRead` and the end of `commitRead` at this slot. -/
def Reader.Holds (c : Reader) (position : Nat) : Prop :=
  c = .acquired position ∨ c = .uncommitted position

@[simp] theorem Writer.not_holds_start {i r : Nat} : ¬ Writer.start.Holds i r := by
  simp [Writer.Holds]

@[simp] theorem Writer.not_holds_loadedInput {j i r : Nat} : ¬ (loadedInput j).Holds i r := by
  simp [Writer.Holds]

@[simp] theorem Writer.not_holds_notFull {j i r : Nat} : ¬ (notFull j).Holds i r := by
  simp [Writer.Holds]

theorem of_update_eq {α : Type} [DecidableEq P] {f : P → α} {p q : P} {w v : α}
    (h : Function.update f p w q = v) : (q = p ∧ w = v) ∨ (q ≠ p ∧ f q = v) := by
  by_cases hq : q = p
  · subst hq
    rw [Function.update_self] at h
    exact .inl ⟨rfl, h⟩
  · rw [Function.update_of_ne hq] at h
    exact .inr ⟨hq, h⟩

theorem Writer.Holds.of_update [DecidableEq P] {f : P → Writer} {p q : P} {w : Writer} {i r : Nat}
    (h : (Function.update f p w q).Holds i r) :
    (q = p ∧ w.Holds i r) ∨ (q ≠ p ∧ (f q).Holds i r) := by
  rcases of_update_eq (v := Function.update f p w q) rfl with ⟨hq, he⟩ | ⟨hq, he⟩
  · exact .inl ⟨hq, he ▸ h⟩
  · exact .inr ⟨hq, he ▸ h⟩

end Opsian.Queue.InternalQueue
