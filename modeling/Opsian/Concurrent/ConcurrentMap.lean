import Mathlib.Logic.Function.Basic
import Opsian.Lib.Table

/-! # The concurrent map

A hash table with open addressing, in which erasing a key moves the keys behind it
backwards. Its operations are threads of atomic accesses: a step of one is an access, and
what is computed from it up to the next. -/
namespace Opsian.Concurrent.ConcurrentMap
open Opsian.Lib

variable {K V : Type}

/-- `none` is the null key and the null value. -/
structure Cell (K V : Type) where
  key : Option K
  value : Option V
  deriving DecidableEq, Repr

/-- Where a cycle was detected, which is only logged. -/
inductive Cycle where
  | assign
  | get
  | erase
  | compactChain
  deriving DecidableEq, Repr

/-- `ConcurrentMap`. Indices and sizes stay below the capacity, which is an `ureg`. -/
structure State (K V : Type) where
  size : Nat
  maxLoad : Nat
  cells : Nat → Cell K V
  sizeMask : Nat
  cycles : List Cycle

namespace State

def setKey (m : State K V) (idx : Nat) (key : Option K) : State K V :=
  { m with cells := Function.update m.cells idx { m.cells idx with key := key } }

def setValue (m : State K V) (idx : Nat) (value : Option V) : State K V :=
  { m with cells := Function.update m.cells idx { m.cells idx with value := value } }

/-- `size.fetch_sub(1)`. -/
def fetchSub (m : State K V) : State K V := { m with size := m.size - 1 }

def fetchAdd (m : State K V) : State K V := { m with size := m.size + 1 }

def log (m : State K V) (cycle : Cycle) : State K V :=
  { m with cycles := m.cycles ++ [cycle] }

/-- `idx++; idx &= m_sizeMask`. -/
def nextIndex (m : State K V) (idx : Nat) : Nat := (idx + 1) &&& m.sizeMask

def clear (m : State K V) : State K V :=
  { m with
    cells := fun idx => if idx ≤ m.sizeMask then ⟨none, none⟩ else m.cells idx
    size := 0 }

/-- The constructor, which clears what it has allocated. -/
def init (capacity maxLoad : Nat) (cells : Nat → Cell K V) : State K V :=
  clear ⟨0, maxLoad, cells, capacity - 1, []⟩

end State

inductive Answer (V : Type) where
  | done (success : Bool)
  | value (value : Option V)
  | cleared
  deriving DecidableEq, Repr

/-- What an operation does next, with its local variables. -/
inductive Access (K V : Type) where
  | returned (answer : Answer V)
  /-- `assign`: `fetch_add`, and back where the load limit is hit. -/
  | assignAdd (key : K) (value : V)
  | assignLimit
  /-- Load the key of a cell; take it by `compare_exchange_strong`, or account for a key
  that was there; store the value. -/
  | assignProbe (key : K) (value : V) (predecessorIndex idx : Nat)
  | assignTake (key : K) (value : V) (predecessorIndex idx : Nat)
  | assignKnown (value : V) (idx : Nat)
  | assignStore (value : V) (idx : Nat)
  /-- `erase`: load the key of a cell; `nullOutCell`. -/
  | eraseProbe (key : K) (predecessorIndex idx : Nat)
  | eraseValue (idx : Nat)
  | eraseKey (idx : Nat)
  /-- `compactChain`: load the next key; move it with its value to the deleted cell, and
  `nullOutCell` the one it was in. -/
  | compactProbe (initialDeleteIndex deleteIndex index : Nat)
  | compactLoad (initialDeleteIndex deleteIndex index : Nat) (key : K)
  | compactValue (initialDeleteIndex deleteIndex index : Nat) (key : K) (value : Option V)
  | compactKey (initialDeleteIndex deleteIndex index : Nat) (key : K)
  | compactNullValue (initialDeleteIndex index : Nat)
  | compactNullKey (initialDeleteIndex index : Nat)
  | compactEnd
  /-- `get`: load the key of a cell, its value, and its key again. -/
  | getProbe (key : K) (predecessorIndex idx : Nat)
  | getValue (key : K) (predecessorIndex idx : Nat)
  | getAgain (key : K) (predecessorIndex idx : Nat) (loadedValue : Option V)
  deriving DecidableEq, Repr

section

variable [DecidableEq K] (hash : K → UInt64)

def predecessorIndex (m : State K V) (key : K) : Nat :=
  (hash key - 1).toNat &&& m.sizeMask

def homeIndex (m : State K V) (key : K) : Nat := (hash key).toNat &&& m.sizeMask

/-- The test of `compactChain`. -/
def moves (hash deleteIndex index : Nat) : Bool :=
  (decide (index < hash) && (decide (hash ≤ deleteIndex) || decide (deleteIndex ≤ index))) ||
    (decide (hash ≤ deleteIndex) && decide (deleteIndex ≤ index))

/-- The next round of a loop of `assign`, `erase` or `get`. -/
def probe (m : State K V) (predecessorIndex idx : Nat) (cycle : Cycle)
    (answer : Answer V) (access : Nat → Access K V) : Access K V × State K V :=
  let idx := m.nextIndex idx
  if predecessorIndex = idx then (.returned answer, m.log cycle) else (access idx, m)

def nextAssign (m : State K V) (key : K) (value : V) (predecessorIndex idx : Nat) :
    Access K V × State K V :=
  probe m predecessorIndex idx .assign (.done false) (.assignProbe key value predecessorIndex)

def nextErase (m : State K V) (key : K) (predecessorIndex idx : Nat) :
    Access K V × State K V :=
  probe m predecessorIndex idx .erase (.done false) (.eraseProbe key predecessorIndex)

/-- `return false` is the null value of `get`. -/
def nextGet (m : State K V) (key : K) (predecessorIndex idx : Nat) :
    Access K V × State K V :=
  probe m predecessorIndex idx .get (.value none) (.getProbe key predecessorIndex)

def nextCompact (m : State K V) (initialDeleteIndex deleteIndex index : Nat) :
    Access K V × State K V :=
  probe m initialDeleteIndex index .compactChain (.done false)
    (.compactProbe initialDeleteIndex deleteIndex)

/-- One access. -/
def step (m : State K V) : Access K V → Access K V × State K V
  | .returned answer => (.returned answer, m)
  | .assignAdd key value =>
    if m.maxLoad ≤ m.size then (.assignLimit, m.fetchAdd)
    else
      nextAssign m.fetchAdd key value (predecessorIndex hash m key) (predecessorIndex hash m key)
  | .assignLimit => (.returned (.done false), m.fetchSub)
  | .assignProbe key value predecessorIndex idx =>
    match (m.cells idx).key with
    | none => (.assignTake key value predecessorIndex idx, m)
    | some probedKey =>
      if probedKey = key then (.assignKnown value idx, m)
      else nextAssign m key value predecessorIndex idx
  | .assignTake key value predecessorIndex idx =>
    match (m.cells idx).key with
    | none => (.assignStore value idx, m.setKey idx (some key))
    | some _ => nextAssign m key value predecessorIndex idx
  | .assignKnown value idx => (.assignStore value idx, m.fetchSub)
  | .assignStore value idx => (.returned (.done true), m.setValue idx (some value))
  | .eraseProbe key predecessorIndex idx =>
    match (m.cells idx).key with
    | none => (.returned (.done false), m)
    | some probedKey =>
      if probedKey = key then (.eraseValue idx, m) else nextErase m key predecessorIndex idx
  | .eraseValue idx => (.eraseKey idx, m.setValue idx none)
  | .eraseKey idx => nextCompact (m.setKey idx none) idx idx idx
  | .compactProbe initialDeleteIndex deleteIndex index =>
    match (m.cells index).key with
    | none => (.compactEnd, m)
    | some key =>
      if moves (homeIndex hash m key) deleteIndex index then
        (.compactLoad initialDeleteIndex deleteIndex index key, m)
      else nextCompact m initialDeleteIndex deleteIndex index
  | .compactLoad initialDeleteIndex deleteIndex index key =>
    (.compactValue initialDeleteIndex deleteIndex index key (m.cells index).value, m)
  | .compactValue initialDeleteIndex deleteIndex index key value =>
    (.compactKey initialDeleteIndex deleteIndex index key, m.setValue deleteIndex value)
  | .compactKey initialDeleteIndex deleteIndex index key =>
    (.compactNullValue initialDeleteIndex index, m.setKey deleteIndex (some key))
  | .compactNullValue initialDeleteIndex index =>
    (.compactNullKey initialDeleteIndex index, m.setValue index none)
  | .compactNullKey initialDeleteIndex index =>
    nextCompact (m.setKey index none) initialDeleteIndex index index
  | .compactEnd => (.returned (.done true), m.fetchSub)
  | .getProbe key predecessorIndex idx =>
    match (m.cells idx).key with
    | none => (.returned (.value none), m)
    | some probedKey =>
      if probedKey = key then (.getValue key predecessorIndex idx, m)
      else nextGet m key predecessorIndex idx
  | .getValue key predecessorIndex idx =>
    (.getAgain key predecessorIndex idx (m.cells idx).value, m)
  | .getAgain key predecessorIndex idx loadedValue =>
    if (m.cells idx).key = some key then (.returned (.value loadedValue), m)
    else nextGet m key predecessorIndex idx

/-- The calls; `none` is a null argument. -/
inductive Op (K V : Type) where
  | assign (key : Option K) (value : Option V)
  | erase (key : Option K)
  | get (key : Option K)
  | clear
  deriving DecidableEq, Repr

/-- Up to the first access. -/
def begin (m : State K V) : Op K V → Access K V × State K V
  | .assign (some key) (some value) => (.assignAdd key value, m)
  | .assign _ _ => (.returned (.done false), m)
  | .erase (some key) =>
    nextErase m key (predecessorIndex hash m key) (predecessorIndex hash m key)
  | .erase none => (.returned (.done false), m)
  | .get (some key) =>
    nextGet m key (predecessorIndex hash m key) (predecessorIndex hash m key)
  | .get none => (.returned (.value none), m)
  | .clear => (.returned .cleared, m.clear)

def Access.answer? : Access K V → Option (Answer V)
  | .returned answer => some answer
  | _ => none

/-- At most so many accesses in a row, by one thread. -/
def accesses : Nat → Access K V × State K V → Access K V × State K V
  | 0, x => x
  | n + 1, x => accesses n (step hash x.2 x.1)

/-- A call of a thread that is alone. No cell takes more than seven accesses. -/
def call (m : State K V) (op : Op K V) : Option (Answer V × State K V) :=
  let x := accesses hash (7 * (m.sizeMask + 1) + 6) (begin hash m op)
  x.1.answer?.map fun answer => (answer, x.2)

end

/-! ## What it is for -/

section

variable [DecidableEq K]

/-- A finite map that may be full. -/
def answerOf (maxLoad : Nat) (t : Table K V) : Op K V → Answer V × Table K V
  | .assign (some key) (some value) =>
    if maxLoad ≤ t.size then (.done false, t) else (.done true, t.insert key value)
  | .assign _ _ => (.done false, t)
  | .erase (some key) => (.done (decide (key ∈ t)), t.erase key)
  | .erase none => (.done false, t)
  | .get (some key) => (.value (t.lookup key), t)
  | .get none => (.value none, t)
  | .clear => (.cleared, ∅)

end

end Opsian.Concurrent.ConcurrentMap
