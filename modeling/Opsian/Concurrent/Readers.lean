import Opsian.Concurrent.Placement

/-! # A reader beside the writer

One thread assigns and erases keys while another one gets a key that the first leaves alone.
Their accesses interleave. The reader finds the key unless it comes to the cell that an
erase has emptied, or the key is moved back past it. -/
namespace Opsian.Concurrent.Readers
open Opsian.Lib Opsian.Lib.Probing
open Opsian.Concurrent.ConcurrentMap Opsian.Concurrent.Refinement Opsian.Concurrent.Accesses
open Opsian.Concurrent.FiniteMap Opsian.Concurrent.Placement

variable {K V : Type}

/-- The map, the next access of the writer and of the reader, who begins later, and how many
the reader has done. -/
structure Threads (K V : Type) where
  map : State K V
  writer : Access K V
  reader : Option (Access K V)
  loads : Nat

/-- The writer calls `assign` or `erase`, or goes on; the reader calls `get`, or goes on. -/
inductive Turn (K V : Type) where
  | call (op : Op K V)
  | write
  | get
  | read
  deriving DecidableEq, Repr

variable [DecidableEq K]

/-- A call of the writer that leaves the key alone. -/
def spares (k : K) : Op K V → Bool
  | .assign key _ | .erase key => decide (key ≠ some k)
  | .get _ | .clear => false

def step (hash : K → UInt64) (k : K) (s : Threads K V) : Turn K V → Option (Threads K V)
  | .call op =>
    if s.writer.answer?.isSome && spares k op then
      let x := begin hash s.map op
      some { s with map := x.2, writer := x.1 }
    else none
  | .write =>
    if s.writer.answer?.isSome then none
    else
      let x := ConcurrentMap.step hash s.map s.writer
      some { s with map := x.2, writer := x.1 }
  | .get =>
    match s.reader with
    | some _ => none
    | none =>
      let x := begin hash s.map (.get (some k))
      some { s with map := x.2, reader := some x.1 }
  | .read =>
    match s.reader with
    | none => none
    | some access =>
      if access.answer?.isSome then none
      else
        let x := ConcurrentMap.step hash s.map access
        some { s with map := x.2, reader := some x.1, loads := s.loads + 1 }

/-- A map that no thread is in. -/
def start (m : State K V) : Threads K V := ⟨m, .returned .cleared, none, 0⟩

/-- The reader returns the value, if it has returned, and does so after three accesses a
cell. -/
def Finds (capacity : Nat) (v : V) (s : Threads K V) : Prop :=
  s.loads ≤ 3 * capacity ∧
    ∀ answer, s.reader = some (.returned answer) → answer = .value (some v)

/-- The reader does not load the key of the cell that has been emptied. The value is not
nulled in the old cell of the key while the reader is past the new one, or about to load it
from the old one; nor is the key nulled there while the reader is about to load it again. -/
def Undisturbed (hash : K → UInt64) (capacity : Nat) (k : K) (s : Threads K V) :
    Turn K V → Prop
  | .call _ | .get => True
  | .read =>
    match s.reader with
    | some (.getProbe _ _ idx) => hole s.writer ≠ some idx
    | _ => True
  | .write =>
    match s.writer, s.reader with
    | .compactNullValue _ index, some (.getProbe _ _ idx) =>
      (s.map.cells index).key = some k → ∀ d < capacity, d ≠ index →
        (s.map.cells d).key = some k →
        offset capacity (home hash capacity k) idx ≤ offset capacity (home hash capacity k) d
    | .compactNullValue _ index, some (.getValue _ _ idx) => idx ≠ index
    | .compactNullKey _ index, some (.getAgain _ _ idx _) => idx ≠ index
    | _, _ => True

/-! ## The reader -/

section

variable (hash : K → UInt64) (n maxLoad : Nat) (k : K) (v : V)

/-- Where the reader is: a cell with the binding is still ahead, or has been found. -/
inductive Reading (cells : Nat → Cell K V) : Nat → Option (Access K V) → Prop
  | idle : Reading cells 0 none
  | probe {loads idx d} (hidx : idx < n) (hd : d < n) (hcell : cells d = ⟨some k, some v⟩)
    (hahead : offset n (home hash n k) idx ≤ offset n (home hash n k) d)
    (hloads : loads ≤ 3 * offset n (home hash n k) idx) :
    Reading cells loads (some (.getProbe k (last hash n k) idx))
  | value {loads idx} (hidx : idx < n) (hcell : cells idx = ⟨some k, some v⟩)
    (hloads : loads ≤ 3 * offset n (home hash n k) idx + 1) :
    Reading cells loads (some (.getValue k (last hash n k) idx))
  | again {loads idx} (hidx : idx < n) (hkey : keysOf cells idx = some k)
    (hloads : loads ≤ 3 * offset n (home hash n k) idx + 2) :
    Reading cells loads (some (.getAgain k (last hash n k) idx (some v)))
  | returned {loads} (hloads : loads ≤ 3 * n) :
    Reading cells loads (some (.returned (.value (some v))))

structure Sound (s : Threads K V) : Prop where
  writing : Writing hash n maxLoad k v s.writer s.map
  reading : Reading hash n k v s.map.cells s.loads s.reader

end

section steps

variable {hash : K → UInt64} {n bits maxLoad : Nat} {k : K} {v : V} {m : State K V}
  {s s' : Threads K V} {a : Turn K V} {w access : Access K V} {loads : Nat}
  {reader : Option (Access K V)} {gap : Option Nat}

omit [DecidableEq K] in
theorem Reading.finds (hreading : Reading hash n k v m.cells loads reader)
    (hhome : home hash n k < n) :
    loads ≤ 3 * n ∧ ∀ answer, reader = some (.returned answer) → answer = .value (some v) := by
  cases hreading with
  | idle => exact ⟨Nat.zero_le _, nofun⟩
  | probe hidx _ _ _ hloads | value hidx _ hloads | again hidx _ hloads =>
    have hlt := offset_lt hhome hidx
    exact ⟨by omega, nofun⟩
  | returned hloads =>
    refine ⟨hloads, fun answer he => ?_⟩
    cases he
    rfl

omit [DecidableEq K] in
theorem Reading.not_begun (hreading : Reading hash n k v m.cells loads none) : loads = 0 := by
  cases hreading
  rfl

omit [DecidableEq K] in
/-- The reader begins at the home cell, which is not the last as the key is elsewhere. -/
theorem reading_begin (hn : n = 2 ^ bits) (hbits : bits ≤ 64) (hm : m.sizeMask = n - 1)
    (hplaced : Placed hash n k v gap m.cells) :
    ∃ access, begin hash m (.get (some k)) = (access, m) ∧
      Reading hash n k v m.cells 0 (some access) := by
  obtain ⟨d, hd, hcell⟩ := hplaced.complete
  have hkey : keysOf m.cells d = some k := congrArg Cell.key hcell
  have hreached := hplaced.reached d hd hkey
  have hlast := offset_of_next (last_lt hash hn k) (next_last hash hn hbits k)
  have hne : d ≠ last hash n k := by
    rintro rfl
    omega
  rw [begin, predecessorIndex_eq hn hm, nextGet]
  rcases probe_first k .get (.value none) (.getProbe k (last hash n k)) hn hbits hm with
    ⟨helse, -⟩ | ⟨ha, hprobe⟩
  · exact absurd hkey (helse d hd hne).2
  · refine ⟨_, hprobe, .probe ha.lt hd hcell ?_ (Nat.zero_le _)⟩
    rw [offset_self]
    exact Nat.zero_le _

/-- An access of the writer, from which the reader is not disturbed. -/
theorem reading_write (hwriting : Writing hash n maxLoad k v w m)
    (hreading : Reading hash n k v m.cells loads reader)
    (hok : Undisturbed hash n k ⟨m, w, reader, loads⟩ .write) :
    Reading hash n k v (ConcurrentMap.step hash m w).2.cells loads reader := by
  cases hreading with
  | idle => exact .idle
  | @probe _ idx d hidx hd hcell hahead hloads =>
    by_cases hnull : ∃ initial, w = .compactNullValue initial d
    · obtain ⟨initial, rfl⟩ := hnull
      -- The other cell, which stays, is not behind the reader.
      obtain ⟨c, hc, hne, hcopy, -⟩ := writing_copy hwriting (congrArg Cell.key hcell)
      have hkeep := writing_keeps_cell hwriting hcopy fun initial' he => by
        cases he
        exact hne rfl
      exact .probe hidx hc hkeep
        (hok (congrArg Cell.key hcell) c hc hne (congrArg Cell.key hcopy)) hloads
    · have hkeep := writing_keeps_cell hwriting hcell fun initial he => hnull ⟨initial, he⟩
      exact .probe hidx hd hkeep hahead hloads
  | @value _ idx hidx hcell hloads =>
    refine .value hidx (writing_keeps_cell hwriting hcell fun initial he => ?_) hloads
    subst he
    exact hok rfl
  | @again _ idx hidx hkey hloads =>
    refine .again hidx (writing_keeps_key hwriting hkey fun initial he => ?_) hloads
    subst he
    exact hok rfl
  | returned hloads => exact .returned hloads

omit [DecidableEq K] in
/-- The next round, past a cell with another key: it is not the last one. -/
theorem reading_next {idx d : Nat} (hn : n = 2 ^ bits) (hbits : bits ≤ 64)
    (hm : m.sizeMask = n - 1) (hplaced : Placed hash n k v gap m.cells) (hidx : idx < n)
    (hd : d < n) (hcell : m.cells d = ⟨some k, some v⟩) (hother : keysOf m.cells idx ≠ some k)
    (hahead : offset n (home hash n k) idx ≤ offset n (home hash n k) d)
    (hloads : loads ≤ 3 * offset n (home hash n k) idx) :
    ∃ access, nextGet m k (last hash n k) idx = (access, m) ∧
      Reading hash n k v m.cells (loads + 1) (some access) := by
  have hhome := home_lt hash hn k
  have hdkey : keysOf m.cells d = some k := congrArg Cell.key hcell
  have hne : offset n (home hash n k) idx ≠ offset n (home hash n k) d := by
    intro he
    obtain rfl := offset_inj hhome hidx hd he
    exact hother hdkey
  have hreached := hplaced.reached d hd hdkey
  have hlast := offset_of_next (last_lt hash hn k) (next_last hash hn hbits k)
  have hnext : offset n (home hash n k) (next n idx) = offset n (home hash n k) idx + 1 := by
    refine offset_next hhome fun he => ?_
    have hend := offset_of_next hidx he
    omega
  have hnlast : last hash n k ≠ next n idx := by
    intro he
    rw [← he] at hnext
    omega
  refine ⟨.getProbe k (last hash n k) (next n idx), ?_,
    .probe (next_lt hidx) hd hcell (by omega) (by omega)⟩
  rw [nextGet, probe, nextIndex_eq hn hm hidx]
  exact if_neg hnlast

/-- An access of the reader, which does not come to the cell that has been emptied. -/
theorem reading_read (hn : n = 2 ^ bits) (hbits : bits ≤ 64) (hm : m.sizeMask = n - 1)
    (hplaced : Placed hash n k v (hole w) m.cells)
    (hreading : Reading hash n k v m.cells loads (some access))
    (hok : Undisturbed hash n k ⟨m, w, some access, loads⟩ .read)
    (hanswer : access.answer? = none) :
    ∃ access', ConcurrentMap.step hash m access = (access', m) ∧
      Reading hash n k v m.cells (loads + 1) (some access') := by
  have hhome := home_lt hash hn k
  cases hreading with
  | @probe _ idx d hidx hd hcell hahead hloads =>
    cases hkey : (m.cells idx).key with
    | none =>
      -- Such a cell lies before that of the key, so it is the one that has been emptied.
      have hne : offset n (home hash n k) idx ≠ offset n (home hash n k) d := by
        intro heq
        obtain rfl := offset_inj hhome hidx hd heq
        rw [hcell] at hkey
        cases hkey
      exact absurd (hplaced.filled d hd (congrArg Cell.key hcell) idx hidx (by omega) hkey) hok
    | some probedKey =>
      rw [ConcurrentMap.step, hkey]
      by_cases heq : probedKey = k
      · subst heq
        refine ⟨_, if_pos rfl, .value hidx ?_ (by omega)⟩
        -- A cell with the key and not the value would be behind the other one.
        by_contra hnot
        have hlt := hplaced.older idx hidx hkey hnot d hd hcell
        omega
      · have hother : keysOf m.cells idx ≠ some k := fun he =>
          heq (Option.some.inj (hkey.symm.trans he))
        obtain ⟨access', hnext, hreading'⟩ :=
          reading_next hn hbits hm hplaced hidx hd hcell hother hahead hloads
        exact ⟨access', (if_neg heq).trans hnext, hreading'⟩
  | @value _ idx hidx hcell hloads =>
    refine ⟨.getAgain k (last hash n k) idx (some v), ?_,
      .again hidx (congrArg Cell.key hcell) (by omega)⟩
    rw [ConcurrentMap.step, hcell]
  | @again _ idx hidx hkey hloads =>
    have hlt := offset_lt hhome hidx
    exact ⟨_, if_pos hkey, .returned (by omega)⟩
  | returned => cases hanswer

theorem writing_begin (hn : n = 2 ^ bits) {op : Op K V} (h : Kept hash n maxLoad k v m)
    (hop : spares k op = true) :
    Writing hash n maxLoad k v (begin hash m op).1 (begin hash m op).2 ∧
      (begin hash m op).2.cells = m.cells := by
  match op with
  | .assign (some key) (some value) =>
    have hother := of_decide_eq_true hop
    exact ⟨.assignAdd h fun he => hother (congrArg some he), rfl⟩
  | .assign none _ | .assign (some _) none | .erase none => exact ⟨.returned h, rfl⟩
  | .erase (some key) =>
    have hother := of_decide_eq_true hop
    obtain ⟨t, ht, -⟩ := id h
    rw [begin, predecessorIndex_eq hn ht.sizeMask]
    exact ⟨h.nextErase hn (fun he => hother (congrArg some he)) (last_lt hash hn key),
      probe_cells _ _ _ _ _ _⟩
  | .get _ | .clear => cases hop

theorem Sound.step (hn : n = 2 ^ bits) (hbits : bits ≤ 64) (hload : maxLoad < n)
    (h : Sound hash n maxLoad k v s) (hok : Undisturbed hash n k s a)
    (hs : step hash k s a = some s') : Sound hash n maxLoad k v s' := by
  have hplaced := writing_placed h.writing (home_lt hash hn)
  cases a with
  | call op =>
    rw [Readers.step] at hs
    split at hs
    · rename_i hcall
      obtain ⟨hw, hop⟩ := (Bool.and_eq_true _ _).mp hcall
      obtain ⟨hwriting, hcells⟩ := writing_begin hn (h.writing.kept hw) hop
      cases hs
      refine ⟨hwriting, ?_⟩
      show Reading hash n k v (begin hash s.map op).2.cells s.loads s.reader
      rw [hcells]
      exact h.reading
    · cases hs
  | write =>
    rw [Readers.step] at hs
    split at hs
    · cases hs
    · cases hs
      exact ⟨h.writing.step hn hbits hload, reading_write h.writing h.reading hok⟩
  | get =>
    rw [Readers.step] at hs
    split at hs
    · cases hs
    · rename_i hidle
      have hreading := h.reading
      rw [hidle] at hreading
      obtain ⟨access, hbegin, hreading'⟩ := reading_begin hn hbits h.writing.sizeMask hplaced
      rw [hbegin] at hs
      cases hs
      rw [← hreading.not_begun] at hreading'
      exact ⟨h.writing, hreading'⟩
  | read =>
    rw [Readers.step] at hs
    split at hs
    · cases hs
    · rename_i access hreader
      have hreading := h.reading
      rw [hreader] at hreading
      split at hs
      · cases hs
      · rename_i hnot
        have hanswer := Option.not_isSome_iff_eq_none.mp hnot
        have hok' : Undisturbed hash n k ⟨s.map, s.writer, some access, s.loads⟩ .read := by
          rw [← hreader]
          exact hok
        obtain ⟨access', hstep, hreading'⟩ :=
          reading_read hn hbits h.writing.sizeMask hplaced hreading hok' hanswer
        rw [hstep] at hs
        cases hs
        exact ⟨h.writing, hreading'⟩

end steps

end Opsian.Concurrent.Readers
