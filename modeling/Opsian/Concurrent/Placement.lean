import Opsian.Concurrent.Accesses

/-! # Where a key is

While the writer works on other keys, a key that is bound is in one cell, or in two while it
is moved. A reader depends on these cells and the way to them. -/
namespace Opsian.Concurrent.Placement
open Opsian.Lib Opsian.Lib.Probing
open Opsian.Concurrent.ConcurrentMap Opsian.Concurrent.Refinement Opsian.Concurrent.Compaction
open Opsian.Concurrent.FiniteMap Opsian.Concurrent.Accesses

variable {K V : Type}

/-- The cell that was emptied and is not yet filled again. -/
def hole : Access K V → Option Nat
  | .compactProbe _ deleteIndex _ | .compactLoad _ deleteIndex _ _
  | .compactValue _ deleteIndex _ _ _ | .compactKey _ deleteIndex _ _ => some deleteIndex
  | _ => none

/-- The cell that an access writes. -/
def target : Access K V → Option Nat
  | .assignTake _ _ _ idx | .assignStore _ idx | .eraseValue idx | .eraseKey idx => some idx
  | .compactValue _ deleteIndex _ _ _ | .compactKey _ deleteIndex _ _ => some deleteIndex
  | .compactNullValue _ index | .compactNullKey _ index => some index
  | _ => none

/-! ## The cells with a key -/

section placed

variable {hash : K → UInt64} {n i : Nat} {k : K} {v : V} {cells : Nat → Cell K V}
  {cell : Cell K V} {gap gap' : Option Nat}

/-- Some cell has the binding. On the way to any cell with the key there is no empty one but
the open one, and the cells that have the key without the value come behind. -/
structure Placed (hash : K → UInt64) (n : Nat) (k : K) (v : V) (gap : Option Nat)
    (cells : Nat → Cell K V) : Prop where
  complete : ∃ d < n, cells d = ⟨some k, some v⟩
  reached : ∀ i < n, keysOf cells i = some k → offset n (home hash n k) i + 1 < n
  filled : ∀ i < n, keysOf cells i = some k → ∀ j < n,
    offset n (home hash n k) j < offset n (home hash n k) i → keysOf cells j = none →
    gap = some j
  older : ∀ i < n, keysOf cells i = some k → cells i ≠ ⟨some k, some v⟩ →
    ∀ d < n, cells d = ⟨some k, some v⟩ → offset n (home hash n k) d < offset n (home hash n k) i

/-- A cell with other keys, before and after. -/
theorem Placed.update (h : Placed hash n k v gap cells) (hold : keysOf cells i ≠ some k)
    (hnew : cell.key ≠ some k) (hnone : cell.key = none → keysOf cells i = none)
    (hopen : ∀ j, gap = some j → keysOf (Function.update cells i cell) j = none →
      gap' = some j) :
    Placed hash n k v gap' (Function.update cells i cell) := by
  have hkeys : ∀ j, keysOf (Function.update cells i cell) j = some k →
      j ≠ i ∧ keysOf cells j = some k := by
    intro j hkey
    rw [keysOf_update] at hkey
    by_cases hji : j = i
    · subst hji
      rw [Function.update_self] at hkey
      exact absurd hkey hnew
    · rw [Function.update_of_ne hji] at hkey
      exact ⟨hji, hkey⟩
  have hcells : ∀ j, Function.update cells i cell j = ⟨some k, some v⟩ ↔
      cells j = ⟨some k, some v⟩ := by
    intro j
    by_cases hji : j = i
    · subst hji
      rw [Function.update_self]
      exact iff_of_false (fun he => hnew (congrArg Cell.key he))
        fun he => hold (congrArg Cell.key he)
    · rw [Function.update_of_ne hji]
  refine ⟨?_, fun j hj hkey => h.reached j hj (hkeys j hkey).2, ?_, ?_⟩
  · obtain ⟨d, hd, hcell⟩ := h.complete
    exact ⟨d, hd, (hcells d).mpr hcell⟩
  · intro a ha hkey j hj hlt hempty
    refine hopen j (h.filled a ha (hkeys a hkey).2 j hj hlt ?_) hempty
    rw [keysOf_update] at hempty
    by_cases hji : j = i
    · subst hji
      rw [Function.update_self] at hempty
      exact hnone hempty
    · rwa [Function.update_of_ne hji] at hempty
  · intro a ha hkey hnot d hd hcell
    exact h.older a ha (hkeys a hkey).2 (mt (hcells a).mpr hnot) d hd ((hcells d).mp hcell)

/-- The key itself is moved: it is in two cells, whatever the value in the later one. -/
theorem Placed.copied {deleteIndex : Nat} (hd : deleteIndex < n) (hi : i < n)
    (hlt : offset n (home hash n k) deleteIndex < offset n (home hash n k) i)
    (hreached : offset n (home hash n k) i + 1 < n)
    (honce : ∀ j < n, keysOf cells j = some k → j = i)
    (hfilled : ∀ j < n, j ≠ deleteIndex → offset n (home hash n k) j < offset n (home hash n k) i →
      keysOf cells j ≠ none) (value : Option V) :
    Placed hash n k v none (Function.update (Function.update cells deleteIndex ⟨some k, some v⟩) i
      ⟨some k, value⟩) := by
  have hne : deleteIndex ≠ i := by
    rintro rfl
    exact Nat.lt_irrefl _ hlt
  have hkeys : ∀ j < n, keysOf (Function.update (Function.update cells deleteIndex
      ⟨some k, some v⟩) i ⟨some k, value⟩) j = some k → j = deleteIndex ∨ j = i := by
    intro j hj hkey
    by_contra hnot
    obtain ⟨hjd, hji⟩ := not_or.mp hnot
    rw [keysOf_update, Function.update_of_ne hji, keysOf_update, Function.update_of_ne hjd] at hkey
    exact hji (honce j hj hkey)
  have hcell : Function.update (Function.update cells deleteIndex ⟨some k, some v⟩) i
      ⟨some k, value⟩ deleteIndex = ⟨some k, some v⟩ := by
    rw [Function.update_of_ne hne, Function.update_self]
  refine ⟨⟨deleteIndex, hd, hcell⟩, ?_, ?_, ?_⟩
  · intro j hj hkey
    rcases hkeys j hj hkey with rfl | rfl
    · omega
    · exact hreached
  · intro a ha hkey j hj hlt' hnone
    have hji : j ≠ i := by
      rintro rfl
      rw [keysOf_update, Function.update_self] at hnone
      cases hnone
    have hjd : j ≠ deleteIndex := by
      rintro rfl
      rw [keysOf_update, Function.update_of_ne hji, keysOf_update, Function.update_self] at hnone
      cases hnone
    rw [keysOf_update, Function.update_of_ne hji, keysOf_update, Function.update_of_ne hjd] at hnone
    refine absurd hnone (hfilled j hj hjd ?_)
    rcases hkeys a ha hkey with rfl | rfl
    · exact Nat.lt_trans hlt' hlt
    · exact hlt'
  · intro a ha hkey hnot d hd' hcell'
    rcases hkeys a ha hkey with rfl | rfl
    · exact absurd hcell hnot
    · rcases hkeys d hd' (congrArg Cell.key hcell') with rfl | rfl
      · exact hlt
      · exact absurd hcell' hnot

end placed

/-! ## The writer -/

section writer

variable [DecidableEq K] {hash : K → UInt64} {n maxLoad initial deleteIndex index i : Nat}
  {k key : K} {v : V} {m : State K V} {w : Access K V}

theorem kept_placed (h : Kept hash n maxLoad k v m) : Placed hash n k v none m.cells := by
  obtain ⟨t, ht, hk⟩ := h
  refine ⟨(ht.holds.bound k v).mp hk, fun i hi hkey => ht.chained.reached i k hi hkey,
    fun i hi hkey j hj hlt hnone => absurd hnone (ht.chained.filled i k hi hkey j hj hlt), ?_⟩
  intro i hi hkey hnot
  refine absurd ?_ hnot
  have hvalue := (ht.holds.lookup hi hkey).trans hk
  have hkey : (m.cells i).key = some k := hkey
  rw [← hkey, ← hvalue]

theorem closing_placed {hole : Nat} (h : Closing hash n maxLoad k v initial hole index m) :
    Placed hash n k v (some hole) m.cells := by
  obtain ⟨t, ht, hk⟩ := h
  refine ⟨(ht.holds.bound k v).mp hk, fun i hi hkey => ht.holed.reached i k hi hkey, ?_, ?_⟩
  · intro i hi hkey j hj hlt hnone
    by_contra hne
    exact ht.holed.filled i k hi hkey j hj (fun he => hne (congrArg some he.symm)) hlt hnone
  · intro i hi hkey hnot
    refine absurd ?_ hnot
    have hvalue := (ht.holds.lookup hi hkey).trans hk
    have hkey : (m.cells i).key = some k := hkey
    rw [← hkey, ← hvalue]

/-- Behind the compaction there is no empty cell on the way. -/
theorem closing_placed_end (h : Closing hash n maxLoad k v initial deleteIndex index m)
    (hhome : ∀ key, home hash n key < n) (hnone : keysOf m.cells (next n index) = none) :
    Placed hash n k v none m.cells := by
  have hplaced := closing_placed h
  obtain ⟨t, ht, -⟩ := h
  have hchained := ht.holed.chained ht.next.2.1 hnone hhome
  exact ⟨hplaced.complete, hplaced.reached,
    fun i hi hkey j hj hlt hempty => absurd hempty (hchained.filled i k hi hkey j hj hlt),
    hplaced.older⟩

omit [DecidableEq K] in
/-- The key of the hole is set, after its value. -/
theorem filled_cells (m : State K V) (deleteIndex : Nat) (key : K) (value : Option V) :
    ((m.setValue deleteIndex value).setKey deleteIndex (some key)).cells =
      Function.update m.cells deleteIndex ⟨some key, value⟩ :=
  cells_setKey m deleteIndex ⟨some key, value⟩

/-- The key is in both cells, the value in one of them at least. -/
theorem moving_placed_self (h : Moving hash n maxLoad k v initial deleteIndex index k m)
    (hhome : home hash n k < n) (value : Option V) :
    Placed hash n k v none (Function.update (Function.update m.cells deleteIndex
      ⟨some k, some v⟩) (next n index) ⟨some k, value⟩) := by
  obtain ⟨t, ht, -⟩ := h.closing
  have hnext := next_lt ht.index_lt
  have hlt : offset n (home hash n k) deleteIndex < offset n (home hash n k) (next n index) :=
    Nat.lt_of_le_of_ne h.back fun heq =>
      ht.next.2.1 (offset_inj hhome ht.holed.hole_lt hnext heq).symm
  exact .copied ht.holed.hole_lt hnext hlt (ht.holed.reached _ k hnext h.found)
    (fun j hj hkey => ht.holed.once j _ k hj hnext hkey h.found)
    (fun j hj hne hlt => ht.holed.filled _ k hnext h.found j hj hne hlt) value

/-- Another key is in both cells. -/
theorem moving_placed_other (h : Moving hash n maxLoad k v initial deleteIndex index key m)
    (hother : key ≠ k) (value : Option V) :
    Placed hash n k v none (Function.update m.cells deleteIndex ⟨some key, value⟩) := by
  have hnew : some key ≠ some k := fun he => hother (Option.some.inj he)
  refine (closing_placed h.closing).update ?_ hnew (fun he => nomatch he) fun j hj hnone => ?_
  · obtain ⟨t, ht, -⟩ := h.closing
    rw [ht.holed.empty]
    exact nofun
  · rw [← Option.some.inj hj, keysOf_update, Function.update_self] at hnone
    cases hnone

theorem moving_value (h : Moving hash n maxLoad k v initial deleteIndex index k m) :
    (m.cells (next n index)).value = some v := by
  obtain ⟨t, ht, hk⟩ := h.closing
  exact (ht.holds.lookup (next_lt ht.index_lt) h.found).trans hk

/-- The hole is filled, and the old cell as it was. -/
theorem moving_placed_filled (h : Moving hash n maxLoad k v initial deleteIndex index key m)
    (hhome : ∀ key, home hash n key < n) :
    Placed hash n k v none ((m.setValue deleteIndex (m.cells (next n index)).value).setKey
      deleteIndex (some key)).cells := by
  rw [filled_cells]
  by_cases heq : key = k
  · subst heq
    have hself := moving_placed_self h (hhome key) (some v)
    have hcell : (⟨some key, some v⟩ : Cell K V) = Function.update m.cells deleteIndex
        ⟨some key, some v⟩ (next n index) := by
      obtain ⟨t, ht, -⟩ := h.closing
      rw [Function.update_of_ne ht.next.2.1, ← moving_value h, ← h.found]
      rfl
    rw [moving_value h]
    rwa [Function.update_eq_iff.mpr ⟨hcell, fun _ _ => rfl⟩] at hself
  · exact moving_placed_other h heq _

/-- The value of the old cell is nulled. -/
theorem moving_placed_nulled (h : Moving hash n maxLoad k v initial deleteIndex index key m)
    (hhome : ∀ key, home hash n key < n) :
    Placed hash n k v none (((m.setValue deleteIndex (m.cells (next n index)).value).setKey
      deleteIndex (some key)).setValue (next n index) none).cells := by
  obtain ⟨t, ht, -⟩ := h.closing
  have hkey : (Function.update m.cells deleteIndex ⟨some key, (m.cells (next n index)).value⟩
      (next n index)).key = some key := by
    rw [Function.update_of_ne ht.next.2.1]
    exact h.found
  show Placed hash n k v none (Function.update _ (next n index) ⟨Cell.key _, none⟩)
  rw [filled_cells, hkey]
  by_cases heq : key = k
  · subst heq
    rw [moving_value h]
    exact moving_placed_self h (hhome key) none
  · have hother : some key ≠ some k := fun he => heq (Option.some.inj he)
    refine (moving_placed_other h heq _).update (fun he => ?_) hother (fun he => nomatch he) nofun
    exact hother (hkey.symm.trans he)

/-- Wherever the writer is. -/
theorem writing_placed (h : Writing hash n maxLoad k v w m)
    (hhome : ∀ key, home hash n key < n) : Placed hash n k v (hole w) m.cells := by
  cases h with
  | returned h | assignAdd h _ | eraseProbe h _ _ => exact kept_placed h
  | assignLimit h =>
    have hplaced := kept_placed h
    exact hplaced
  | assignProbe h | assignTake h _ =>
    have hplaced := kept_placed h.kept
    exact hplaced
  | assignKnown h | storeKnown h | eraseValue h =>
    have hplaced := kept_placed h.kept
    exact hplaced
  | @storeTaken m key value idx h hnone =>
    have hnew : some key ≠ some k := fun he => h.other (Option.some.inj he)
    refine (kept_placed h.kept).update ?_ hnew (fun he => nomatch he) nofun
    rw [hnone]
    exact nofun
  | @eraseKey m key idx h =>
    have hkey : (m.cells idx).key ≠ some k := by
      rw [show (m.cells idx).key = some key from h.found]
      exact fun he => h.other (Option.some.inj he)
    exact (kept_placed h.kept).update hkey hkey id nofun
  | compactProbe h => exact closing_placed h
  | compactLoad h | compactValue h => exact closing_placed h.closing
  | @compactKey m initial deleteIndex index key h =>
    obtain ⟨t, ht, -⟩ := h.closing
    have hempty : (m.cells deleteIndex).key ≠ some k := by
      rw [show (m.cells deleteIndex).key = none from ht.holed.empty]
      exact nofun
    exact (closing_placed h.closing).update hempty hempty id fun _ hj _ => hj
  | compactNullValue h => exact moving_placed_filled h hhome
  | compactNullKey h => exact moving_placed_nulled h hhome
  | compactEnd h hnone => exact closing_placed_end h hhome hnone

omit [DecidableEq K] in
theorem probe_cells (m : State K V) (p idx : Nat) (cycle : Cycle) (answer : Answer V)
    (access : Nat → Access K V) : (probe m p idx cycle answer access).2.cells = m.cells := by
  rw [probe]
  split <;> rfl

/-- No other cell is written. -/
theorem step_cells (hi : target w ≠ some i) : (step hash m w).2.cells i = m.cells i := by
  have hne {j : Nat} (hj : some j ≠ some i) : i ≠ j := fun he => hj (congrArg some he.symm)
  have hprobe := fun p idx cycle answer access =>
    congrFun (probe_cells m p idx cycle answer access) i
  cases w with
  | assignAdd key value =>
    rw [step]
    split
    · rfl
    · exact congrFun (probe_cells m.fetchAdd _ _ _ _ _) i
  | assignProbe | eraseProbe | getProbe | compactProbe =>
    rw [step]
    split
    · rfl
    · split
      · rfl
      · exact hprobe _ _ _ _ _
  | assignTake key value p idx =>
    rw [step]
    split
    · exact Function.update_of_ne (hne hi) _ _
    · exact hprobe _ _ _ _ _
  | getAgain =>
    rw [step]
    split
    · rfl
    · exact hprobe _ _ _ _ _
  | assignStore | eraseValue | compactValue | compactKey | compactNullValue =>
    exact Function.update_of_ne (hne hi) _ _
  | eraseKey idx | compactNullKey initial idx =>
    exact (congrFun (probe_cells _ _ _ _ _ _) i).trans (Function.update_of_ne (hne hi) _ _)
  | returned | assignLimit | assignKnown | compactLoad | compactEnd | getValue => rfl

omit [DecidableEq K] in
theorem keysOf_setValue (m : State K V) (i : Nat) (value : Option V) :
    keysOf (m.setValue i value).cells = keysOf m.cells :=
  (keysOf_update m.cells i _).trans (Function.update_eq_self i (keysOf m.cells))

omit [DecidableEq K] in
theorem keysOf_setKey (m : State K V) (i : Nat) (key : Option K) :
    keysOf (m.setKey i key).cells = Function.update (keysOf m.cells) i key :=
  keysOf_update m.cells i _

/-- The writer writes no cell with the key, but where it nulls one. -/
theorem writing_target (h : Writing hash n maxLoad k v w m) (hi : target w = some i)
    (hkey : keysOf m.cells i = some k) :
    (∃ initial, w = .compactNullValue initial i) ∨ ∃ initial, w = .compactNullKey initial i := by
  cases h with
  | returned | assignAdd | assignLimit | assignProbe | assignKnown | eraseProbe | compactProbe
  | compactLoad | compactEnd => cases hi
  | assignTake h hnone =>
    cases hi
    cases hnone.symm.trans hkey
  | storeKnown h | eraseValue h =>
    cases hi
    exact absurd (Option.some.inj (h.found.symm.trans hkey)) h.other
  | storeTaken h hnone =>
    cases hi
    rw [keysOf_setKey, Function.update_self] at hkey
    exact absurd (Option.some.inj hkey) h.other
  | eraseKey h =>
    cases hi
    rw [keysOf_setValue] at hkey
    exact absurd (Option.some.inj (h.found.symm.trans hkey)) h.other
  | compactValue h =>
    cases hi
    obtain ⟨t, ht, -⟩ := h.closing
    cases ht.holed.empty.symm.trans hkey
  | compactKey h =>
    cases hi
    obtain ⟨t, ht, -⟩ := h.closing
    rw [keysOf_setValue] at hkey
    cases ht.holed.empty.symm.trans hkey
  | compactNullValue h =>
    cases hi
    exact .inl ⟨_, rfl⟩
  | compactNullKey h =>
    cases hi
    exact .inr ⟨_, rfl⟩

/-- Where the value is nulled in a cell with the key, one other cell, before it, has got both. -/
theorem writing_copy (h : Writing hash n maxLoad k v (.compactNullValue initial i) m)
    (hkey : keysOf m.cells i = some k) :
    ∃ d < n, d ≠ i ∧ m.cells d = ⟨some k, some v⟩ ∧
      offset n (home hash n k) d ≤ offset n (home hash n k) i ∧
      ∀ j < n, keysOf m.cells j = some k → j = d ∨ j = i := by
  generalize hw : Access.compactNullValue initial i = w at h
  cases h with
  | @compactNullValue m initial' deleteIndex index key h =>
    cases hw
    obtain ⟨t, ht, -⟩ := id h.closing
    rw [filled_cells, keysOf_update, Function.update_of_ne ht.next.2.1, h.found] at hkey
    obtain rfl := Option.some.inj hkey
    refine ⟨deleteIndex, ht.holed.hole_lt, ht.next.2.1.symm, ?_, h.back, fun j hj hjkey => ?_⟩
    · rw [filled_cells, Function.update_self, moving_value h]
    · by_cases hjd : j = deleteIndex
      · exact .inl hjd
      · rw [filled_cells, keysOf_update, Function.update_of_ne hjd] at hjkey
        exact .inr (ht.holed.once j _ key hj (next_lt ht.index_lt) hjkey h.found)
  | _ => cases hw

/-- The cell that was emptied has no key. -/
theorem writing_hole (h : Writing hash n maxLoad k v w m) (hw : hole w = some i) :
    keysOf m.cells i = none := by
  cases h with
  | compactProbe h =>
    cases hw
    obtain ⟨t, ht, -⟩ := h
    exact ht.holed.empty
  | compactLoad h | compactValue h =>
    cases hw
    obtain ⟨t, ht, -⟩ := h.closing
    exact ht.holed.empty
  | compactKey h =>
    cases hw
    obtain ⟨t, ht, -⟩ := h.closing
    exact (congrFun (keysOf_setValue _ _ _) _).trans ht.holed.empty
  | _ => cases hw

/-- The value is nulled before the key. -/
theorem writing_nulled (h : Writing hash n maxLoad k v (.compactNullKey initial i) m) :
    (m.cells i).value = none := by
  generalize hw : Access.compactNullKey initial i = w at h
  cases h with
  | compactNullKey h =>
    cases hw
    simp [State.setValue]
  | _ => cases hw

/-- A cell with the binding stays, unless its value is nulled. -/
theorem writing_keeps_cell (h : Writing hash n maxLoad k v w m)
    (hcell : m.cells i = ⟨some k, some v⟩) (hnot : ∀ initial, w ≠ .compactNullValue initial i) :
    (step hash m w).2.cells i = ⟨some k, some v⟩ := by
  have htarget : target w ≠ some i := by
    intro hi
    rcases writing_target h hi (congrArg Cell.key hcell) with ⟨initial, hw⟩ | ⟨initial, rfl⟩
    · exact hnot initial hw
    · have hvalue := writing_nulled h
      rw [hcell] at hvalue
      cases hvalue
  rw [step_cells htarget, hcell]

/-- A cell with the key keeps it, unless it is nulled. -/
theorem writing_keeps_key (h : Writing hash n maxLoad k v w m) (hkey : keysOf m.cells i = some k)
    (hnot : ∀ initial, w ≠ .compactNullKey initial i) :
    keysOf (step hash m w).2.cells i = some k := by
  by_cases htarget : target w = some i
  · rcases writing_target h htarget hkey with ⟨initial, rfl⟩ | ⟨initial, hw⟩
    · exact (congrFun (keysOf_setValue m i none) i).trans hkey
    · exact absurd hw (hnot initial)
  · exact (congrArg Cell.key (step_cells htarget)).trans hkey

end writer

end Opsian.Concurrent.Placement
