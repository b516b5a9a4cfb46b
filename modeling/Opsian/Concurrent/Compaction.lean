import Opsian.Concurrent.Refinement

/-! # Compaction

`compactChain` moves the keys behind a deleted cell back, until it gets to an empty cell.
Then the map represents the finite map without the erased key. -/
namespace Opsian.Concurrent.Compaction
open Opsian.Lib Opsian.Lib.Probing
open Opsian.Concurrent.ConcurrentMap Opsian.Concurrent.Refinement

variable {K V : Type} [DecidableEq K] {hash : K → UInt64} {n bits maxLoad : Nat}
  {m : State K V} {t : Table K V} {initial hole index : Nat} {moved : K}

/-- What is left to compact behind the index. Some empty cell, other than the hole, stops
it before it is back at the first deleted cell. -/
structure Compacting (hash : K → UInt64) (n maxLoad initial hole index : Nat) (m : State K V)
    (t : Table K V) : Prop where
  sizeMask : m.sizeMask = n - 1
  load : m.maxLoad = maxLoad
  size : m.size = t.size + 1
  occupied : occupied n (keysOf m.cells) + 1 = m.size
  full : m.size ≤ maxLoad
  initial_lt : initial < n
  index_lt : index < n
  behind : offset n initial hole ≤ offset n initial index
  holed : Holed n (home hash n) (keysOf m.cells) hole (next n index)
  holds : Holds n m.cells t
  ends : ∃ e < n, e ≠ hole ∧ keysOf m.cells e = none ∧ offset n initial index < offset n initial e
  cycles : ∀ cycle ∈ m.cycles, cycle = .get ∨ cycle = .erase

/-- The next cell is not the first deleted one, nor the hole. -/
theorem Compacting.next (h : Compacting hash n maxLoad initial hole index m t) :
    next n index ≠ initial ∧ next n index ≠ hole ∧
      offset n initial (next n index) = offset n initial index + 1 := by
  obtain ⟨e, he, -, -, hlt⟩ := h.ends
  have hin := offset_lt h.initial_lt he
  have hinitial : Probing.next n index ≠ initial := by
    intro hnext
    have hend := offset_of_next h.index_lt hnext
    omega
  have hoffset := offset_next h.initial_lt hinitial
  refine ⟨hinitial, fun hhole => ?_, hoffset⟩
  have hbehind := h.behind
  rw [← hhole] at hbehind
  omega

/-- An empty cell behind the next one, where that one has a key. -/
theorem Compacting.ends_next (h : Compacting hash n maxLoad initial hole index m t)
    (hkey : keysOf m.cells (Probing.next n index) = some moved) :
    ∃ e < n, e ≠ hole ∧ e ≠ Probing.next n index ∧ keysOf m.cells e = none ∧
      offset n initial (Probing.next n index) < offset n initial e := by
  obtain ⟨e, he, hhole, hnone, hlt⟩ := h.ends
  have hne : e ≠ Probing.next n index := by
    rintro rfl
    rw [hkey] at hnone
    cases hnone
  refine ⟨e, he, hhole, hne, hnone, ?_⟩
  have hoffset := h.next.2.2
  have hdiffer : offset n initial e ≠ offset n initial (Probing.next n index) := fun heq =>
    hne (offset_inj h.initial_lt he (next_lt h.index_lt) heq)
  omega

/-- The key of the next cell stays there. -/
theorem Compacting.skip (h : Compacting hash n maxLoad initial hole index m t)
    (hkey : keysOf m.cells (Probing.next n index) = some moved)
    (hstay : offset n (home hash n moved) (Probing.next n index) <
      offset n (home hash n moved) hole) :
    Compacting hash n maxLoad initial hole (Probing.next n index) m t where
  sizeMask := h.sizeMask
  load := h.load
  size := h.size
  occupied := h.occupied
  full := h.full
  initial_lt := h.initial_lt
  index_lt := next_lt h.index_lt
  behind := by
    have hbehind := h.behind
    have hoffset := h.next.2.2
    omega
  holed := h.holed.skip hkey hstay
  holds := h.holds
  ends := by
    obtain ⟨e, he, hhole, -, hnone, hlt⟩ := h.ends_next hkey
    exact ⟨e, he, hhole, hnone, hlt⟩
  cycles := h.cycles

/-! ## One round -/

/-- The state behind the move of a cell to the hole. -/
def moveCell (m : State K V) (hole index : Nat) (key : K) : State K V :=
  (((m.setValue hole (m.cells index).value).setKey hole (some key)).setValue index none).setKey
    index none

omit [DecidableEq K] in
theorem moveCell_cells (m : State K V) (hole index : Nat) (key : K) :
    (moveCell m hole index key).cells = Function.update
      (Function.update m.cells hole ⟨some key, (m.cells index).value⟩) index ⟨none, none⟩ := by
  have hhole := cells_setKey m hole ⟨some key, (m.cells index).value⟩
  refine (cells_setKey _ index ⟨none, none⟩).trans ?_
  rw [hhole]

omit [DecidableEq K] in
theorem keysOf_moveCell (m : State K V) (hole index : Nat) (key : K) :
    keysOf (moveCell m hole index key).cells =
      Function.update (Function.update (keysOf m.cells) hole (some key)) index none := by
  rw [moveCell_cells, keysOf_update, keysOf_update]

/-- The key of the next cell is moved. -/
theorem Compacting.move (h : Compacting hash n maxLoad initial hole index m t)
    (hn : n = 2 ^ bits) (hkey : keysOf m.cells (Probing.next n index) = some moved)
    (hmove : offset n (home hash n moved) hole ≤
      offset n (home hash n moved) (Probing.next n index)) :
    Compacting hash n maxLoad initial (Probing.next n index) (Probing.next n index)
      (moveCell m hole (Probing.next n index) moved) t := by
  have hcells := moveCell_cells m hole (Probing.next n index) moved
  have hkeys := keysOf_moveCell m hole (Probing.next n index) moved
  have hne := h.next.2.1
  have honce : ∀ j < n, keysOf m.cells j = some moved → j = Probing.next n index :=
    fun j hj hjkey => h.holed.once j _ moved hj (next_lt h.index_lt) hjkey hkey
  refine ⟨h.sizeMask, h.load, h.size, ?_, h.full, h.initial_lt, next_lt h.index_lt, Nat.le_refl _,
    ?_, ?_, ?_, h.cycles⟩
  · have hfill := occupied_update_some h.holed.hole_lt h.holed.empty moved
    have hkept : Function.update (keysOf m.cells) hole (some moved) (Probing.next n index) =
        some moved := by rw [Function.update_of_ne hne, hkey]
    have hempty := occupied_update_none (next_lt h.index_lt) hkept
    have hoccupied := h.occupied
    rw [hkeys]
    show _ = m.size
    omega
  · rw [hkeys]
    exact h.holed.move hne hkey hmove (home_lt hash hn moved)
  · rw [hcells]
    exact h.holds.move (next_lt h.index_lt) h.holed.hole_lt hne.symm honce hkey h.holed.empty
  · obtain ⟨e, he, hhole, hnext, hnone, hlt⟩ := h.ends_next hkey
    refine ⟨e, he, hnext, ?_, hlt⟩
    rw [hkeys, Function.update_of_ne hnext, Function.update_of_ne hhole]
    exact hnone

/-- An empty cell ends it. -/
theorem Compacting.done (h : Compacting hash n maxLoad initial hole index m t) (hn : n = 2 ^ bits)
    (hnone : keysOf m.cells (Probing.next n index) = none) :
    Represents hash n maxLoad m.fetchSub t where
  sizeMask := h.sizeMask
  load := h.load
  size := by
    show m.size - 1 = t.size
    rw [h.size]
    rfl
  occupied := by
    show _ = m.size - 1
    rw [← h.occupied]
    rfl
  full := Nat.le_trans (Nat.sub_le _ _) h.full
  chained := h.holed.chained h.next.2.1 hnone fun k => home_lt hash hn k
  holds := h.holds
  cycles := h.cycles

omit [DecidableEq K] in
theorem moves_iff (hash : K → UInt64) (hn : n = 2 ^ bits) (hm : m.sizeMask = n - 1)
    (hhole : hole < n) (hindex : index < n) (key : K) :
    moves (homeIndex hash m key) hole index = true ↔
      offset n (home hash n key) hole ≤ offset n (home hash n key) index := by
  rw [offset_le_iff (home_lt hash hn key) hhole hindex, homeIndex_eq hn hm, moves]
  simp only [Bool.or_eq_true, Bool.and_eq_true, decide_eq_true_eq]

/-! ## The loop -/

theorem reaches_move (hkey : keysOf m.cells index = some moved)
    (hmoves : moves (homeIndex hash m moved) hole index = true) :
    Reaches hash 6 (.compactProbe initial hole index, m)
      (nextCompact (moveCell m hole index moved) initial index index) := by
  have hprobe : step hash m (.compactProbe initial hole index) =
      (.compactLoad initial hole index moved, m) := by
    rw [step, show (m.cells index).key = some moved from hkey]
    exact if_pos hmoves
  refine Reaches.next hprobe ?_
  exact .step (.step (.step (.step (.step (.refl _ _)))))

theorem reaches_skip (hkey : keysOf m.cells index = some moved)
    (hstay : ¬ moves (homeIndex hash m moved) hole index = true) :
    Reaches hash 1 (.compactProbe initial hole index, m) (nextCompact m initial hole index) := by
  have hprobe : step hash m (.compactProbe initial hole index) =
      nextCompact m initial hole index := by
    rw [step, show (m.cells index).key = some moved from hkey]
    exact if_neg hstay
  refine Reaches.next hprobe ?_
  exact .refl _ _

theorem reaches_end (hnone : keysOf m.cells index = none) :
    Reaches hash 2 (.compactProbe initial hole index, m) (.returned (.done true), m.fetchSub) := by
  have hprobe : step hash m (.compactProbe initial hole index) = (.compactEnd, m) := by
    rw [step, show (m.cells index).key = none from hnone]
  refine Reaches.next hprobe ?_
  exact .step (.refl _ _)

theorem Compacting.probe (h : Compacting hash n maxLoad initial hole index m t)
    (hn : n = 2 ^ bits) :
    nextCompact m initial hole index = (.compactProbe initial hole (Probing.next n index), m) := by
  rw [nextCompact, ConcurrentMap.probe, nextIndex_eq hn h.sizeMask h.index_lt]
  exact if_neg h.next.1.symm

/-- By induction on the cells that are left. -/
theorem compact_reaches (hn : n = 2 ^ bits)
    (h : Compacting hash n maxLoad initial hole index m t) :
    ∃ m', Reaches hash (6 * (n - offset n initial index)) (nextCompact m initial hole index)
        (.returned (.done true), m') ∧ Represents hash n maxLoad m' t := by
  induction hd : n - offset n initial index generalizing hole index m with
  | zero =>
    have hin := offset_lt h.initial_lt h.index_lt
    omega
  | succ d ih =>
    have hoffset := h.next.2.2
    rw [h.probe hn]
    cases hkey : keysOf m.cells (Probing.next n index) with
    | none => exact ⟨_, (reaches_end hkey).mono (by omega), h.done hn hkey⟩
    | some moved =>
      have hiff := moves_iff hash hn h.sizeMask h.holed.hole_lt (next_lt h.index_lt) moved
      by_cases hmoves : moves (homeIndex hash m moved) hole (Probing.next n index) = true
      · obtain ⟨m', hr, hm'⟩ := ih (h.move hn hkey (hiff.mp hmoves)) (by omega)
        exact ⟨m', ((reaches_move hkey hmoves).trans hr).mono (by omega), hm'⟩
      · have hstay := Nat.lt_of_not_le (mt hiff.mpr hmoves)
        obtain ⟨m', hr, hm'⟩ := ih (h.skip hkey hstay) (by omega)
        exact ⟨m', ((reaches_skip hkey hmoves).trans hr).mono (by omega), hm'⟩

end Opsian.Concurrent.Compaction
