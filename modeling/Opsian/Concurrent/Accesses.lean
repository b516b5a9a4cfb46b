import Opsian.Concurrent.FiniteMap

/-! # Between two accesses

At every access of `assign` and `erase` the map is one that represents a finite map, or one
that is being compacted, but for the accesses that the call has already done to it. -/
namespace Opsian.Concurrent.Accesses
open Opsian.Lib Opsian.Lib.Probing
open Opsian.Concurrent.ConcurrentMap Opsian.Concurrent.Refinement Opsian.Concurrent.Compaction
open Opsian.Concurrent.FiniteMap

variable {K V : Type} [DecidableEq K]

section

variable (hash : K → UInt64) (n maxLoad : Nat) (k : K) (v : V)

/-- A finite map with the binding is represented. -/
def Kept (m : State K V) : Prop := ∃ t, Represents hash n maxLoad m t ∧ t.lookup k = some v

/-- One with the binding will be, when the cells behind the index are compacted. -/
def Closing (initial hole index : Nat) (m : State K V) : Prop :=
  ∃ t, Compacting hash n maxLoad initial hole index m t ∧ t.lookup k = some v

/-- Another key is searched for. -/
structure Searching (key : K) (idx : Nat) (m : State K V) : Prop where
  kept : Kept hash n maxLoad k v m
  other : key ≠ k
  room : m.size < maxLoad
  ahead : Ahead n (home hash n) (keysOf m.cells) key idx

/-- Another key is found. -/
structure Found (key : K) (idx : Nat) (m : State K V) : Prop where
  kept : Kept hash n maxLoad k v m
  other : key ≠ k
  lt : idx < n
  found : keysOf m.cells idx = some key

/-- A key is to be moved to the hole. -/
structure Moving (initial hole index : Nat) (key : K) (m : State K V) : Prop where
  closing : Closing hash n maxLoad k v initial hole index m
  found : keysOf m.cells (next n index) = some key
  back : offset n (home hash n key) hole ≤ offset n (home hash n key) (next n index)

/-- The points of calls on other keys. -/
inductive Writing : Access K V → State K V → Prop
  | returned {m answer} (h : Kept hash n maxLoad k v m) : Writing (.returned answer) m
  | assignAdd {m key value} (h : Kept hash n maxLoad k v m) (hother : key ≠ k) :
    Writing (.assignAdd key value) m
  | assignLimit {m} (h : Kept hash n maxLoad k v m) : Writing .assignLimit m.fetchAdd
  | assignProbe {m key value idx} (h : Searching hash n maxLoad k v key idx m) :
    Writing (.assignProbe key value (last hash n key) idx) m.fetchAdd
  | assignTake {m key value idx} (h : Searching hash n maxLoad k v key idx m)
    (hnone : keysOf m.cells idx = none) :
    Writing (.assignTake key value (last hash n key) idx) m.fetchAdd
  | assignKnown {m key value idx} (h : Found hash n maxLoad k v key idx m) :
    Writing (.assignKnown value idx) m.fetchAdd
  | storeKnown {m key value idx} (h : Found hash n maxLoad k v key idx m) :
    Writing (.assignStore value idx) m.fetchAdd.fetchSub
  | storeTaken {m key value idx} (h : Searching hash n maxLoad k v key idx m)
    (hnone : keysOf m.cells idx = none) :
    Writing (.assignStore value idx) (m.fetchAdd.setKey idx (some key))
  | eraseProbe {m key idx} (h : Kept hash n maxLoad k v m) (hother : key ≠ k) (hidx : idx < n) :
    Writing (.eraseProbe key (last hash n key) idx) m
  | eraseValue {m key idx} (h : Found hash n maxLoad k v key idx m) : Writing (.eraseValue idx) m
  | eraseKey {m key idx} (h : Found hash n maxLoad k v key idx m) :
    Writing (.eraseKey idx) (m.setValue idx none)
  | compactProbe {m initial hole index} (h : Closing hash n maxLoad k v initial hole index m) :
    Writing (.compactProbe initial hole (next n index)) m
  | compactLoad {m initial hole index key}
    (h : Moving hash n maxLoad k v initial hole index key m) :
    Writing (.compactLoad initial hole (next n index) key) m
  | compactValue {m initial hole index key}
    (h : Moving hash n maxLoad k v initial hole index key m) :
    Writing (.compactValue initial hole (next n index) key (m.cells (next n index)).value) m
  | compactKey {m initial hole index key} (h : Moving hash n maxLoad k v initial hole index key m) :
    Writing (.compactKey initial hole (next n index) key)
      (m.setValue hole (m.cells (next n index)).value)
  | compactNullValue {m initial hole index key}
    (h : Moving hash n maxLoad k v initial hole index key m) :
    Writing (.compactNullValue initial (next n index))
      ((m.setValue hole (m.cells (next n index)).value).setKey hole (some key))
  | compactNullKey {m initial hole index key}
    (h : Moving hash n maxLoad k v initial hole index key m) :
    Writing (.compactNullKey initial (next n index))
      (((m.setValue hole (m.cells (next n index)).value).setKey hole (some key)).setValue
        (next n index) none)
  | compactEnd {m initial hole index} (h : Closing hash n maxLoad k v initial hole index m)
    (hnone : keysOf m.cells (next n index) = none) : Writing .compactEnd m

end

/-! ## One access -/

section step

variable {hash : K → UInt64} {n bits maxLoad initial hole index idx : Nat} {k key : K} {v : V}
  {m : State K V} {w : Access K V}

/-- The load limit leaves a cell empty, apart from any other. -/
theorem Kept.not_elsewhere (h : Kept hash n maxLoad k v m) (hload : maxLoad < n)
    (hroom : m.size < maxLoad) : ¬ Elsewhere hash n m key := by
  intro helse
  obtain ⟨t, ht, -⟩ := h
  have hoccupied := ht.occupied
  obtain ⟨j, hj, hjlast, hnone⟩ : ∃ j < n, j ≠ last hash n key ∧ keysOf m.cells j = none :=
    exists_empty_ne (by omega) _
  exact (helse j hj hjlast).1 hnone

theorem Closing.nextCompact (h : Closing hash n maxLoad k v initial hole index m)
    (hn : n = 2 ^ bits) :
    Writing hash n maxLoad k v (ConcurrentMap.nextCompact m initial hole index).1
      (ConcurrentMap.nextCompact m initial hole index).2 := by
  obtain ⟨t, ht, hk⟩ := h
  rw [ht.probe hn]
  exact .compactProbe ⟨t, ht, hk⟩

theorem Kept.nextErase (h : Kept hash n maxLoad k v m) (hn : n = 2 ^ bits) (hother : key ≠ k)
    (hidx : idx < n) :
    Writing hash n maxLoad k v (ConcurrentMap.nextErase m key (last hash n key) idx).1
      (ConcurrentMap.nextErase m key (last hash n key) idx).2 := by
  obtain ⟨t, ht, hk⟩ := h
  rw [ConcurrentMap.nextErase, probe, nextIndex_eq hn ht.sizeMask hidx]
  split
  · exact .returned ⟨t, ht.log (.inr rfl), hk⟩
  · exact .eraseProbe ⟨t, ht, hk⟩ hother (next_lt hidx)

theorem Found.storeKnown (h : Found hash n maxLoad k v key idx m) (value : V) :
    Kept hash n maxLoad k v (m.fetchAdd.fetchSub.setValue idx (some value)) := by
  obtain ⟨t, ht, hk⟩ := h.kept
  refine ⟨_, ht.known h.lt h.found value, ?_⟩
  rw [AList.lookup_insert_ne h.other.symm]
  exact hk

theorem Searching.storeTaken (h : Searching hash n maxLoad k v key idx m) (hn : n = 2 ^ bits)
    (hnone : keysOf m.cells idx = none) (value : V) :
    Kept hash n maxLoad k v ((m.fetchAdd.setKey idx (some key)).setValue idx (some value)) := by
  obtain ⟨t, ht, hk⟩ := h.kept
  refine ⟨_, ht.taken hn h.ahead hnone h.room value, ?_⟩
  rw [AList.lookup_insert_ne h.other.symm]
  exact hk

theorem Found.eraseKey (h : Found hash n maxLoad k v key idx m) (hload : maxLoad < n) :
    Closing hash n maxLoad k v idx idx idx ((m.setValue idx none).setKey idx none) := by
  obtain ⟨t, ht, hk⟩ := h.kept
  refine ⟨_, compacting_erase hload ht h.lt h.found, ?_⟩
  rw [AList.lookup_erase_ne h.other.symm]
  exact hk

theorem Moving.moved (h : Moving hash n maxLoad k v initial hole index key m) (hn : n = 2 ^ bits) :
    Closing hash n maxLoad k v initial (next n index) (next n index)
      (moveCell m hole (next n index) key) := by
  obtain ⟨t, ht, hk⟩ := h.closing
  exact ⟨t, ht.move hn h.found h.back, hk⟩

theorem Kept.assignAdd (h : Kept hash n maxLoad k v m) (hn : n = 2 ^ bits) (hbits : bits ≤ 64)
    (hload : maxLoad < n) (hother : key ≠ k) (value : V) :
    Writing hash n maxLoad k v (step hash m (.assignAdd key value)).1
      (step hash m (.assignAdd key value)).2 := by
  obtain ⟨t, ht, hk⟩ := id h
  rw [ConcurrentMap.step, ht.load]
  split
  · exact .assignLimit h
  · rename_i hroom
    have hroom := Nat.lt_of_not_le hroom
    rw [predecessorIndex_eq hn ht.sizeMask, nextAssign]
    rcases probe_first key .assign (.done false) (.assignProbe key value (last hash n key)) hn
      hbits (show m.fetchAdd.sizeMask = n - 1 from ht.sizeMask) with ⟨helse, -⟩ | ⟨ha, hprobe⟩
    · exact absurd helse (h.not_elsewhere hload hroom)
    · rw [hprobe]
      exact .assignProbe ⟨h, hother, hroom, ha⟩

/-- The search goes on, as some cell is empty. -/
theorem Searching.assignProbe (h : Searching hash n maxLoad k v key idx m) (hn : n = 2 ^ bits)
    (hbits : bits ≤ 64) (hload : maxLoad < n) (value : V) :
    Writing hash n maxLoad k v
      (step hash m.fetchAdd (.assignProbe key value (last hash n key) idx)).1
      (step hash m.fetchAdd (.assignProbe key value (last hash n key) idx)).2 := by
  cases hkey : keysOf m.cells idx with
  | none =>
    rw [ConcurrentMap.step, show (m.fetchAdd.cells idx).key = none from hkey]
    exact .assignTake h hkey
  | some probedKey =>
    rw [ConcurrentMap.step, show (m.fetchAdd.cells idx).key = some probedKey from hkey]
    dsimp only
    split
    · rename_i heq
      exact .assignKnown ⟨h.kept, h.other, h.ahead.lt, heq ▸ hkey⟩
    · rename_i hne
      obtain ⟨t, ht, hk⟩ := id h.kept
      have hnot : keysOf m.cells idx ≠ none ∧ keysOf m.cells idx ≠ some key := by
        rw [hkey]
        exact ⟨Option.some_ne_none _, fun he => hne (Option.some.inj he)⟩
      rw [nextAssign]
      rcases probe_of_ahead .assign (.done false) (.assignProbe key value (last hash n key)) hn
        hbits (show m.fetchAdd.sizeMask = n - 1 from ht.sizeMask) h.ahead hnot with
        ⟨helse, -⟩ | ⟨ha, -, hprobe⟩
      · exact absurd helse (h.kept.not_elsewhere hload h.room)
      · rw [hprobe]
        exact .assignProbe ⟨h.kept, h.other, h.room, ha⟩

/-- The compaction goes on, until it gets to an empty cell. -/
theorem Closing.compactProbe (h : Closing hash n maxLoad k v initial hole index m)
    (hn : n = 2 ^ bits) :
    Writing hash n maxLoad k v (step hash m (.compactProbe initial hole (next n index))).1
      (step hash m (.compactProbe initial hole (next n index))).2 := by
  obtain ⟨t, ht, hk⟩ := id h
  rw [ConcurrentMap.step]
  split
  · rename_i hnone
    exact .compactEnd h hnone
  · rename_i key hkey
    have hiff := moves_iff hash hn ht.sizeMask ht.holed.hole_lt (next_lt ht.index_lt) key
    split
    · rename_i hmoves
      exact .compactLoad ⟨h, hkey, hiff.mp hmoves⟩
    · rename_i hstay
      have hskip := ht.skip hkey (Nat.lt_of_not_le (mt hiff.mpr hstay))
      exact Closing.nextCompact ⟨t, hskip, hk⟩ hn

/-- What an access leaves, by the access. -/
theorem Writing.step (hn : n = 2 ^ bits) (hbits : bits ≤ 64) (hload : maxLoad < n)
    (h : Writing hash n maxLoad k v w m) :
    Writing hash n maxLoad k v (step hash m w).1 (step hash m w).2 := by
  cases h with
  | returned h => exact .returned h
  | assignAdd h hother => exact h.assignAdd hn hbits hload hother _
  | assignLimit h => exact .returned h
  | assignProbe h => exact h.assignProbe hn hbits hload _
  | @assignTake m key value idx h hnone =>
    rw [ConcurrentMap.step, show (m.fetchAdd.cells idx).key = none from hnone]
    exact .storeTaken h hnone
  | assignKnown h => exact .storeKnown h
  | @storeKnown m key value idx h => exact .returned (h.storeKnown value)
  | @storeTaken m key value idx h hnone => exact .returned (h.storeTaken hn hnone value)
  | @eraseProbe m key idx h hother hidx =>
    rw [ConcurrentMap.step]
    split
    · exact .returned h
    · rename_i probedKey hkey
      split
      · rename_i heq
        exact .eraseValue ⟨h, hother, hidx, heq ▸ hkey⟩
      · exact h.nextErase hn hother hidx
  | eraseValue h => exact .eraseKey h
  | eraseKey h => exact (h.eraseKey hload).nextCompact hn
  | compactProbe h => exact Closing.compactProbe h hn
  | compactLoad h => exact .compactValue h
  | compactValue h => exact .compactKey h
  | compactKey h => exact .compactNullValue h
  | compactNullValue h => exact .compactNullKey h
  | compactNullKey h => exact (h.moved hn).nextCompact hn
  | compactEnd h hnone =>
    obtain ⟨t, ht, hk⟩ := h
    exact .returned ⟨t, ht.done hn hnone, hk⟩

theorem Writing.sizeMask (h : Writing hash n maxLoad k v w m) : m.sizeMask = n - 1 := by
  cases h with
  | returned h | assignAdd h _ | assignLimit h | eraseProbe h _ _ =>
    obtain ⟨t, ht, -⟩ := h
    exact ht.sizeMask
  | assignProbe h | assignTake h _ | storeTaken h _ =>
    obtain ⟨t, ht, -⟩ := h.kept
    exact ht.sizeMask
  | assignKnown h | storeKnown h | eraseValue h | eraseKey h =>
    obtain ⟨t, ht, -⟩ := h.kept
    exact ht.sizeMask
  | compactProbe h | compactEnd h _ =>
    obtain ⟨t, ht, -⟩ := h
    exact ht.sizeMask
  | compactLoad h | compactValue h | compactKey h | compactNullValue h | compactNullKey h =>
    obtain ⟨t, ht, -⟩ := h.closing
    exact ht.sizeMask

/-- Between two calls. -/
theorem Writing.kept (h : Writing hash n maxLoad k v w m) (hw : w.answer?.isSome) :
    Kept hash n maxLoad k v m := by
  cases h with
  | returned h => exact h
  | _ => cases hw

end step

end Opsian.Concurrent.Accesses
