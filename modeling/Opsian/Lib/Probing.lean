import Mathlib.Data.List.Range
import Mathlib.Data.Nat.Bitwise
import Mathlib.Logic.Function.Basic

/-! # Open addressing

Keys in a ring of cells, each at or behind its home, with no empty cell on the way. Taking
a key out leaves a hole, which the cells behind it are moved back into one by one until an
empty cell ends the chain. -/
namespace Opsian.Lib.Probing

/-- How far a cell is behind another one, in a ring of so many. -/
def offset (n a b : Nat) : Nat := if a ≤ b then b - a else b + n - a

def next (n i : Nat) : Nat := if i + 1 = n then 0 else i + 1

/-! ## Offsets -/

section offset

variable {n a b c d : Nat}

theorem offset_lt (ha : a < n) (hb : b < n) : offset n a b < n := by
  unfold offset
  split <;> omega

theorem offset_self (n a : Nat) : offset n a a = 0 := by simp [offset]

theorem offset_inj (ha : a < n) (hb : b < n) (hc : c < n) (h : offset n a b = offset n a c) :
    b = c := by
  unfold offset at h
  split_ifs at h <;> omega

theorem next_lt (ha : a < n) : next n a < n := by
  unfold next
  split <;> omega

theorem next_eq_mod (ha : a < n) : next n a = (a + 1) % n := by
  unfold next
  split
  · rename_i hend
    rw [hend, Nat.mod_self]
  · exact (Nat.mod_eq_of_lt (by omega)).symm

theorem offset_next (ha : a < n) (h : next n b ≠ a) :
    offset n a (next n b) = offset n a b + 1 := by
  unfold next at *
  unfold offset
  split_ifs at h ⊢ <;> omega

theorem offset_of_next (hb : b < n) (h : next n b = a) : offset n a b + 1 = n := by
  subst h
  unfold offset next
  split_ifs <;> omega

theorem offset_next_self (n a : Nat) : offset n a (next n a) ≤ 1 := by
  unfold offset next
  split_ifs <;> omega

/-- The cyclic comparison: `b` comes no later than `c` on the way from `a`. -/
theorem offset_le_iff (ha : a < n) (hb : b < n) (hc : c < n) :
    offset n a b ≤ offset n a c ↔ (c < a ∧ (a ≤ b ∨ b ≤ c)) ∨ (a ≤ b ∧ b ≤ c) := by
  unfold offset
  split_ifs <;> omega

/-- Of three cells, the way from the first to the last passes the second, or the way from
the second to the last passes the first. -/
theorem offset_between (ha : a < n) (hb : b < n) (hc : c < n)
    (hbc : offset n a b < offset n a c) (hd' : offset n b d < offset n b c) :
    offset n a d < offset n a c := by
  unfold offset at *
  split_ifs at * <;> omega

end offset

/-! ## Chains -/

section chains

variable {K : Type} {n : Nat} {home : K → Nat} {keys : Nat → Option K} {hole index i j : Nat}
  {k : K}

/-- No key is in two cells, no empty cell lies between a key's home and its cell, and no key
is in the cell before its home. -/
structure Chained (n : Nat) (home : K → Nat) (keys : Nat → Option K) : Prop where
  once : ∀ i j k, i < n → j < n → keys i = some k → keys j = some k → i = j
  filled : ∀ i k, i < n → keys i = some k → ∀ j < n,
    offset n (home k) j < offset n (home k) i → keys j ≠ none
  reached : ∀ i k, i < n → keys i = some k → offset n (home k) i + 1 < n

/-- The same but for one hole. No key from there up to the index has the hole on its way. -/
structure Holed (n : Nat) (home : K → Nat) (keys : Nat → Option K) (hole index : Nat) : Prop where
  hole_lt : hole < n
  index_lt : index < n
  empty : keys hole = none
  once : ∀ i j k, i < n → j < n → keys i = some k → keys j = some k → i = j
  filled : ∀ i k, i < n → keys i = some k → ∀ j < n, j ≠ hole →
    offset n (home k) j < offset n (home k) i → keys j ≠ none
  reached : ∀ i k, i < n → keys i = some k → offset n (home k) i + 1 < n
  settled : ∀ i k, i < n → keys i = some k → offset n hole i < offset n hole index →
    offset n (home k) i < offset n (home k) hole

theorem chained_of_empty (h : ∀ i < n, keys i = none) : Chained n home keys where
  once i j k hi hj hkey := by rw [h i hi] at hkey; cases hkey
  filled i k hi hkey := by rw [h i hi] at hkey; cases hkey
  reached i k hi hkey := by rw [h i hi] at hkey; cases hkey

/-- A search for a key has got to a cell, through cells that have other keys. -/
structure Ahead (n : Nat) (home : K → Nat) (keys : Nat → Option K) (k : K) (i : Nat) : Prop where
  lt : i < n
  inside : offset n (home k) i + 1 < n
  before : ∀ j < n, offset n (home k) j < offset n (home k) i → keys j ≠ none ∧ keys j ≠ some k

theorem ahead_home (hn : 1 < n) (hhome : home k < n) : Ahead n home keys k (home k) := by
  refine ⟨hhome, ?_, fun j _ hlt => ?_⟩
  · rw [offset_self]
    omega
  · rw [offset_self] at hlt
    cases hlt

/-- It goes on to the next cell, unless that is the one before the home. -/
theorem Ahead.next {last : Nat} (h : Ahead n home keys k i)
    (hother : keys i ≠ none ∧ keys i ≠ some k) (hhome : home k < n) (hlast : last < n)
    (hnext : next n last = home k) :
    (next n i = last ∧ ∀ j < n, j ≠ last → keys j ≠ none ∧ keys j ≠ some k) ∨
      (next n i ≠ last ∧ Ahead n home keys k (next n i) ∧
        offset n (home k) (next n i) = offset n (home k) i + 1) := by
  have hne : Probing.next n i ≠ home k := by
    intro he
    have hi := offset_of_next h.lt he
    have := h.inside
    omega
  have hoffset := offset_next hhome hne
  have hbefore {j : Nat} (hj : j < n) (hlt : offset n (home k) j < offset n (home k) i + 1) :
      keys j ≠ none ∧ keys j ≠ some k := by
    rcases Nat.lt_succ_iff_lt_or_eq.mp hlt with hlt | heq
    · exact h.before j hj hlt
    · obtain rfl := offset_inj hhome hj h.lt heq
      exact hother
  have hlastOffset := offset_of_next hlast hnext
  by_cases hi : Probing.next n i = last
  · refine .inl ⟨hi, fun j hj hjl => hbefore hj ?_⟩
    have hlt := offset_lt hhome hj
    have hjne : offset n (home k) j ≠ offset n (home k) last := fun heq =>
      hjl (offset_inj hhome hj hlast heq)
    rw [hi] at hoffset
    omega
  · refine .inr ⟨hi, ⟨next_lt h.lt, ?_, fun j hj hlt => hbefore hj (hoffset ▸ hlt)⟩, hoffset⟩
    have hlt := offset_lt hhome (next_lt h.lt)
    have hine : offset n (home k) (Probing.next n i) ≠ offset n (home k) last := fun heq =>
      hi (offset_inj hhome (next_lt h.lt) hlast heq)
    omega

/-- An empty cell on a key's way ends the search for it. -/
theorem Chained.absent (h : Chained n home keys) (ha : Ahead n home keys k j)
    (hnone : keys j = none) (hhome : home k < n) (hi : i < n) : keys i ≠ some k := by
  intro hkey
  rcases Nat.lt_trichotomy (offset n (home k) i) (offset n (home k) j) with hlt | heq | hgt
  · exact (ha.before i hi hlt).2 hkey
  · obtain rfl := offset_inj hhome hi ha.lt heq
    rw [hkey] at hnone
    cases hnone
  · exact h.filled i k hi hkey j ha.lt hgt hnone

/-- A new key goes into the first empty cell on its way. -/
theorem Chained.insert (h : Chained n home keys) (ha : Ahead n home keys k i)
    (hnew : ∀ j < n, keys j ≠ some k) : Chained n home (Function.update keys i (some k)) where
  once a b x ha' hb hxa hxb := by
    by_cases hai : a = i
    · subst hai
      obtain rfl : k = x := by simpa using hxa
      by_contra hne
      rw [Function.update_of_ne (Ne.symm hne)] at hxb
      exact hnew b hb hxb
    · rw [Function.update_of_ne hai] at hxa
      by_cases hbi : b = i
      · subst hbi
        obtain rfl : k = x := by simpa using hxb
        exact absurd hxa (hnew a ha')
      · rw [Function.update_of_ne hbi] at hxb
        exact h.once a b x ha' hb hxa hxb
  filled a x ha' hxa b hb hlt := by
    by_cases hbi : b = i
    · subst hbi
      simp
    · rw [Function.update_of_ne hbi]
      by_cases hai : a = i
      · subst hai
        obtain rfl : k = x := by simpa using hxa
        exact (ha.before b hb hlt).1
      · rw [Function.update_of_ne hai] at hxa
        exact h.filled a x ha' hxa b hb hlt
  reached a x ha' hxa := by
    by_cases hai : a = i
    · subst hai
      obtain rfl : k = x := by simpa using hxa
      exact ha.inside
    · rw [Function.update_of_ne hai] at hxa
      exact h.reached a x ha' hxa

theorem ne_of_update_none (h : Function.update keys i none j = some k) : j ≠ i := by
  rintro rfl
  simp at h

/-- Taking out a key leaves a hole. -/
theorem Chained.erase (h : Chained n home keys) (hi : i < n) :
    Holed n home (Function.update keys i none) i (next n i) where
  hole_lt := hi
  index_lt := next_lt hi
  empty := Function.update_self i none keys
  once a b x ha hb hxa hxb := by
    rw [Function.update_of_ne (ne_of_update_none hxa)] at hxa
    rw [Function.update_of_ne (ne_of_update_none hxb)] at hxb
    exact h.once a b x ha hb hxa hxb
  filled a x ha hxa b hb hne hlt := by
    rw [Function.update_of_ne (ne_of_update_none hxa)] at hxa
    rw [Function.update_of_ne hne]
    exact h.filled a x ha hxa b hb hlt
  reached a x ha hxa := by
    rw [Function.update_of_ne (ne_of_update_none hxa)] at hxa
    exact h.reached a x ha hxa
  settled a x ha hxa hlt := by
    have hself := offset_next_self n i
    have hzero : offset n i a = offset n i i := by rw [offset_self]; omega
    exact absurd (offset_inj hi ha hi hzero) (ne_of_update_none hxa)

/-- A key that has no use for the hole stays. -/
theorem Holed.skip (h : Holed n home keys hole index) (hkey : keys index = some k)
    (hstay : offset n (home k) index < offset n (home k) hole) :
    Holed n home keys hole (next n index) where
  hole_lt := h.hole_lt
  index_lt := next_lt h.index_lt
  empty := h.empty
  once := h.once
  filled := h.filled
  reached := h.reached
  settled a x ha hxa hlt := by
    by_cases hend : next n index = hole
    · rw [hend, offset_self] at hlt
      cases hlt
    · rw [offset_next h.hole_lt hend] at hlt
      rcases Nat.lt_succ_iff_lt_or_eq.mp hlt with hlt | heq
      · exact h.settled a x ha hxa hlt
      · obtain rfl := offset_inj h.hole_lt ha h.index_lt heq
        rw [hkey] at hxa
        obtain rfl := Option.some.inj hxa
        exact hstay

/-- A key that has the hole on its way is moved there, and leaves a hole itself. -/
theorem Holed.move (h : Holed n home keys hole index) (hne : index ≠ hole)
    (hkey : keys index = some k) (hmove : offset n (home k) hole ≤ offset n (home k) index)
    (hhome : home k < n) :
    Holed n home (Function.update (Function.update keys hole (some k)) index none) index
      (next n index) := by
  have hlt : offset n (home k) hole < offset n (home k) index :=
    Nat.lt_of_le_of_ne hmove fun heq => hne (offset_inj hhome h.hole_lt h.index_lt heq).symm
  -- A key is where it was, or is the one that was moved.
  have hcases {a : Nat} {x : K}
      (hxa : Function.update (Function.update keys hole (some k)) index none a = some x) :
      a ≠ index ∧ ((a = hole ∧ x = k) ∨ (a ≠ hole ∧ keys a = some x)) := by
    have hai := ne_of_update_none hxa
    rw [Function.update_of_ne hai] at hxa
    by_cases hah : a = hole
    · subst hah
      exact ⟨hai, .inl ⟨rfl, by simpa using hxa.symm⟩⟩
    · rw [Function.update_of_ne hah] at hxa
      exact ⟨hai, .inr ⟨hah, hxa⟩⟩
  refine ⟨h.index_lt, next_lt h.index_lt, Function.update_self _ _ _, ?_, ?_, ?_, ?_⟩
  · intro a b x ha hb hxa hxb
    obtain ⟨hai, ⟨rfl, rfl⟩ | ⟨-, hxa'⟩⟩ := hcases hxa
    · obtain ⟨hbi, ⟨rfl, -⟩ | ⟨-, hxb'⟩⟩ := hcases hxb
      · rfl
      · exact absurd (h.once b index _ hb h.index_lt hxb' hkey) hbi
    · obtain ⟨hbi, ⟨rfl, rfl⟩ | ⟨-, hxb'⟩⟩ := hcases hxb
      · exact absurd (h.once a index _ ha h.index_lt hxa' hkey) hai
      · exact h.once a b x ha hb hxa' hxb'
  · intro a x ha hxa b hb hbi hba
    rw [Function.update_of_ne hbi]
    by_cases hbh : b = hole
    · subst hbh
      simp
    · rw [Function.update_of_ne hbh]
      obtain ⟨hai, ⟨rfl, rfl⟩ | ⟨hah, hxa⟩⟩ := hcases hxa
      · exact h.filled index _ h.index_lt hkey b hb hbh (Nat.lt_trans hba hlt)
      · exact h.filled a x ha hxa b hb hbh hba
  · intro a x ha hxa
    obtain ⟨hai, ⟨rfl, rfl⟩ | ⟨hah, hxa⟩⟩ := hcases hxa
    · have := h.reached index _ h.index_lt hkey
      omega
    · exact h.reached a x ha hxa
  · intro a x ha hxa hlt
    have hself := offset_next_self n index
    have hzero : offset n index a = offset n index index := by rw [offset_self]; omega
    exact absurd (offset_inj h.index_lt ha h.index_lt hzero) (hcases hxa).1

/-- An empty cell ends the chain: no key behind it has the hole on its way. -/
theorem Holed.chained (h : Holed n home keys hole index) (hne : index ≠ hole)
    (hnone : keys index = none) (hhome : ∀ k, home k < n) : Chained n home keys := by
  refine ⟨h.once, fun a x ha hxa b hb hlt => ?_, h.reached⟩
  by_cases hbh : b = hole
  · subst hbh
    rcases Nat.lt_trichotomy (offset n b a) (offset n b index) with hbefore | heq | hbehind
    · have := h.settled a x ha hxa hbefore
      omega
    · obtain rfl := offset_inj h.hole_lt ha h.index_lt heq
      rw [hxa] at hnone
      cases hnone
    · have hway := offset_between (hhome x) hb ha hlt hbehind
      exact absurd hnone (h.filled a x ha hxa index h.index_lt hne hway)
  · exact h.filled a x ha hxa b hb hbh hlt

end chains

/-! ## Occupied cells -/

section occupied

variable {K : Type} {n : Nat} {keys : Nat → Option K} {i : Nat} {k : K}

def occupied (n : Nat) (keys : Nat → Option K) : Nat :=
  (List.range n).countP fun i => (keys i).isSome

theorem occupied_succ (n : Nat) (keys : Nat → Option K) :
    occupied (n + 1) keys = occupied n keys + if (keys n).isSome then 1 else 0 := by
  simp [occupied, List.range_succ, List.countP_append, List.countP_cons]

theorem occupied_congr {K' : Type} {keys' : Nat → Option K'}
    (h : ∀ i < n, (keys i).isSome = (keys' i).isSome) : occupied n keys = occupied n keys' := by
  unfold occupied
  exact List.countP_congr fun i hi => by rw [h i (List.mem_range.mp hi)]

theorem occupied_of_empty (h : ∀ i < n, keys i = none) : occupied n keys = 0 := by
  refine List.countP_eq_zero.mpr fun i hi => ?_
  rw [h i (List.mem_range.mp hi)]
  exact Bool.false_ne_true

theorem occupied_update_some (hi : i < n) (hnone : keys i = none) (k : K) :
    occupied n (Function.update keys i (some k)) = occupied n keys + 1 := by
  induction n with
  | zero => cases hi
  | succ n ih =>
    rw [occupied_succ, occupied_succ]
    by_cases hn : i = n
    · subst hn
      have hrest : occupied i (Function.update keys i (some k)) = occupied i keys :=
        occupied_congr fun j hj => by rw [Function.update_of_ne (Nat.ne_of_lt hj)]
      simp [hrest, hnone]
    · rw [ih (by omega), Function.update_of_ne (Ne.symm hn)]
      omega

theorem occupied_update_none (hi : i < n) (hkey : keys i = some k) :
    occupied n (Function.update keys i none) + 1 = occupied n keys := by
  have hback := occupied_update_some hi (Function.update_self i none keys) k
  rw [Function.update_idem, ← hkey, Function.update_eq_self] at hback
  exact hback.symm

theorem exists_empty (h : occupied n keys < n) : ∃ i < n, keys i = none := by
  by_contra hnone
  have hall : ∀ i ∈ List.range n, (keys i).isSome = true := fun i hi => by
    rw [Option.isSome_iff_ne_none]
    exact fun he => hnone ⟨i, List.mem_range.mp hi, he⟩
  have hcount : occupied n keys = n := by
    rw [occupied, List.countP_eq_length.mpr hall, List.length_range]
  omega

/-- Where two cells are empty, one of them is not the given one. -/
theorem exists_empty_ne (h : occupied n keys + 1 < n) (i : Nat) :
    ∃ j < n, j ≠ i ∧ keys j = none := by
  by_cases hi : i < n ∧ keys i = none
  · -- The given one is filled in for the count.
    let units (j : Nat) : Option Unit := (keys j).map fun _ => ()
    have hunits : occupied n units = occupied n keys :=
      occupied_congr fun j _ => by simp [units]
    have hnone : units i = none := by simp [units, hi.2]
    have hfilled := occupied_update_some hi.1 hnone ()
    obtain ⟨j, hj, hnone⟩ : ∃ j < n, Function.update units i (some ()) j = none :=
      exists_empty (by omega)
    have hne : j ≠ i := by
      rintro rfl
      simp at hnone
    rw [Function.update_of_ne hne] at hnone
    exact ⟨j, hj, hne, Option.map_eq_none_iff.mp hnone⟩
  · obtain ⟨j, hj, hnone⟩ : ∃ j < n, keys j = none := exists_empty (by omega)
    exact ⟨j, hj, fun he => hi (he ▸ ⟨hj, hnone⟩), hnone⟩

end occupied

end Opsian.Lib.Probing
