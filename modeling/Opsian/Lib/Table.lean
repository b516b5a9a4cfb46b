import Mathlib.Data.List.AList

/-! # Tables of distinct keys

Hash maps as association lists without a key twice, the newest entry first.
An injective table gives every value to one key at most; it stays so under an
insertion of a value it does not have. -/
namespace Opsian.Lib

abbrev Table (κ ν : Type) : Type := AList fun _ : κ => ν

namespace Table

variable {κ ν : Type} {t : Table κ ν} {k a b : κ} {v w : ν}

def size (t : Table κ ν) : Nat := t.entries.length

theorem size_empty : size (∅ : Table κ ν) = 0 := rfl

theorem eq_empty_of_size (h : size t = 0) : t = ∅ :=
  AList.ext (List.length_eq_zero_iff.mp h)

variable [DecidableEq κ]

/-- `insert` of the standard maps: a key that is there keeps its value. -/
def emplace (k : κ) (v : ν) (t : Table κ ν) : Table κ ν := if k ∈ t then t else t.insert k v

/-- No value has two keys. -/
def Injective (t : Table κ ν) : Prop :=
  ∀ a b v, t.lookup a = some v → t.lookup b = some v → a = b

theorem emplace_of_mem (h : k ∈ t) : t.emplace k v = t := if_pos h

theorem emplace_of_not_mem (h : k ∉ t) : t.emplace k v = t.insert k v := if_neg h

theorem lookup_emplace_ne (h : a ≠ k) : (t.emplace k v).lookup a = t.lookup a := by
  unfold emplace
  split
  · rfl
  · exact AList.lookup_insert_ne h

theorem mem_of_lookup (h : t.lookup k = some v) : k ∈ t := by
  rw [← AList.lookup_isSome, h]; rfl

theorem lookup_of_mem (h : k ∈ t) : ∃ v, t.lookup k = some v :=
  Option.isSome_iff_exists.mp (AList.lookup_isSome.mpr h)

/-- What an insertion can be asked for: the new entry, or an old one. -/
theorem lookup_insert_cases (h : (t.insert k v).lookup a = some w) :
    (a = k ∧ w = v) ∨ (a ≠ k ∧ t.lookup a = some w) := by
  by_cases ha : a = k
  · subst ha
    rw [AList.lookup_insert] at h
    exact .inl ⟨rfl, (Option.some.inj h).symm⟩
  · rw [AList.lookup_insert_ne ha] at h
    exact .inr ⟨ha, h⟩

theorem lookup_emplace_cases (h : (t.emplace k v).lookup a = some w) :
    (a = k ∧ w = v) ∨ t.lookup a = some w := by
  unfold emplace at h
  split at h
  · exact .inr h
  · exact (lookup_insert_cases h).imp_right And.right

theorem size_insert (h : k ∉ t) : size (t.insert k v) = size t + 1 := by
  rw [size, AList.entries_insert_of_notMem h, List.length_cons, size]

theorem size_erase (h : k ∈ t) : size (t.erase k) + 1 = size t := by
  have hlength := List.length_erase_of_mem (show k ∈ t.keys from h)
  have hpos := List.length_pos_of_mem (show k ∈ t.keys from h)
  rw [← AList.keys_erase] at hlength
  simp only [AList.keys, List.keys, List.length_map] at hlength hpos
  unfold size
  omega

/-- A key that is there is bound anew. -/
theorem size_insert_mem (h : k ∈ t) : size (t.insert k v) = size t := by
  rw [← size_erase h]
  rfl

theorem erase_of_not_mem (h : k ∉ t) : t.erase k = t :=
  AList.ext (List.kerase_of_notMem_keys h)

/-- Taking back a new entry restores the table. -/
theorem erase_insert (h : k ∉ t) : (t.insert k v).erase k = t := by
  refine AList.ext ?_
  show List.kerase k (t.insert k v).entries = t.entries
  rw [AList.entries_insert_of_notMem h]
  exact List.kerase_cons_eq rfl

theorem injective_empty : Injective (∅ : Table κ ν) := by
  intro a b v ha
  rw [AList.lookup_empty] at ha; cases ha

theorem Injective.insert (h : Injective t) (hnew : ∀ a, t.lookup a ≠ some v) :
    Injective (t.insert k v) := by
  intro a b w ha hb
  rcases lookup_insert_cases ha with ⟨rfl, rfl⟩ | ⟨-, hold⟩
  · rcases lookup_insert_cases hb with ⟨rfl, -⟩ | ⟨-, hold⟩
    · rfl
    · exact absurd hold (hnew b)
  · rcases lookup_insert_cases hb with ⟨rfl, rfl⟩ | ⟨-, hold'⟩
    · exact absurd hold (hnew a)
    · exact h a b w hold hold'

end Table

end Opsian.Lib
