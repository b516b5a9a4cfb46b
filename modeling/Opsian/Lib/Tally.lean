import Mathlib.Algebra.BigOperators.Group.Finset.Piecewise

/-! # Tallies

A table with one row for each key, to which amounts are added. What the rows hold of a key,
summed up, is what was added for it. -/
namespace Opsian.Lib.Tally

variable {κ : Type u} {M : Type v} [DecidableEq κ] [AddCommMonoid M]

/-- The sum of the amounts of a key. -/
def amountFor (k : κ) (entries : List (κ × M)) : M :=
  ((entries.filter fun entry => entry.1 = k).map Prod.snd).sum

/-- Add to the row of a key, or begin a row for it. -/
def add (table : List (κ × M)) (k : κ) (m : M) : List (κ × M) :=
  if k ∈ table.map Prod.fst then
    table.map fun row => if row.1 = k then (row.1, row.2 + m) else row
  else table ++ [(k, 0 + m)]

variable {table : List (κ × M)} {k a : κ} {m : M}

theorem amountFor_append (k : κ) (entries entries' : List (κ × M)) :
    amountFor k (entries ++ entries') = amountFor k entries + amountFor k entries' := by
  rw [amountFor, List.filter_append, List.map_append, List.sum_append]
  rfl

theorem amountFor_cons (k : κ) (entry : κ × M) (entries : List (κ × M)) :
    amountFor k (entry :: entries) = amountFor k [entry] + amountFor k entries :=
  amountFor_append k [entry] entries

theorem amountFor_singleton (k a : κ) (m : M) : amountFor k [(a, m)] = if a = k then m else 0 := by
  by_cases h : a = k <;> simp [amountFor, h]

/-- What adds up to the same for each key adds up to the same. -/
theorem sum_congr {entries entries' : List (κ × M)}
    (h : ∀ k, amountFor k entries = amountFor k entries') :
    (entries.map Prod.snd).sum = (entries'.map Prod.snd).sum := by
  have hkeys (keys : Finset κ) (l : List (κ × M)) (hl : ∀ entry ∈ l, entry.1 ∈ keys) :
      ∑ k ∈ keys, amountFor k l = (l.map Prod.snd).sum := by
    induction l with
    | nil => simp [amountFor]
    | cons entry l ih =>
      obtain ⟨a, m⟩ := entry
      have hsum : ∑ k ∈ keys, amountFor k [(a, m)] = m := by
        simp only [amountFor_singleton]
        exact (Finset.sum_ite_eq keys a fun _ => m).trans (if_pos (hl (a, m) (.head _)))
      simp only [amountFor_cons _ (a, m) l, Finset.sum_add_distrib, hsum,
        ih fun entry he => hl entry (.tail _ he), List.map_cons, List.sum_cons]
  let keys := ((entries ++ entries').map Prod.fst).toFinset
  have hmem (entry : κ × M) (he : entry ∈ entries ++ entries') : entry.1 ∈ keys :=
    List.mem_toFinset.mpr (List.mem_map_of_mem he)
  rw [← hkeys keys entries fun entry he => hmem entry (List.mem_append_left _ he),
    ← hkeys keys entries' fun entry he => hmem entry (List.mem_append_right _ he)]
  exact Finset.sum_congr rfl fun k _ => h k

/-- The row of a key that the table has gets the amount, and no other row does. -/
theorem amountFor_map (k : κ) (h : (table.map Prod.fst).Nodup) (ha : a ∈ table.map Prod.fst) :
    amountFor k (table.map fun row => if row.1 = a then (row.1, row.2 + m) else row) =
      amountFor k table + amountFor k [(a, m)] := by
  induction table with
  | nil => cases ha
  | cons row table ih =>
    obtain ⟨b, n⟩ := row
    rw [List.map_cons, List.nodup_cons] at h
    rw [List.map_cons, amountFor_cons k _ (List.map _ table), amountFor_cons k (b, n) table]
    by_cases hb : b = a
    · subst hb
      have hrest :
          (table.map fun row => if row.1 = b then (row.1, row.2 + m) else row) = table := by
        refine (List.map_congr_left fun row hrow => if_neg fun he => ?_).trans (List.map_id table)
        exact h.1 (List.mem_map.mpr ⟨row, hrow, he⟩)
      rw [if_pos rfl, hrest]
      simp only [amountFor_singleton]
      split
      · rw [add_right_comm]
      · rw [add_zero]
    · rw [if_neg hb, ih h.2 ?_, add_assoc]
      rcases List.mem_cons.mp ha with he | ha
      · exact absurd he.symm hb
      · exact ha

theorem amountFor_add (k : κ) (h : (table.map Prod.fst).Nodup) :
    amountFor k (add table a m) = amountFor k table + amountFor k [(a, m)] := by
  unfold add
  split
  · rename_i ha
    exact amountFor_map k h ha
  · rw [amountFor_append, zero_add]

theorem nodup_add (h : (table.map Prod.fst).Nodup) : ((add table a m).map Prod.fst).Nodup := by
  unfold add
  split
  · have hkeys : (table.map fun row => if row.1 = a then (row.1, row.2 + m) else row).map
        Prod.fst = table.map Prod.fst := by
      rw [List.map_map]
      refine List.map_congr_left fun row _ => ?_
      simp only [Function.comp]
      split <;> rfl
    rw [hkeys]
    exact h
  · rename_i ha
    rw [List.map_append]
    refine List.nodup_append.mpr ⟨h, by simp, fun k hk b hb he => ?_⟩
    obtain rfl : b = a := List.mem_singleton.mp hb
    rw [he] at hk
    exact ha hk

end Opsian.Lib.Tally
