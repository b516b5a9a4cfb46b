/-! # Association lists with repeated keys

`List.lookup` answers with the first entry of a key. A list whose entries never
contradict each other answers every entry's key with that entry's value. -/
namespace Opsian.Lib.Assoc

variable {κ ν : Type} [BEq κ] [LawfulBEq κ] {l l' : List (κ × ν)} {k a : κ} {v w : ν}

/-- No key has two values. -/
def Functional (l : List (κ × ν)) : Prop :=
  ∀ k v w, (k, v) ∈ l → (k, w) ∈ l → v = w

theorem mem_of_lookup (h : l.lookup k = some v) : (k, v) ∈ l := by
  obtain ⟨front, back, rfl, -⟩ := List.lookup_eq_some_iff.mp h
  exact List.mem_append_right _ (List.mem_cons_self ..)

theorem lookup_of_mem (h : (k, v) ∈ l) : ∃ w, l.lookup k = some w := by
  cases hl : l.lookup k with
  | some w => exact ⟨w, rfl⟩
  | none =>
    have hne := List.lookup_eq_none_iff.mp hl (k, v) h
    simp at hne

/-- Nothing contradicts: the first entry of a key stands for all of them. -/
theorem functional_iff_lookup : Functional l ↔ ∀ p ∈ l, l.lookup p.1 = some p.2 := by
  constructor
  · rintro h ⟨k, v⟩ hp
    obtain ⟨w, hw⟩ := lookup_of_mem hp
    rw [hw, h k v w hp (mem_of_lookup hw)]
  · intro h k v w hv hw
    exact Option.some.inj ((h (k, v) hv).symm.trans (h (k, w) hw))

omit [BEq κ] [LawfulBEq κ] in
theorem functional_nil : Functional ([] : List (κ × ν)) := by
  intro k v w h; cases h

omit [LawfulBEq κ] in
theorem lookup_append_of_some (h : l.lookup k = some v) : (l ++ l').lookup k = some v := by
  rw [List.lookup_append, h]; rfl

theorem lookup_concat_of_none (h : l.lookup k = none) : (l ++ [(k, v)]).lookup k = some v := by
  rw [List.lookup_append, h, Option.none_or, List.lookup_cons_self]

theorem lookup_concat_cases (h : (l ++ [(a, v)]).lookup k = some w) :
    l.lookup k = some w ∨ (k = a ∧ w = v) := by
  rw [List.lookup_append] at h
  cases hl : l.lookup k with
  | some x => rw [hl] at h; exact .inl h
  | none =>
    rw [hl, Option.none_or, List.lookup_cons] at h
    split at h
    · rename_i hk
      exact .inr ⟨eq_of_beq hk, (Option.some.inj h).symm⟩
    · cases h

/-- What is added to consistent entries has to agree with them and with itself. -/
theorem functional_append_iff (h : Functional l) :
    Functional (l ++ l') ↔ ∀ p ∈ l', (l ++ l').lookup p.1 = some p.2 := by
  rw [functional_iff_lookup]
  constructor
  · intro hall p hp
    exact hall p (List.mem_append_right _ hp)
  · intro hnew p hp
    rcases List.mem_append.mp hp with hp | hp
    · exact lookup_append_of_some (functional_iff_lookup.mp h p hp)
    · exact hnew p hp

theorem lookup_cons_ne (h : k ≠ a) : ((a, v) :: l).lookup k = l.lookup k := by
  rw [List.lookup_cons, beq_eq_false_iff_ne.mpr h]

/-- Other keys, that are as many, and other values. -/
theorem lookup_map {μ ρ : Type} [BEq μ] [LawfulBEq μ] {f : κ → μ} (hf : Function.Injective f)
    (g : ν → ρ) (l : List (κ × ν)) (k : κ) :
    (l.map fun e => (f e.1, g e.2)).lookup (f k) = (l.lookup k).map g := by
  induction l with
  | nil => rfl
  | cons e l ih =>
    by_cases hk : k = e.1
    · subst hk
      rw [List.map_cons, List.lookup_cons_self, List.lookup_cons_self]
      rfl
    · rw [List.map_cons, lookup_cons_ne (hf.ne hk), lookup_cons_ne hk, ih]

end Opsian.Lib.Assoc
