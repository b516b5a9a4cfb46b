import Mathlib.Data.List.Infix

/-! # Tables of prefixes

Words are sorted into classes by how they begin. Where no prefix of the table begins
another, a word has one class at most. -/
namespace Opsian.Lib.PrefixTable

variable {α β γ : Type*} [DecidableEq α]

/-- No prefix begins another. -/
def PrefixFree (table : List (List α × β)) : Prop :=
  table.Pairwise fun r r' => ¬ r.1 <+: r'.1 ∧ ¬ r'.1 <+: r.1

instance (table : List (List α × β)) : Decidable (PrefixFree table) :=
  inferInstanceAs (Decidable (List.Pairwise ..))

/-- The class of the first prefix that begins the word. -/
def classOf (table : List (List α × β)) (word : List α) : Option β :=
  (table.find? fun r => r.1.isPrefixOf word).map Prod.snd

variable {table : List (List α × β)} {pre word : List α} {b : β}

theorem classOf_cons (r : List α × β) (table : List (List α × β)) (word : List α) :
    classOf (r :: table) word = if r.1 <+: word then some r.2 else classOf table word := by
  unfold classOf
  rw [List.find?_cons]
  by_cases h : r.1 <+: word
  · rw [if_pos h, List.isPrefixOf_iff_prefix.mpr h]
    rfl
  · rw [if_neg h, Bool.eq_false_iff.mpr fun hp => h (List.isPrefixOf_iff_prefix.mp hp)]

/-- Two prefixes of one word would begin one another. -/
theorem classOf_of_mem (h : PrefixFree table) (hr : (pre, b) ∈ table) (hword : pre <+: word) :
    classOf table word = some b := by
  induction table with
  | nil => cases hr
  | cons r table ih =>
    obtain ⟨hfirst, hrest⟩ := List.pairwise_cons.mp h
    rw [classOf_cons]
    rcases List.mem_cons.mp hr with rfl | hr
    · rw [if_pos hword]
    · rw [if_neg fun hp => ?_]
      · exact ih hrest hr
      · exact (List.prefix_or_prefix_of_prefix hp hword).elim (hfirst _ hr).1 (hfirst _ hr).2

/-- A class is kept or left out as a whole. -/
theorem filter_of_class {l : List γ} {key : γ → List α}
    (h : ∀ x ∈ l, classOf table (key x) = some b) (ok : β → Bool) :
    l.filter (fun x => (classOf table (key x)).all ok) = if ok b then l else [] := by
  have hok : ∀ x ∈ l, (classOf table (key x)).all ok = ok b := fun x hx => by rw [h x hx]; rfl
  rw [List.filter_congr hok]
  cases ok b <;> simp

end Opsian.Lib.PrefixTable
