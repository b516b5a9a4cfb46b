import Mathlib.Data.List.Infix

/-! # Occurrences of a word in a text

The pieces of a text are what is left of it between the occurrences of a word, where
each of them is the leftmost one behind the occurrence before it. -/
namespace Opsian.Lib.Pieces

variable {α : Type} {search s p rest : List α} {i : Nat}

/-- The word stands behind `p` in the text, and nowhere before. -/
structure Leftmost (search s p rest : List α) : Prop where
  eq : s = p ++ (search ++ rest)
  first : ∀ j < p.length, ¬ search <+: s.drop j

/-- The pieces of a text, without the word between them. -/
inductive Splits (search : List α) : List α → List (List α) → Prop
  | last {s : List α} (h : ∀ j, ¬ search <+: s.drop j) : Splits search s [s]
  | piece {s p rest : List α} {ps : List (List α)} (h : Leftmost search s p rest)
      (hrest : Splits search rest ps) : Splits search s (p :: ps)

/-- The leftmost occurrence is only one. -/
theorem Leftmost.unique {p' rest' : List α} (h : Leftmost search s p rest)
    (h' : Leftmost search s p' rest') : p = p' ∧ rest = rest' := by
  have hleads {q r : List α} (hq : Leftmost search s q r) : search <+: s.drop q.length := by
    rw [hq.eq, List.drop_left]
    exact List.prefix_append _ _
  have hlength : p.length = p'.length := by
    rcases Nat.lt_trichotomy p.length p'.length with hlt | heq | hgt
    · exact absurd (hleads h) (h'.first _ hlt)
    · exact heq
    · exact absurd (hleads h') (h.first _ hgt)
  obtain ⟨hp, hrest⟩ := List.append_inj (h.eq.symm.trans h'.eq) hlength
  exact ⟨hp, List.append_cancel_left hrest⟩

/-- A text has its pieces in one way only. -/
theorem Splits.unique {ps ps' : List (List α)} (h : Splits search s ps)
    (h' : Splits search s ps') : ps = ps' := by
  have hnot {t q r : List α} (hno : ∀ j, ¬ search <+: t.drop j) (hq : Leftmost search t q r) :
      False := by
    refine hno q.length ?_
    rw [hq.eq, List.drop_left]
    exact List.prefix_append _ _
  induction h generalizing ps' with
  | last hno =>
    cases h' with
    | last _ => rfl
    | piece hp _ => exact absurd hp (hnot hno)
  | piece hp hrest ih =>
    cases h' with
    | last hno => exact absurd hp (hnot hno)
    | piece hp' hrest' =>
      obtain ⟨rfl, rfl⟩ := hp.unique hp'
      rw [ih hrest']

/-! ## Searching -/

variable [DecidableEq α]

/-- The first position from which the word stands in the text. -/
def find (search : List α) : List α → Option Nat
  | [] => if search = [] then some 0 else none
  | a :: s => if search <+: a :: s then some 0 else (find search s).map (· + 1)

theorem find_eq_none : find search s = none ↔ ∀ j, ¬ search <+: s.drop j := by
  induction s with
  | nil =>
    simp [find]
  | cons a s ih =>
    rw [find]
    by_cases h : search <+: a :: s
    · rw [if_pos h]
      exact ⟨nofun, fun hno => absurd h (hno 0)⟩
    · rw [if_neg h, Option.map_eq_none_iff, ih]
      constructor
      · intro hno j
        cases j with
        | zero => exact h
        | succ j => exact hno j
      · intro hno j
        exact hno (j + 1)

/-- What is found is the leftmost occurrence. -/
theorem leftmost_of_find (h : find search s = some i) :
    Leftmost search s (s.take i) (s.drop (i + search.length)) ∧ i ≤ s.length := by
  induction s generalizing i with
  | nil =>
    rw [find] at h
    split at h
    · rename_i hsearch
      cases h
      exact ⟨⟨by simp [hsearch], nofun⟩, Nat.le_refl 0⟩
    · cases h
  | cons a s ih =>
    rw [find] at h
    split at h
    · rename_i hleads
      cases h
      obtain ⟨rest, hrest⟩ := hleads
      refine ⟨⟨?_, nofun⟩, Nat.zero_le _⟩
      rw [Nat.zero_add, ← hrest, List.drop_left]
      rfl
    · rename_i hnot
      obtain ⟨k, hk, rfl⟩ := Option.map_eq_some_iff.mp h
      obtain ⟨⟨heq, hfirst⟩, hle⟩ := ih hk
      refine ⟨⟨?_, ?_⟩, Nat.succ_le_succ hle⟩
      · rw [Nat.add_right_comm, List.take_succ_cons, List.drop_succ_cons, List.cons_append, ← heq]
      · intro j hj
        cases j with
        | zero => exact hnot
        | succ j =>
          rw [List.take_succ_cons, List.length_cons] at hj
          exact hfirst j (Nat.lt_of_succ_lt_succ hj)

theorem length_drop_lt (hsearch : search ≠ []) (h : find search s = some i) :
    (s.drop (i + search.length)).length < s.length := by
  obtain ⟨⟨heq, -⟩, -⟩ := leftmost_of_find h
  have hpos := List.length_pos_iff.mpr hsearch
  have hlength := congrArg List.length heq
  simp only [List.length_append] at hlength
  omega

/-- The pieces, one occurrence after the other. -/
def pieces (search s : List α) : List (List α) :=
  match _hi : find search s with
  | none => [s]
  | some i =>
    if _hsearch : search = [] then [s]
    else s.take i :: pieces search (s.drop (i + search.length))
termination_by s.length
decreasing_by exact length_drop_lt _hsearch _hi

theorem pieces_of_none (h : find search s = none) : pieces search s = [s] := by
  rw [pieces]
  split
  · rfl
  · rename_i i hi
    rw [h] at hi
    cases hi

theorem pieces_of_some (hsearch : search ≠ []) (h : find search s = some i) :
    pieces search s = s.take i :: pieces search (s.drop (i + search.length)) := by
  rw [pieces]
  split
  · rename_i hi
    rw [h] at hi
    cases hi
  · rename_i j hj
    rw [h] at hj
    cases hj
    rw [dif_neg hsearch]

theorem pieces_ne_nil (search s : List α) : pieces search s ≠ [] := by
  rw [pieces]
  split
  · exact List.cons_ne_nil _ _
  · split
    · exact List.cons_ne_nil _ _
    · exact List.cons_ne_nil _ _

theorem pieces_nil (hsearch : search ≠ []) : pieces search [] = [[]] :=
  pieces_of_none (if_neg hsearch)

theorem pieces_splits (hsearch : search ≠ []) (s : List α) :
    Splits search s (pieces search s) := by
  induction hn : s.length using Nat.strongRecOn generalizing s with
  | ind n ih =>
    cases hi : find search s with
    | none =>
      rw [pieces_of_none hi]
      exact .last (find_eq_none.mp hi)
    | some i =>
      rw [pieces_of_some hsearch hi]
      refine .piece (leftmost_of_find hi).1 (ih _ ?_ _ rfl)
      rw [← hn]
      exact length_drop_lt hsearch hi

end Opsian.Lib.Pieces
