import Mathlib.Data.List.Basic

/-! # Lines and their words

A line is words with runs of a separator between them, a text is lines that each end in a
separator of their own. Splitting takes both apart again. -/
namespace Opsian.Lib.Words

variable {α : Type} {sep : α} {w : List α}

/-- A first word, and the others with how many separators more than one are before them. -/
def line (sep : α) (w : List α) (rest : List (Nat × List α)) : List α :=
  w ++ rest.flatMap fun p => List.replicate (p.1 + 1) sep ++ p.2

/-- A line that can be told from its words. -/
def Spaced (sep : α) (w : List α) (rest : List (Nat × List α)) : Prop :=
  sep ∉ w ∧ ∀ p ∈ rest, p.2 ≠ [] ∧ sep ∉ p.2

/-- Each line with its end. -/
def unlines (sep : α) (ls : List (List α)) : List α := ls.flatMap (· ++ [sep])

theorem line_cons (w : List α) (p : Nat × List α) (rest : List (Nat × List α)) :
    line sep w (p :: rest) = w ++ (List.replicate (p.1 + 1) sep ++ line sep p.2 rest) := by
  simp [line]

theorem not_mem_line {c : α} (hc : c ≠ sep) {rest : List (Nat × List α)} (hw : c ∉ w)
    (hrest : ∀ p ∈ rest, c ∉ p.2) : c ∉ line sep w rest := by
  intro hmem
  rcases List.mem_append.mp hmem with hmem | hmem
  · exact hw hmem
  · obtain ⟨p, hp, hmem⟩ := List.mem_flatMap.mp hmem
    rcases List.mem_append.mp hmem with hmem | hmem
    · exact hc (List.eq_of_mem_replicate hmem)
    · exact hrest p hp hmem

variable [DecidableEq α]

/-- The pieces between the separators, where a run of them counts as one. -/
def words (sep : α) : List α → List (List α)
  | [] => [[]]
  | c :: cs =>
    if c = sep then if cs.head? = some sep then words sep cs else [] :: words sep cs
    else (words sep cs).modifyHead (c :: ·)

theorem words_append (hw : sep ∉ w) (cs : List α) :
    words sep (w ++ cs) = (words sep cs).modifyHead (w ++ ·) := by
  induction w with
  | nil => cases h : words sep cs <;> simp [h]
  | cons c w ih =>
    simp only [List.mem_cons, not_or] at hw
    rw [List.cons_append, words, if_neg (Ne.symm hw.1), ih hw.2]
    cases h : words sep cs <;> simp

theorem words_replicate (n : Nat) {cs : List α} (h : cs.head? ≠ some sep) :
    words sep (List.replicate (n + 1) sep ++ cs) = [] :: words sep cs := by
  induction n with
  | zero => simp [words, h]
  | succ n ih =>
    rw [List.replicate_succ, List.cons_append, words, if_pos rfl, if_pos, ih]
    rfl

theorem words_line {rest : List (Nat × List α)} (h : Spaced sep w rest) :
    words sep (line sep w rest) = w :: rest.map Prod.snd := by
  induction rest generalizing w with
  | nil =>
    rw [line, List.flatMap_nil, words_append h.1]
    simp [words]
  | cons p rest ih =>
    obtain ⟨hw, hrest⟩ := h
    obtain ⟨⟨hne, hp⟩, hrest⟩ := List.forall_mem_cons.mp hrest
    have hhead : (line sep p.2 rest).head? ≠ some sep := by
      obtain ⟨c, cs, hcs⟩ := List.exists_cons_of_ne_nil hne
      rw [hcs] at hp ⊢
      simp only [List.mem_cons, not_or] at hp
      simpa [line, eq_comm] using hp.1
    rw [line_cons, words_append hw, words_replicate p.1 hhead, ih ⟨hp, hrest⟩]
    simp

theorem splitOn_unlines {ls : List (List α)} (h : ∀ l ∈ ls, sep ∉ l) :
    (unlines sep ls).splitOn sep = ls ++ [[]] := by
  induction ls with
  | nil => simp [unlines]
  | cons l ls ih =>
    obtain ⟨hl, hls⟩ := List.forall_mem_cons.mp h
    have hrest : (unlines sep ls).splitOn sep = ls ++ [[]] := ih hls
    have hcons : unlines sep (l :: ls) = l ++ sep :: unlines sep ls := by simp [unlines]
    rw [hcons, List.splitOn_append_cons_self, List.splitOn_eq_singleton hl, hrest]
    rfl

end Opsian.Lib.Words
