import Mathlib.Algebra.Ring.Int.Defs
import Mathlib.Data.Nat.Notation
import Mathlib.Order.Lattice

/-! # Strings by pointers

A pointer into a string is the text from there to its end, so the difference of two
pointers is that of the lengths behind them. -/
namespace Opsian.Lib.CString

/-- The text from the first such character on, none where it does not occur. -/
def strchr : List Char → Char → Option (List Char)
  | [], _ => none
  | a :: as, c => if a = c then some (a :: as) else strchr as c

def isSpace (c : Char) : Bool := c == ' ' || ('\t' ≤ c && c ≤ '\r')

/-- The sign of a number and what is behind it. -/
def sign : List Char → Bool × List Char
  | '-' :: s => (true, s)
  | '+' :: s => (false, s)
  | s => (false, s)

def digits (s : List Char) : Nat :=
  (s.takeWhile Char.isDigit).foldl (fun n c => 10 * n + (c.toNat - '0'.toNat)) 0

/-- `strtol` in base 10, which stays within a `long`, cut down to an `int`. -/
def atoi (s : List Char) : Int32 :=
  let (negative, s) := sign (s.dropWhile isSpace)
  let n : Int := digits s
  Int32.ofInt (max (-2 ^ 63) (min (2 ^ 63 - 1) (if negative then -n else n)))

variable {s a b r : List Char} {c d : Char}

theorem strchr_eq_none : strchr s c = none ↔ c ∉ s := by
  induction s with
  | nil => simp [strchr]
  | cons x s ih =>
    rw [strchr, List.mem_cons, not_or, ← ih]
    split
    · rename_i hx
      simp [hx]
    · rename_i hx
      exact (and_iff_right (Ne.symm hx)).symm

theorem strchr_cons_self (c : Char) (s : List Char) : strchr (c :: s) c = some (c :: s) :=
  if_pos rfl

theorem strchr_append_of_not_mem (h : c ∉ a) (b : List Char) :
    strchr (a ++ b) c = strchr b c := by
  induction a with
  | nil => rfl
  | cons x a ih =>
    obtain ⟨hx, ha⟩ := not_or.mp (mt List.mem_cons.mpr h)
    rw [List.cons_append, strchr, if_neg (Ne.symm hx), ih ha]

/-- The text before the first such character, and the text behind it. -/
theorem exists_of_strchr (h : strchr s c = some r) :
    ∃ a b, c ∉ a ∧ s = a ++ c :: b ∧ r = c :: b := by
  induction s with
  | nil => cases h
  | cons x s ih =>
    rw [strchr] at h
    split at h
    · rename_i hx
      cases h
      exact ⟨[], s, List.not_mem_nil, by rw [hx]; rfl, by rw [hx]⟩
    · rename_i hx
      obtain ⟨a, b, ha, rfl, hr⟩ := ih h
      refine ⟨x :: a, b, ?_, rfl, hr⟩
      simp [ha, Ne.symm hx]

theorem strchr_of_mem (h : c ∈ s) :
    ∃ a b, c ∉ a ∧ s = a ++ c :: b ∧ strchr s c = some (c :: b) := by
  cases hs : strchr s c with
  | none => exact absurd h (strchr_eq_none.mp hs)
  | some r =>
    obtain ⟨a, b, ha, he, rfl⟩ := exists_of_strchr hs
    exact ⟨a, b, ha, he, rfl⟩

theorem length_lt_of_strchr (h : strchr s c = some r) : r.tail.length < s.length := by
  obtain ⟨a, b, -, rfl, rfl⟩ := exists_of_strchr h
  simp only [List.tail_cons, List.length_append, List.length_cons]
  omega

/-! ## Up to a separator -/

theorem dropWhile_append_cons {p : Char → Bool} (hd : p d = false) (a b : List Char) :
    (a ++ d :: b).dropWhile p = a.dropWhile p ++ d :: b := by
  induction a with
  | nil => simp [hd]
  | cons x a ih =>
    rw [List.cons_append, List.dropWhile_cons, List.dropWhile_cons]
    split
    · exact ih
    · rfl

theorem takeWhile_append_cons {p : Char → Bool} (hd : p d = false) (a b : List Char) :
    (a ++ d :: b).takeWhile p = a.takeWhile p := by
  induction a with
  | nil => simp [hd]
  | cons x a ih =>
    rw [List.cons_append, List.takeWhile_cons, List.takeWhile_cons]
    split
    · rw [ih]
    · rfl

theorem sign_append_cons (hminus : d ≠ '-') (hplus : d ≠ '+') (a b : List Char) :
    sign (a ++ d :: b) = ((sign a).1, (sign a).2 ++ d :: b) := by
  cases a with
  | nil =>
    show sign (d :: b) = (false, d :: b)
    unfold sign
    split
    · rename_i he
      exact absurd (List.cons.inj he).1 hminus
    · rename_i he
      exact absurd (List.cons.inj he).1 hplus
    · rfl
  | cons x a =>
    rw [List.cons_append]
    unfold sign
    split
    · rename_i he
      obtain ⟨rfl, rfl⟩ := List.cons.inj he
      rfl
    · rename_i he
      obtain ⟨rfl, rfl⟩ := List.cons.inj he
      rfl
    · rename_i hm hp
      split
      · rename_i he
        obtain ⟨rfl, rfl⟩ := List.cons.inj he
        exact absurd rfl (hm _)
      · rename_i he
        obtain ⟨rfl, rfl⟩ := List.cons.inj he
        exact absurd rfl (hp _)
      · rfl

/-- A number ends where a separator begins. -/
theorem atoi_append_cons (hspace : isSpace d = false) (hminus : d ≠ '-') (hplus : d ≠ '+')
    (hdigit : d.isDigit = false) (a b : List Char) : atoi (a ++ d :: b) = atoi a := by
  unfold atoi digits
  rw [dropWhile_append_cons hspace, sign_append_cons hminus hplus]
  simp only [takeWhile_append_cons hdigit]

end Opsian.Lib.CString
