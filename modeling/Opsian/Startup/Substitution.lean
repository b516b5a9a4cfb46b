import Mathlib.Data.List.DropRight
import Opsian.Lib.Pieces
import Opsian.Symbols.SymbolTable

/-! # Placeholders

`substitute_option` searches the string that it edits, from a cursor that each edit
moves behind what it has put in. -/
namespace Opsian.Startup.Substitution
open Opsian.Lib.Pieces Opsian.Symbols.SymbolTable

/-- `std::string::find`, from a position on. -/
def findFrom (value search : List Char) (pos : Nat) : Option Nat :=
  if pos ≤ value.length then (find search (value.drop pos)).map (pos + ·) else none

/-- `std::string::replace`. -/
def replaceRange (value : List Char) (pos length : Nat) (replace : List Char) : List Char :=
  value.take pos ++ replace ++ value.drop (pos + length)

/-- The loop of `substitute_option`, for at most so many rounds. -/
def substituteLoop (search replace : List Char) : Nat → List Char → Nat → Option (List Char)
  | 0, _, _ => none
  | rounds + 1, value, pos =>
    match findFrom value search pos with
    | none => some value
    | some pos =>
      substituteLoop search replace rounds (replaceRange value pos search.length replace)
        (pos + replace.length)

/-- `substitute_option`; the loop has a round for each position. -/
def substituteOption (value search replace : List Char) : Option (List Char) :=
  substituteLoop search replace (value.length + 1) value 0

/-- What is substituted, in one go. -/
def replaceAll (search replace value : List Char) : List Char :=
  replace.intercalate (pieces search value)

variable {search replace value rest : List Char} {rounds : Nat}

theorem replaceAll_of_none (h : find search value = none) :
    replaceAll search replace value = value := by
  rw [replaceAll, pieces_of_none h, List.intercalate_singleton]

theorem replaceAll_of_some {i : Nat} (hsearch : search ≠ []) (h : find search value = some i) :
    replaceAll search replace value =
      value.take i ++ replace ++ replaceAll search replace (value.drop (i + search.length)) := by
  rw [replaceAll, pieces_of_some hsearch h,
    List.intercalate_cons_of_ne_nil (pieces_ne_nil _ _), replaceAll]

theorem replaceAll_nil (hsearch : search ≠ []) : replaceAll search replace [] = [] := by
  rw [replaceAll, pieces_nil hsearch, List.intercalate_singleton]

/-- The loop with the cursor behind `done`, which it leaves alone. -/
theorem substituteLoop_eq (hsearch : search ≠ []) (done rest : List Char)
    (hrounds : rest.length < rounds) :
    substituteLoop search replace rounds (done ++ rest) done.length =
      some (done ++ replaceAll search replace rest) := by
  induction rounds generalizing done rest with
  | zero => cases hrounds
  | succ rounds ih =>
    have hfind : findFrom (done ++ rest) search done.length =
        (find search rest).map (done.length + ·) := by
      rw [findFrom, if_pos (by simp), List.drop_left]
    rw [substituteLoop, hfind]
    cases hi : find search rest with
    | none => rw [replaceAll_of_none hi, Option.map_none]
    | some i =>
      obtain ⟨-, hle⟩ := leftmost_of_find hi
      have hlt := length_drop_lt hsearch hi
      have hvalue : replaceRange (done ++ rest) (done.length + i) search.length replace =
          (done ++ rest.take i ++ replace) ++ rest.drop (i + search.length) := by
        rw [replaceRange, List.take_length_add_append, Nat.add_assoc,
          List.drop_length_add_append]
      have hpos : done.length + i + replace.length =
          (done ++ rest.take i ++ replace).length := by
        simp only [List.length_append, List.length_take, Nat.min_eq_left hle]
      rw [Option.map_some, replaceAll_of_some hsearch hi]
      simp only
      rw [hvalue, hpos, ih _ _ (by omega)]
      simp only [List.append_assoc]

/-- **`substitute_option` replaces the leftmost occurrences**: with a word to search for the
loop ends, and leaves the pieces of the value with the replacement between them. -/
theorem substituteLoop_splits (value search replace : List Char) (hsearch : search ≠ [])
    (rounds : Nat) (hrounds : value.length < rounds) :
    Splits search value (pieces search value) ∧
      substituteLoop search replace rounds value 0 =
        some (replace.intercalate (pieces search value)) :=
  ⟨pieces_splits hsearch value, substituteLoop_eq hsearch [] value hrounds⟩

/-- What is put in is not searched again. -/
theorem doubled_dots :
    Splits "..".toList "a...".toList (pieces "..".toList "a...".toList) ∧
      substituteLoop "..".toList "...".toList 5 "a...".toList 0 =
        some ("...".toList.intercalate (pieces "..".toList "a...".toList)) :=
  substituteLoop_splits "a...".toList "..".toList "...".toList (by decide) 5 (by decide)

theorem substituteOption_eq (hsearch : search ≠ []) (value replace : List Char) :
    substituteOption value search replace = some (replaceAll search replace value) :=
  substituteLoop_eq hsearch [] value (Nat.lt_succ_self _)

/-- Whichever way the value is split. -/
theorem substituteOption_of_splits (hsearch : search ≠ []) {ps : List (List Char)}
    (h : Splits search value ps) (replace : List Char) :
    substituteOption value search replace = some (replace.intercalate ps) := by
  rw [substituteOption_eq hsearch, replaceAll, (pieces_splits hsearch value).unique h]

/-- What a symbol's name is prettified with. -/
theorem replaceAll_dots (name : List Char) :
    replaceAll "__".toList ".".toList name = substituteDots name := by
  induction name using substituteDots.induct with
  | case1 cs ih =>
    have hfind : find "__".toList ('_' :: '_' :: cs) = some 0 := if_pos ⟨cs, rfl⟩
    rw [replaceAll_of_some (by decide) hfind, substituteDots, ← ih]
    rfl
  | case2 c cs hnot ih =>
    have hfind : find "__".toList (c :: cs) = (find "__".toList cs).map (· + 1) := by
      refine if_neg ?_
      rintro ⟨rest, hrest⟩
      obtain ⟨rfl, hcs⟩ := List.cons.inj hrest
      exact hnot rest rfl hcs.symm
    rw [substituteDots]
    · rw [← ih]
      cases hi : find "__".toList cs with
      | none =>
        rw [hi] at hfind
        rw [replaceAll_of_none hi, replaceAll_of_none hfind]
      | some i =>
        rw [hi] at hfind
        rw [replaceAll_of_some (by decide) hi, replaceAll_of_some (by decide) hfind,
          Nat.add_right_comm]
        rfl
    · exact hnot
  | case3 => exact replaceAll_nil (by decide)

end Opsian.Startup.Substitution
