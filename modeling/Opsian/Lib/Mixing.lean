import Mathlib.Logic.Equiv.Basic
import Mathlib.Data.BitVec

/-! # Mixing the bits of a word

The steps of a hash that loses nothing: to take the upper half of a word into its lower half,
and to multiply by an odd constant. Each is a permutation of the words, so that every chain
of them is, and its inverse is the chain of the inverses. -/
namespace Opsian.Lib.Mixing

variable {w : Nat}

/-- A word with its upper bits taken into its lower ones. -/
def fold (s : Nat) (x : BitVec w) : BitVec w := x ^^^ x >>> s

/-- What undoes `fold` where a third of the bits is enough for the shift. -/
def unfold (s : Nat) (x : BitVec w) : BitVec w := x ^^^ (x ^^^ x >>> s) >>> s

/-- Two folds by the same shift are one by its double. -/
theorem fold_fold (s : Nat) (x : BitVec w) : fold s (fold s x) = fold (s + s) x := by
  calc fold s (fold s x) = (x ^^^ x >>> s) ^^^ (x >>> s ^^^ x >>> s >>> s) := by
        rw [fold, fold, BitVec.ushiftRight_xor_distrib]
    _ = x ^^^ ((x >>> s ^^^ x >>> s) ^^^ x >>> s >>> s) := by
        simp only [BitVec.xor_assoc]
    _ = fold (s + s) x := by
        rw [BitVec.xor_self, BitVec.zero_xor, ← BitVec.shiftRight_add, fold]

theorem fold_of_le {s : Nat} (h : w ≤ s) (x : BitVec w) : fold s x = x := by
  rw [fold, BitVec.ushiftRight_eq_zero h, BitVec.xor_zero]

theorem unfold_fold {s : Nat} (h : w ≤ s + s + s) (x : BitVec w) :
    unfold s (fold s x) = x := by
  calc unfold s (fold s x) = (x ^^^ x >>> s) ^^^ fold s (fold s x) >>> s := rfl
    _ = (x ^^^ x >>> s) ^^^ (x >>> s ^^^ x >>> (s + s + s)) := by
        rw [fold_fold, fold, BitVec.ushiftRight_xor_distrib, ← BitVec.shiftRight_add]
    _ = x ^^^ ((x >>> s ^^^ x >>> s) ^^^ x >>> (s + s + s)) := by
        simp only [BitVec.xor_assoc]
    _ = x := by
        rw [BitVec.xor_self, BitVec.zero_xor, BitVec.ushiftRight_eq_zero h, BitVec.xor_zero]

theorem fold_unfold_comm (s : Nat) (x : BitVec w) : fold s (unfold s x) = unfold s (fold s x) := by
  show fold s (x ^^^ fold s x >>> s) = fold s x ^^^ fold s (fold s x) >>> s
  calc fold s (x ^^^ fold s x >>> s)
      = (x ^^^ x >>> s) ^^^ (fold s x >>> s ^^^ fold s x >>> s >>> s) := by
        rw [fold, BitVec.ushiftRight_xor_distrib]
        ac_rfl
    _ = fold s x ^^^ fold s (fold s x) >>> s := by
        rw [← BitVec.ushiftRight_xor_distrib]
        rfl

/-- To fold by at least half of the bits, which is its own inverse. -/
def foldHalf (s : Nat) (h : w ≤ s + s) : Equiv.Perm (BitVec w) :=
  Function.Involutive.toPerm (fold s) fun x => (fold_fold s x).trans (fold_of_le h x)

/-- To fold by at least a third of the bits. -/
def foldThird (s : Nat) (h : w ≤ s + s + s) : Equiv.Perm (BitVec w) where
  toFun := fold s
  invFun := unfold s
  left_inv := unfold_fold h
  right_inv x := (fold_unfold_comm s x).trans (unfold_fold h x)

/-- To multiply by a constant that has an inverse. -/
def scale (c d : BitVec w) (h : d * c = 1) : Equiv.Perm (BitVec w) where
  toFun x := x * c
  invFun x := x * d
  left_inv x := by
    show x * c * d = x
    rw [BitVec.mul_assoc, BitVec.mul_comm c, h]
    exact BitVec.mul_one x
  right_inv x := by
    show x * d * c = x
    rw [BitVec.mul_assoc, h]
    exact BitVec.mul_one x

end Opsian.Lib.Mixing
