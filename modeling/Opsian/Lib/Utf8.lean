import Mathlib.Data.List.Basic

/-! # UTF-8

A string of a program in C++ is one of bytes: here a character stands for one byte, and the
few texts that are written out are of characters that have one. Whether the bytes are UTF-8 is
for a reader to check. -/
namespace Opsian.Lib.Utf8

/-- The ranges of the bytes that follow a byte. -/
def following (b : Nat) : Option (List (Nat × Nat)) :=
  if b < 0x80 then some []
  else if 0xc2 ≤ b ∧ b ≤ 0xdf then some [(0x80, 0xbf)]
  else if b = 0xe0 then some [(0xa0, 0xbf), (0x80, 0xbf)]
  else if b = 0xed then some [(0x80, 0x9f), (0x80, 0xbf)]
  else if 0xe1 ≤ b ∧ b ≤ 0xef then some [(0x80, 0xbf), (0x80, 0xbf)]
  else if b = 0xf0 then some [(0x90, 0xbf), (0x80, 0xbf), (0x80, 0xbf)]
  else if 0xf1 ≤ b ∧ b ≤ 0xf3 then some [(0x80, 0xbf), (0x80, 0xbf), (0x80, 0xbf)]
  else if b = 0xf4 then some [(0x80, 0x8f), (0x80, 0xbf), (0x80, 0xbf)]
  else none

/-- Whether the bytes are UTF-8, behind a byte that some in these ranges follow. -/
def validFrom : List (Nat × Nat) → List Char → Bool
  | [], [] => true
  | _ :: _, [] => false
  | [], c :: cs =>
    match following c.toNat with
    | some ranges => validFrom ranges cs
    | none => false
  | range :: ranges, c :: cs =>
    decide (range.1 ≤ c.toNat) && decide (c.toNat ≤ range.2) && validFrom ranges cs

def validUtf8 (s : List Char) : Bool := validFrom [] s

/-! ## Bytes -/

/-- The byte that a character stands for; one that stands for none is taken as `0xff`, which
is nowhere in UTF-8. -/
def byteOf (c : Char) : UInt8 := UInt8.ofNat (min c.toNat 0xff)

def charOf (b : UInt8) : Char := Char.ofNat b.toNat

theorem toNat_charOf_byteOf (c : Char) : (charOf (byteOf c)).toNat = min c.toNat 0xff := by
  have hbyte : (byteOf c).toNat = min c.toNat 0xff :=
    UInt8.toNat_ofNat_of_lt' (Nat.lt_succ_of_le (Nat.min_le_right _ _))
  have hchar : (byteOf c).toNat.isValidChar := .inl (by omega)
  rw [charOf, Char.ofNat, dif_pos hchar, ← hbyte]
  rfl

theorem charOf_byteOf {c : Char} (h : c.toNat < 0x100) : charOf (byteOf c) = c := by
  refine Char.toNat_inj.mp ?_
  rw [toNat_charOf_byteOf]
  omega

theorem following_of_ge {b : Nat} (h : 0xf5 ≤ b) : following b = none := by
  unfold following
  repeat rw [if_neg (by omega)]

/-- The bytes that may follow end at `0xbf`. -/
theorem following_le {b : Nat} {ranges : List (Nat × Nat)} (h : following b = some ranges) :
    ∀ range ∈ ranges, range.2 ≤ 0xbf := by
  unfold following at h
  split_ifs at h <;> cases h <;> decide

/-- A text is taken from its bytes as it was, and what is no text from its bytes neither. -/
theorem validFrom_bytes {ranges : List (Nat × Nat)} (hranges : ∀ range ∈ ranges, range.2 ≤ 0xbf)
    (s : List Char) :
    validFrom ranges ((s.map byteOf).map charOf) = validFrom ranges s ∧
      (validFrom ranges s = true → (s.map byteOf).map charOf = s) := by
  induction s generalizing ranges with
  | nil => exact ⟨rfl, fun _ => rfl⟩
  | cons c s ih =>
    by_cases hbyte : c.toNat < 0x100
    · rw [List.map_cons, List.map_cons, charOf_byteOf hbyte]
      cases ranges with
      | nil =>
        rw [validFrom, validFrom]
        cases hfollowing : following c.toNat with
        | none =>
          refine ⟨rfl, fun h => ?_⟩
          cases h
        | some ranges =>
          obtain ⟨hvalid, hback⟩ := ih (following_le hfollowing)
          exact ⟨hvalid, fun h => congrArg _ (hback h)⟩
      | cons range ranges =>
        obtain ⟨hvalid, hback⟩ := ih fun r hr => hranges r (List.mem_cons_of_mem range hr)
        rw [validFrom, validFrom, hvalid]
        exact ⟨rfl, fun h => congrArg _ (hback (Bool.and_eq_true _ _ ▸ h).2)⟩
    · -- Neither the character nor `0xff` is in a text.
      have hchar := toNat_charOf_byteOf c
      rw [List.map_cons, List.map_cons]
      cases ranges with
      | nil =>
        rw [validFrom, validFrom, following_of_ge (by omega), following_of_ge (by omega)]
        refine ⟨rfl, fun h => ?_⟩
        cases h
      | cons range ranges =>
        have hrange := hranges range List.mem_cons_self
        rw [validFrom, validFrom, decide_eq_false (show ¬ c.toNat ≤ range.2 by omega),
          decide_eq_false (show ¬ (charOf (byteOf c)).toNat ≤ range.2 by omega), Bool.and_false,
          Bool.and_false, Bool.false_and]
        refine ⟨rfl, fun h => ?_⟩
        cases h

theorem validUtf8_bytes (s : List Char) :
    validUtf8 ((s.map byteOf).map charOf) = validUtf8 s :=
  (validFrom_bytes (List.forall_mem_nil _) s).1

theorem chars_of_bytes {s : List Char} (h : validUtf8 s = true) :
    (s.map byteOf).map charOf = s :=
  (validFrom_bytes (List.forall_mem_nil _) s).2 h

end Opsian.Lib.Utf8
