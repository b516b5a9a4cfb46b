import Mathlib.Algebra.Ring.Nat

/-! # Base-128 varints

A number as groups of seven bits, the lowest first; every byte but the last
has its high bit set. `decode` also tells how many bytes the number took, so a
reader that holds more bytes than the number knows where the rest begins. -/
namespace Opsian.Lib.Varint

/-- `fuel` only has to reach the last group; `encode` gives it the number itself. -/
def encodeWith : Nat → Nat → List UInt8
  | 0, n => [UInt8.ofNat n]
  | fuel + 1, n =>
    if n < 128 then [UInt8.ofNat n]
    else UInt8.ofNat (n % 128 + 128) :: encodeWith fuel (n / 128)

def encode (n : Nat) : List UInt8 := encodeWith n n

/-- The number at the start of the bytes and the number of bytes it takes;
`none` when the bytes end inside it. -/
def decode : List UInt8 → Option (Nat × Nat)
  | [] => none
  | b :: rest =>
    if b.toNat < 128 then some (b.toNat, 1)
    else (decode rest).map fun r => (b.toNat - 128 + 128 * r.1, r.2 + 1)

theorem toNat_ofNat_lt {n : Nat} (h : n < 256) : (UInt8.ofNat n).toNat = n := by
  rw [UInt8.toNat_ofNat']; omega

theorem encodeWith_fuel {f g n : Nat} (hf : n ≤ f) (hg : n ≤ g) :
    encodeWith f n = encodeWith g n := by
  induction f generalizing g n with
  | zero =>
    obtain rfl : n = 0 := by omega
    cases g <;> simp [encodeWith]
  | succ f ih =>
    cases g with
    | zero =>
      obtain rfl : n = 0 := by omega
      simp [encodeWith]
    | succ g =>
      simp only [encodeWith]
      split
      · rfl
      · rw [ih (g := g) (n := n / 128) (by omega) (by omega)]

theorem encode_of_lt {n : Nat} (h : n < 128) : encode n = [UInt8.ofNat n] := by
  unfold encode
  cases n with
  | zero => rfl
  | succ n => simp [encodeWith, h]

theorem encode_of_ge {n : Nat} (h : 128 ≤ n) :
    encode n = UInt8.ofNat (n % 128 + 128) :: encode (n / 128) := by
  obtain ⟨m, rfl⟩ : ∃ m, n = m + 1 := ⟨n - 1, by omega⟩
  have hrest := encodeWith_fuel (f := m) (g := (m + 1) / 128) (n := (m + 1) / 128)
    (by omega) (by omega)
  unfold encode
  simp only [encodeWith, show ¬ m + 1 < 128 by omega, if_false, hrest]

/-- Decoding reads an encoded number back and stops at its last byte, whatever follows. -/
theorem decode_encode_append (n : Nat) (rest : List UInt8) :
    decode (encode n ++ rest) = some (n, (encode n).length) := by
  induction n using Nat.strongRecOn with
  | ind n ih =>
    by_cases h : n < 128
    · rw [encode_of_lt h]
      have hb := toNat_ofNat_lt (n := n) (by omega)
      simp only [List.cons_append, List.nil_append, decode, hb, h, if_true, List.length_cons,
        List.length_nil]
    · rw [encode_of_ge (by omega)]
      have hb := toNat_ofNat_lt (n := n % 128 + 128) (by omega)
      have hm : n % 128 + 128 - 128 + 128 * (n / 128) = n := by omega
      simp only [List.cons_append, decode, hb, show ¬ n % 128 + 128 < 128 by omega, if_false,
        ih (n / 128) (by omega), Option.map_some, List.length_cons, hm]

theorem length_encode_pos (n : Nat) : 1 ≤ (encode n).length := by
  by_cases h : n < 128
  · simp [encode_of_lt h]
  · simp [encode_of_ge (show 128 ≤ n by omega)]

theorem length_encode_le (k n : Nat) (h : n < 128 ^ (k + 1)) : (encode n).length ≤ k + 1 := by
  induction k generalizing n with
  | zero => simp [encode_of_lt (show n < 128 by simpa using h)]
  | succ k ih =>
    by_cases hn : n < 128
    · simp [encode_of_lt hn]
    · rw [encode_of_ge (by omega), List.length_cons]
      have hd : n / 128 < 128 ^ (k + 1) :=
        Nat.div_lt_of_lt_mul (by rw [Nat.pow_succ] at h; omega)
      have := ih (n / 128) hd
      omega

/-- A decoded number takes at least one byte and no more than there are. -/
theorem decode_bounds {bytes : List UInt8} {v k : Nat} (h : decode bytes = some (v, k)) :
    1 ≤ k ∧ k ≤ bytes.length := by
  induction bytes generalizing v k with
  | nil => cases h
  | cons b rest ih =>
    simp only [decode] at h
    split at h
    · cases h
      exact ⟨Nat.le_refl _, by simp⟩
    · obtain ⟨r, hr, he⟩ := Option.map_eq_some_iff.mp h
      cases he
      have := ih hr
      simp only [List.length_cons]
      omega

end Opsian.Lib.Varint
