import Mathlib.Data.Int.CardIntervalMod
import Mathlib.Data.Set.Card
import Opsian.Concurrent.ConcurrentMap
import Opsian.Lib.Mixing

/-! # The hash of the concurrent map

`avalanche` is the finaliser of MurmurHash3, for either width. It is a permutation of the
words and `deavalanche` takes it back: the hash loses nothing of a key, and a table gives
every cell as many keys as any other. -/
namespace Opsian.Concurrent.Hashing
open Opsian.Lib Opsian.Concurrent.ConcurrentMap

def avalanche32 (h : UInt32) : UInt32 :=
  let h := h ^^^ h >>> 16
  let h := h * 0x85ebca6b
  let h := h ^^^ h >>> 13
  let h := h * 0xc2b2ae35
  h ^^^ h >>> 16

def deavalanche32 (h : UInt32) : UInt32 :=
  let h := h ^^^ h >>> 16
  let h := h * 0x7ed1b41d
  let h := h ^^^ (h ^^^ h >>> 13) >>> 13
  let h := h * 0xa5cb9243
  h ^^^ h >>> 16

def avalanche64 (h : UInt64) : UInt64 :=
  let h := h ^^^ h >>> 33
  let h := h * 0xff51afd7ed558ccd
  let h := h ^^^ h >>> 33
  let h := h * 0xc4ceb9fe1a85ec53
  h ^^^ h >>> 33

def deavalanche64 (h : UInt64) : UInt64 :=
  let h := h ^^^ h >>> 33
  let h := h * 0x9cb4b2f8129337db
  let h := h ^^^ h >>> 33
  let h := h * 0x4f74430c22a54005
  h ^^^ h >>> 33

/-- `DefaultKeyTraits`, of keys that are words. -/
def hash (key : UInt64) : UInt64 := avalanche64 key

def dehash (hash : UInt64) : UInt64 := deavalanche64 hash

def nullKey : UInt64 := 0

def nullHash : UInt64 := 0

/-! ## The permutations -/

def mix32 : Equiv.Perm (BitVec 32) :=
  (Mixing.foldHalf 16 (by decide)).trans <|
    (Mixing.scale 0x85ebca6b#32 0xa5cb9243#32 (by decide)).trans <|
      (Mixing.foldThird 13 (by decide)).trans <|
        (Mixing.scale 0xc2b2ae35#32 0x7ed1b41d#32 (by decide)).trans <|
          Mixing.foldHalf 16 (by decide)

def mix64 : Equiv.Perm (BitVec 64) :=
  (Mixing.foldHalf 33 (by decide)).trans <|
    (Mixing.scale 0xff51afd7ed558ccd#64 0x4f74430c22a54005#64 (by decide)).trans <|
      (Mixing.foldHalf 33 (by decide)).trans <|
        (Mixing.scale 0xc4ceb9fe1a85ec53#64 0x9cb4b2f8129337db#64 (by decide)).trans <|
          Mixing.foldHalf 33 (by decide)

theorem avalanche32_toBitVec (h : UInt32) : (avalanche32 h).toBitVec = mix32 h.toBitVec := rfl

theorem deavalanche32_toBitVec (h : UInt32) :
    (deavalanche32 h).toBitVec = mix32.symm h.toBitVec := rfl

theorem avalanche64_toBitVec (h : UInt64) : (avalanche64 h).toBitVec = mix64 h.toBitVec := rfl

theorem deavalanche64_toBitVec (h : UInt64) :
    (deavalanche64 h).toBitVec = mix64.symm h.toBitVec := rfl

/-! ## What they say of the hash -/

theorem deavalanche64_avalanche64 (h : UInt64) : deavalanche64 (avalanche64 h) = h := by
  apply UInt64.toBitVec_inj.mp
  rw [deavalanche64_toBitVec, avalanche64_toBitVec, Equiv.symm_apply_apply]

theorem avalanche64_deavalanche64 (h : UInt64) : avalanche64 (deavalanche64 h) = h := by
  apply UInt64.toBitVec_inj.mp
  rw [avalanche64_toBitVec, deavalanche64_toBitVec, Equiv.apply_symm_apply]

theorem deavalanche32_avalanche32 (h : UInt32) : deavalanche32 (avalanche32 h) = h := by
  apply UInt32.toBitVec_inj.mp
  rw [deavalanche32_toBitVec, avalanche32_toBitVec, Equiv.symm_apply_apply]

theorem avalanche32_deavalanche32 (h : UInt32) : avalanche32 (deavalanche32 h) = h := by
  apply UInt32.toBitVec_inj.mp
  rw [avalanche32_toBitVec, deavalanche32_toBitVec, Equiv.apply_symm_apply]

theorem hash_injective : Function.Injective hash :=
  Function.LeftInverse.injective deavalanche64_avalanche64

theorem hash_surjective : Function.Surjective hash :=
  Function.RightInverse.surjective avalanche64_deavalanche64

/-- **A hash can be taken back**, in either width, and the null hash is the one of the null
key alone. -/
theorem hash_taken_back :
    (∀ h, deavalanche32 (avalanche32 h) = h ∧ avalanche32 (deavalanche32 h) = h) ∧
    (∀ key, dehash (hash key) = key) ∧ (∀ h, hash (dehash h) = h) ∧
    ∀ key, hash key = nullHash ↔ key = nullKey := by
  refine ⟨fun h => ⟨deavalanche32_avalanche32 h, avalanche32_deavalanche32 h⟩,
    deavalanche64_avalanche64, avalanche64_deavalanche64, fun key => ?_⟩
  have hnull : hash nullKey = nullHash := by decide
  rw [← hnull]
  exact hash_injective.eq_iff

/-- The words that end in the number of a cell. -/
theorem card_suffix {bits cell : Nat} (hbits : bits ≤ 64) (hcell : cell < 2 ^ bits) :
    ((Finset.range (2 ^ 64)).filter fun x => x % 2 ^ bits = cell).card = 2 ^ (64 - bits) := by
  have hpow : 2 ^ 64 = 2 ^ (64 - bits) * 2 ^ bits := by
    rw [← Nat.pow_add, Nat.sub_add_cancel hbits]
  have hpos : 0 < 2 ^ bits := Nat.two_pow_pos bits
  have hmod : ∀ x, x % 2 ^ bits = cell ↔ x ≡ cell [MOD 2 ^ bits] := by
    intro x
    rw [Nat.ModEq, Nat.mod_eq_of_lt hcell]
  simp only [hmod]
  rw [← Nat.count_eq_card_filter_range, Nat.count_modEq_card _ hpos, hpow,
    Nat.mul_mod_left, Nat.mul_div_cancel _ hpos, if_neg (Nat.not_lt_zero _), Nat.add_zero]

/-- **Every cell is the home of equally many keys**, whatever power of two the capacity is;
the null key is one of those of the first cell. -/
theorem homes_shared_evenly {V : Type} {bits cell : Nat} (m : State UInt64 V)
    (hbits : bits ≤ 64) (hm : m.sizeMask = 2 ^ bits - 1) (hcell : cell < 2 ^ bits) :
    {key | homeIndex hash m key = cell}.ncard = 2 ^ (64 - bits) := by
  have hinj : Function.Injective fun key => (hash key).toNat := fun a b h =>
    hash_injective (UInt64.toNat_inj.mp h)
  have himage : (fun key => (hash key).toNat) '' {key | homeIndex hash m key = cell} =
      ((Finset.range (2 ^ 64)).filter fun x => x % 2 ^ bits = cell) := by
    ext x
    simp only [Set.mem_image, Set.mem_ofPred_eq, Finset.coe_filter, Finset.mem_range,
      homeIndex, hm, Nat.and_two_pow_sub_one_eq_mod]
    constructor
    · rintro ⟨key, hkey, rfl⟩
      exact ⟨(hash key).toNat_lt, hkey⟩
    · intro ⟨hx, hmod⟩
      obtain ⟨key, hkey⟩ := hash_surjective (UInt64.ofNat x)
      have hto : (hash key).toNat = x := by
        rw [hkey]
        exact UInt64.toNat_ofNat_of_lt' hx
      exact ⟨key, hto.symm ▸ hmod, hto⟩
  rw [← Set.ncard_image_of_injective _ hinj, himage, Set.ncard_coe_finset]
  exact card_suffix hbits hcell

theorem sixteenth_of_the_keys :
    {key | homeIndex hash (State.init 16 12 fun _ => (⟨none, none⟩ : Cell UInt64 UInt64))
      key = 5}.ncard = 2 ^ 60 :=
  @homes_shared_evenly UInt64 4 5 _ (by decide) (by decide) (by decide)

end Opsian.Concurrent.Hashing
