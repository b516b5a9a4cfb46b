import Mathlib.Data.List.Nodup
import Mathlib.Data.List.Range
import Mathlib.Data.Nat.ModEq

/-! # Positions in a ring

A ring of `cap` slots is filled in turn: the n-th entry goes to slot `n % cap`.
Entries that are fewer than `cap` apart never meet, so the slots of a stretch
of consecutive entries can be read back from where it begins and ends. -/
namespace Opsian.Lib.Ring

/-- The slot behind `i`. -/
def advance (cap i : Nat) : Nat := (i + 1) % cap

/-- The slots from `first` up to, but not including, `last`, walking the ring. -/
def window (cap first last : Nat) : List Nat :=
  (List.range ((last + cap - first) % cap)).map fun k => (first + k) % cap

/-- The slots of the entries `lo`, `lo + 1`, ... -/
def slots (cap lo len : Nat) : List Nat := (List.range' lo len).map (· % cap)

variable {cap lo hi a b n : Nat}

theorem advance_mod (cap n : Nat) : advance cap (n % cap) = (n + 1) % cap := by
  rw [advance, Nat.mod_add_mod]

/-- Entries less than a round apart share no slot. -/
theorem eq_of_mod_eq (ha : lo ≤ a) (ha' : a < lo + cap) (hb : lo ≤ b) (hb' : b < lo + cap)
    (h : a % cap = b % cap) : a = b := by
  rcases Nat.le_total a b with hab | hab
  · exact (Nat.ModEq.eq_of_abs_lt h (by rw [abs_lt]; omega))
  · exact (Nat.ModEq.eq_of_abs_lt h (by rw [abs_lt]; omega))

/-- The slot behind the last entry is the first one's exactly when the round is full. -/
theorem mod_eq_advance_iff (hlo : lo ≤ hi) (hhi : hi < lo + cap) :
    lo % cap = advance cap (hi % cap) ↔ hi + 1 = lo + cap := by
  rw [advance_mod]
  constructor
  · intro h
    by_contra hne
    have he : lo = hi + 1 :=
      eq_of_mod_eq (Nat.le_refl lo) (by omega) (by omega) (by omega) h
    omega
  · intro h
    rw [h, Nat.add_mod_right]

theorem length_slots (cap lo len : Nat) : (slots cap lo len).length = len := by
  simp [slots]

theorem mem_slots (ha : lo ≤ a) (ha' : a < lo + n) : a % cap ∈ slots cap lo n :=
  List.mem_map.mpr ⟨a, List.mem_range'_1.mpr ⟨ha, ha'⟩, rfl⟩

theorem nodup_slots (h : n ≤ cap) : (slots cap lo n).Nodup := by
  refine List.Nodup.map_on ?_ List.nodup_range'
  intro a ha b hb hab
  rw [List.mem_range'_1] at ha hb
  exact eq_of_mod_eq ha.1 (by omega) hb.1 (by omega) hab

/-- A stretch shorter than a round is the window between the slots it begins
and ends at. -/
theorem window_mod (hlo : lo ≤ hi) (hhi : hi < lo + cap) :
    window cap (lo % cap) (hi % cap) = slots cap lo (hi - lo) := by
  have hcap : 0 < cap := by omega
  have hr : lo % cap < cap := Nat.mod_lt lo hcap
  have hlen : (hi % cap + cap - lo % cap) % cap = hi - lo := by
    have hsum : (lo % cap + (hi - lo)) % cap = hi % cap := by
      rw [Nat.mod_add_mod]; congr 1; omega
    rw [← hsum]
    by_cases hwrap : lo % cap + (hi - lo) < cap
    · rw [Nat.mod_eq_of_lt hwrap]
      have he : lo % cap + (hi - lo) + cap - lo % cap = hi - lo + cap := by omega
      rw [he, Nat.add_mod_right, Nat.mod_eq_of_lt (by omega)]
    · have hmod : (lo % cap + (hi - lo)) % cap = lo % cap + (hi - lo) - cap := by
        rw [Nat.mod_eq_sub_mod (by omega), Nat.mod_eq_of_lt (by omega)]
      have he : lo % cap + (hi - lo) - cap + cap - lo % cap = hi - lo := by omega
      rw [hmod, he, Nat.mod_eq_of_lt (by omega)]
  rw [window, hlen, slots, List.range'_eq_map_range, List.map_map]
  refine List.map_congr_left fun k _ => ?_
  rw [Function.comp_apply, Nat.mod_add_mod]

theorem drop_slots (cap n k : Nat) : (slots cap 0 n).drop k = slots cap k (n - k) := by
  rw [slots, ← List.map_drop, List.drop_range', slots]
  congr 2
  omega

theorem slots_succ (cap n : Nat) : slots cap 0 (n + 1) = slots cap 0 n ++ [n % cap] := by
  simp [slots, List.range'_concat]

theorem getElem?_slots (h : a < n) : (slots cap 0 n)[a]? = some (a % cap) := by
  simp [slots, h]

theorem advance_eq (h : a < cap) : advance cap a = if a + 1 = cap then 0 else a + 1 := by
  rw [advance]
  split
  · rename_i hlast
    rw [hlast, Nat.mod_self]
  · exact Nat.mod_eq_of_lt (by omega)

/-- A window lies between its ends, or it goes round and lies on both sides. -/
theorem mem_window {i : Nat} (ha : a < cap) (hb : b < cap) :
    i ∈ window cap a b ↔ i < cap ∧ (a ≤ i ∧ i < b ∨ b < a ∧ (a ≤ i ∨ i < b)) := by
  have hlen : (b + cap - a) % cap = if a ≤ b then b - a else b + cap - a := by
    split
    · have he : b + cap - a = b - a + cap := by omega
      rw [he, Nat.add_mod_right, Nat.mod_eq_of_lt (by omega)]
    · exact Nat.mod_eq_of_lt (by omega)
  rw [window, hlen, List.mem_map]
  constructor
  · rintro ⟨k, hk, rfl⟩
    rw [List.mem_range] at hk
    by_cases hwrap : a + k < cap
    · rw [Nat.mod_eq_of_lt hwrap]
      split at hk <;> omega
    · rw [Nat.mod_eq_sub_mod (by omega), Nat.mod_eq_of_lt (by split at hk <;> omega)]
      split at hk <;> omega
  · rintro ⟨hi, h⟩
    by_cases hai : a ≤ i
    · refine ⟨i - a, ?_, ?_⟩
      · rw [List.mem_range]
        split <;> omega
      · rw [Nat.add_sub_cancel' hai, Nat.mod_eq_of_lt hi]
    · refine ⟨i + cap - a, ?_, ?_⟩
      · rw [List.mem_range]
        split <;> omega
      · have he : a + (i + cap - a) = i + cap := by omega
        rw [he, Nat.add_mod_right, Nat.mod_eq_of_lt hi]

end Opsian.Lib.Ring
