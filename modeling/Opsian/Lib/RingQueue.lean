import Opsian.Lib.Ring

/-! # A queue in a ring

A ring with a slot to spare holds a queue from `output` up to `input`. What a
slot holds is a relation: a push may change it at `input` only, and a pop at
`output` only. -/
namespace Opsian.Lib.RingQueue

variable {W : Type u}

/-- The slots from `output` on hold the entries of `q`, in order. -/
structure Stores (cap : Nat) (R : Nat → W → Prop) (output input : Nat) (q : List W) : Prop where
  output_lt : output < cap
  input_eq : input = (output + q.length) % cap
  room : q.length < cap
  held : ∀ k w, q[k]? = some w → R ((output + k) % cap) w

variable {cap output input : Nat} {R R' : Nat → W → Prop} {q : List W} {w : W}

theorem stores_nil (h : 0 < cap) : Stores cap R 0 0 [] where
  output_lt := h
  input_eq := (Nat.zero_mod cap).symm
  room := h
  held := fun _ _ hw => by cases hw

namespace Stores

theorem output_mod (h : Stores cap R output input q) : output % cap = output :=
  Nat.mod_eq_of_lt h.output_lt

/-- The spare slot tells a full ring. -/
theorem full_iff (h : Stores cap R output input q) :
    output = Ring.advance cap input ↔ q.length + 1 = cap := by
  have hroom := h.room
  have hfull : output % cap = Ring.advance cap ((output + q.length) % cap) ↔
      output + q.length + 1 = output + cap :=
    Ring.mod_eq_advance_iff (Nat.le_add_right _ _) (by omega)
  rw [h.output_mod, ← h.input_eq] at hfull
  rw [hfull]
  omega

/-- Entries of the queue, and the slot behind them, have slots of their own. -/
theorem slot_inj (h : Stores cap R output input q) {j k : Nat} (hj : j ≤ q.length)
    (hk : k ≤ q.length) (he : (output + j) % cap = (output + k) % cap) : j = k := by
  have hroom := h.room
  have heq := Ring.eq_of_mod_eq (Nat.le_add_right output j) (by omega) (Nat.le_add_right _ _)
    (by omega) he
  omega

theorem empty_iff (h : Stores cap R output input q) : output = input ↔ q = [] := by
  rw [← List.length_eq_zero_iff]
  constructor
  · intro he
    refine (h.slot_inj (Nat.zero_le _) (Nat.le_refl _) ?_).symm
    rw [Nat.add_zero, h.output_mod, ← h.input_eq, ← he]
  · intro hzero
    rw [h.input_eq, hzero, Nat.add_zero, h.output_mod]

theorem slot_ne_input (h : Stores cap R output input q) {k : Nat} (hk : k < q.length) :
    (output + k) % cap ≠ input := by
  rw [h.input_eq]
  intro he
  exact absurd (h.slot_inj (Nat.le_of_lt hk) (Nat.le_refl _) he) (Nat.ne_of_lt hk)

/-- The window from `output` to `input` is where the entries are. -/
theorem mem_window (h : Stores cap R output input q) {i : Nat} :
    i ∈ Ring.window cap output input ↔ ∃ k < q.length, (output + k) % cap = i := by
  have hroom := h.room
  have hwindow : Ring.window cap (output % cap) ((output + q.length) % cap) =
      Ring.slots cap output (output + q.length - output) :=
    Ring.window_mod (Nat.le_add_right _ _) (by omega)
  rw [h.output_mod, ← h.input_eq, Nat.add_sub_cancel_left] at hwindow
  rw [hwindow, Ring.slots, List.mem_map]
  constructor
  · rintro ⟨n, hn, rfl⟩
    rw [List.mem_range'_1] at hn
    exact ⟨n - output, by omega, by rw [Nat.add_sub_cancel' hn.1]⟩
  · rintro ⟨k, hk, rfl⟩
    exact ⟨output + k, List.mem_range'_1.mpr ⟨by omega, by omega⟩, rfl⟩

/-- What the slots of the window hold, where they hold one thing each. -/
theorem map_window (h : Stores cap R output input q) {g : Nat → W} (hg : ∀ i w, R i w → g i = w) :
    (Ring.window cap output input).map g = q := by
  have hroom := h.room
  have hwindow : Ring.window cap (output % cap) ((output + q.length) % cap) =
      Ring.slots cap output (output + q.length - output) :=
    Ring.window_mod (Nat.le_add_right _ _) (by omega)
  rw [h.output_mod, ← h.input_eq, Nat.add_sub_cancel_left] at hwindow
  refine List.ext_getElem? fun k => ?_
  rw [hwindow, Ring.slots, List.map_map, List.getElem?_map]
  by_cases hk : k < q.length
  · rw [List.getElem?_range' hk, Nat.one_mul, Option.map_some, List.getElem?_eq_getElem hk]
    exact congrArg some (hg _ _ (h.held k _ (List.getElem?_eq_getElem hk)))
  · rw [List.getElem?_eq_none (Nat.le_of_not_lt hk), List.getElem?_eq_none]
    · rfl
    · rw [List.length_range']
      exact Nat.le_of_not_lt hk

theorem input_unused (h : Stores cap R output input q) : input ∉ Ring.window cap output input := by
  rw [h.mem_window]
  rintro ⟨k, hk, he⟩
  exact h.slot_ne_input hk he

theorem push (h : Stores cap R output input q) (hfull : output ≠ Ring.advance cap input)
    (hold : ∀ i w, i ≠ input → R i w → R' i w) (hnew : R' input w) :
    Stores cap R' output (Ring.advance cap input) (q ++ [w]) where
  output_lt := h.output_lt
  input_eq := by
    rw [h.input_eq, Ring.advance_mod, List.length_append, List.length_singleton, Nat.add_assoc]
  room := by
    have hroom := h.room
    have hne := mt h.full_iff.mpr hfull
    rw [List.length_append, List.length_singleton]
    omega
  held := by
    intro k v hv
    rcases Nat.lt_trichotomy k q.length with hlt | rfl | hgt
    · rw [List.getElem?_append_left hlt] at hv
      exact hold _ _ (h.slot_ne_input hlt) (h.held k v hv)
    · rw [List.getElem?_concat_length] at hv
      cases hv
      rwa [← h.input_eq]
    · have hlength : (q ++ [w]).length ≤ k := by
        rw [List.length_append]
        exact hgt
      rw [List.getElem?_eq_none hlength] at hv
      cases hv

theorem head (h : Stores cap R output input (w :: q)) : R output w := by
  have hhead := h.held 0 w rfl
  rwa [Nat.add_zero, h.output_mod] at hhead

theorem advance_add (k : Nat) : (Ring.advance cap output + k) % cap = (output + (k + 1)) % cap := by
  rw [Ring.advance, Nat.mod_add_mod]
  congr 1
  omega

theorem pop (h : Stores cap R output input (w :: q))
    (hold : ∀ i w, i ≠ output → R i w → R' i w) :
    Stores cap R' (Ring.advance cap output) input q where
  output_lt := Nat.mod_lt _ (Nat.lt_of_le_of_lt (Nat.zero_le _) h.output_lt)
  input_eq := by rw [advance_add, h.input_eq, List.length_cons]
  room := Nat.lt_of_succ_lt h.room
  held := by
    intro k v hv
    have hk : k < q.length := (List.getElem?_eq_some_iff.mp hv).1
    rw [advance_add]
    refine hold _ _ (fun he => ?_) (h.held (k + 1) v hv)
    have hzero : (output + (k + 1)) % cap = (output + 0) % cap := by
      rw [he, Nat.add_zero, h.output_mod]
    exact absurd (h.slot_inj (Nat.succ_le_succ (Nat.le_of_lt hk)) (Nat.zero_le _) hzero)
      (Nat.succ_ne_zero k)

/-- A slot that is unused behind a push was so before, and is not the one pushed to. -/
theorem unused_of_push (h : Stores cap R output input q)
    (h' : Stores cap R' output (Ring.advance cap input) (q ++ [w])) {i : Nat}
    (hi : i ∉ Ring.window cap output (Ring.advance cap input)) :
    i ∉ Ring.window cap output input ∧ i ≠ input := by
  rw [h'.mem_window] at hi
  have hlength : (q ++ [w]).length = q.length + 1 := by simp
  rw [hlength] at hi
  constructor
  · rw [h.mem_window]
    rintro ⟨k, hk, he⟩
    exact hi ⟨k, Nat.lt_succ_of_lt hk, he⟩
  · rintro rfl
    exact hi ⟨q.length, Nat.lt_succ_self _, h.input_eq.symm⟩

/-- A slot that is unused behind a pop is the one popped from, or was so before. -/
theorem unused_of_pop (h : Stores cap R output input (w :: q))
    (h' : Stores cap R' (Ring.advance cap output) input q) {i : Nat}
    (hi : i ∉ Ring.window cap (Ring.advance cap output) input) :
    i = output ∨ i ∉ Ring.window cap output input := by
  by_cases hio : i = output
  · exact .inl hio
  · refine .inr fun hmem => hi ?_
    obtain ⟨k, hk, he⟩ := h.mem_window.mp hmem
    cases k with
    | zero =>
      rw [Nat.add_zero, h.output_mod] at he
      exact absurd he.symm hio
    | succ k => exact h'.mem_window.mpr ⟨k, Nat.lt_of_succ_lt_succ hk, by rw [advance_add, he]⟩

end Stores

end Opsian.Lib.RingQueue
