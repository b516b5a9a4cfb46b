import Opsian.Concurrent.Compaction

/-! # Every sequence of calls

Each call of a thread that is alone returns what the finite map answers, and what it leaves
represents the finite map again. -/
namespace Opsian.Concurrent.FiniteMap
open Opsian.Lib Opsian.Lib.Probing Opsian.Lib.Simulation
open Opsian.Concurrent.ConcurrentMap Opsian.Concurrent.Refinement Opsian.Concurrent.Compaction

variable {K V : Type} [DecidableEq K] {hash : K → UInt64} {n bits maxLoad : Nat}
  {m : State K V} {t : Table K V} {key : K} {i : Nat}

/-! ## Searches -/

section searches

variable (hn : n = 2 ^ bits) (hbits : bits ≤ 64) (hm : m.sizeMask = n - 1)
include hn hbits hm

theorem searched_assign (value : V) :
    Searched hash n n m key .assign (.done false) (.assignProbe key value (last hash n key))
      (nextAssign m key value (last hash n key) (last hash n key)) :=
  searched_of_probe hn hbits hm fun idx key' hkey hne => by
    simp only [step, hkey, if_neg hne]
    rfl

theorem searched_erase :
    Searched hash n n m key .erase (.done false) (.eraseProbe key (last hash n key))
      (nextErase m key (last hash n key) (last hash n key)) :=
  searched_of_probe hn hbits hm fun idx key' hkey hne => by
    simp only [step, hkey, if_neg hne]
    rfl

theorem searched_get :
    Searched hash n n m key .get (.value none) (.getProbe key (last hash n key))
      (nextGet m key (last hash n key) (last hash n key)) :=
  searched_of_probe hn hbits hm fun idx key' hkey hne => by
    simp only [step, hkey, if_neg hne]
    rfl

end searches

/-! ## Assign -/

section assign

variable {value : V} {p : Nat}

/-- The value is stored in the cell of the key. -/
theorem reaches_known (hkey : keysOf m.cells i = some key) :
    Reaches hash 3 (.assignProbe key value p i, m)
      (.returned (.done true), m.fetchSub.setValue i (some value)) := by
  have hprobe : step hash m (.assignProbe key value p i) = (.assignKnown value i, m) := by
    rw [step, show (m.cells i).key = some key from hkey]
    exact if_pos rfl
  refine Reaches.next hprobe ?_
  exact Reaches.step (Reaches.step (.refl _ _))

/-- An empty cell is taken for the key. -/
theorem reaches_taken (hnone : keysOf m.cells i = none) :
    Reaches hash 3 (.assignProbe key value p i, m)
      (.returned (.done true), (m.setKey i (some key)).setValue i (some value)) := by
  have hprobe : step hash m (.assignProbe key value p i) = (.assignTake key value p i, m) := by
    rw [step, show (m.cells i).key = none from hnone]
  have htake : step hash m (.assignTake key value p i) =
      (.assignStore value i, m.setKey i (some key)) := by
    rw [step, show (m.cells i).key = none from hnone]
  refine Reaches.next hprobe ?_
  refine Reaches.next htake ?_
  exact Reaches.step (.refl _ _)

theorem assign_reaches (hn : n = 2 ^ bits) (hbits : bits ≤ 64) (hload : maxLoad < n)
    (h : Represents hash n maxLoad m t) (key : K) (value : V) :
    ∃ m', Reaches hash (n + 4) (.assignAdd key value, m)
        (.returned (answerOf maxLoad t (.assign (some key) (some value))).1, m') ∧
      Represents hash n maxLoad m' (answerOf maxLoad t (.assign (some key) (some value))).2 := by
  rw [answerOf, ← h.size]
  by_cases hfull : maxLoad ≤ m.size
  · have hadd : step hash m (.assignAdd key value) = (.assignLimit, m.fetchAdd) := by
      rw [step, h.load, if_pos hfull]
    have hlimit : Reaches hash 2 (.assignAdd key value, m) (.returned (.done false), m) := by
      refine Reaches.next hadd ?_
      exact Reaches.step (.refl _ _)
    rw [if_pos hfull]
    exact ⟨m, hlimit.mono (by omega), h⟩
  · have hadd : step hash m (.assignAdd key value) =
        nextAssign m.fetchAdd key value (last hash n key) (last hash n key) := by
      rw [step, h.load, if_neg hfull, predecessorIndex_eq hn h.sizeMask]
    rw [if_neg hfull]
    rcases searched_assign (m := m.fetchAdd) hn hbits h.sizeMask value with
      ⟨i, ha, hnone | hkey, hr⟩ | ⟨helse, -⟩
    · refine ⟨_, ?_, h.taken hn ha hnone (Nat.lt_of_not_le hfull) value⟩
      refine Reaches.next hadd ?_
      exact hr.trans (reaches_taken hnone)
    · refine ⟨_, ?_, h.known ha.lt hkey value⟩
      refine Reaches.next hadd ?_
      exact hr.trans (reaches_known hkey)
    · -- An empty cell is left, also apart from the one before the home.
      have hoccupied := h.occupied
      obtain ⟨j, hj, hjlast, hnone⟩ : ∃ j < n, j ≠ last hash n key ∧ keysOf m.cells j = none :=
        exists_empty_ne (by omega) _
      exact absurd hnone (helse j hj hjlast).1

end assign

/-! ## Erase -/

section erase

theorem reaches_null (hkey : keysOf m.cells i = some key) {p : Nat} :
    Reaches hash 3 (.eraseProbe key p i, m)
      (nextCompact ((m.setValue i none).setKey i none) i i i) := by
  have hprobe : step hash m (.eraseProbe key p i) = (.eraseValue i, m) := by
    rw [step, show (m.cells i).key = some key from hkey]
    exact if_pos rfl
  refine Reaches.next hprobe ?_
  exact .step (.step (.refl _ _))

/-- Some cell apart from the deleted one is empty, as the load limit is below the capacity. -/
theorem compacting_erase (hload : maxLoad < n) (h : Represents hash n maxLoad m t) (hi : i < n)
    (hkey : keysOf m.cells i = some key) :
    Compacting hash n maxLoad i i i ((m.setValue i none).setKey i none) (t.erase key) := by
  have hcells := cells_setKey m i ⟨none, none⟩
  have hkeys := congrArg keysOf hcells
  rw [keysOf_update] at hkeys
  have hoccupied := h.occupied
  have hfull := h.full
  have hempty := occupied_update_none hi hkey
  have hmem := h.holds.mem hi hkey
  refine ⟨h.sizeMask, h.load, ?_, ?_, h.full, hi, hi, Nat.le_refl _, ?_, ?_, ?_, h.cycles⟩
  · rw [Table.size_erase hmem]
    exact h.size
  · refine (congrArg (occupied n · + 1) hkeys).trans ?_
    exact hempty.trans hoccupied
  · rw [hkeys]
    exact h.chained.erase hi
  · rw [hcells]
    exact h.holds.erase hi (h.cell hi hkey) hkey
  · obtain ⟨e, he, hne, hnone⟩ :
        ∃ e < n, e ≠ i ∧ Function.update (keysOf m.cells) i none e = none :=
      exists_empty_ne (by omega) i
    refine ⟨e, he, hne, ?_, ?_⟩
    · rw [hkeys]
      exact hnone
    · rw [offset_self]
      refine Nat.pos_of_ne_zero fun hzero => hne (offset_inj hi he hi ?_)
      rw [hzero, offset_self]

theorem erase_reaches (hn : n = 2 ^ bits) (hbits : bits ≤ 64) (hload : maxLoad < n)
    (h : Represents hash n maxLoad m t) (key : K) :
    ∃ m', Reaches hash (n + (3 + 6 * n)) (begin hash m (.erase (some key)))
        (.returned (answerOf maxLoad t (.erase (some key))).1, m') ∧
      Represents hash n maxLoad m' (answerOf maxLoad t (.erase (some key))).2 := by
  rw [answerOf, begin, predecessorIndex_eq hn h.sizeMask]
  have hvain (hnot : key ∉ t) : decide (key ∈ t) = false ∧ t.erase key = t :=
    ⟨decide_eq_false hnot, Table.erase_of_not_mem hnot⟩
  rcases searched_erase hn hbits h.sizeMask with ⟨i, ha, hnone | hkey, hr⟩ | ⟨helse, hr⟩
  · rw [(hvain (h.absent hn ha hnone)).1, (hvain (h.absent hn ha hnone)).2]
    refine ⟨m, (hr.trans (b := 1) (.step ?_)).mono (by omega), h⟩
    rw [step, show (m.cells i).key = none from hnone]
    exact .refl _ _
  · have hmem := h.holds.mem ha.lt hkey
    obtain ⟨m', hcompact, hm'⟩ := compact_reaches hn (compacting_erase hload h ha.lt hkey)
    rw [decide_eq_true hmem]
    refine ⟨m', hr.trans ((reaches_null hkey).trans (hcompact.mono ?_)), hm'⟩
    exact Nat.mul_le_mul_left 6 (Nat.sub_le _ _)
  · rw [(hvain (h.elsewhere hn hbits helse)).1, (hvain (h.elsewhere hn hbits helse)).2]
    exact ⟨m.log .erase, hr.mono (by omega), h.log (.inr rfl)⟩

end erase

/-! ## Get -/

section get

theorem reaches_value (hkey : keysOf m.cells i = some key) {p : Nat} :
    Reaches hash 3 (.getProbe key p i, m) (.returned (.value (m.cells i).value), m) := by
  have hprobe : step hash m (.getProbe key p i) = (.getValue key p i, m) := by
    rw [step, show (m.cells i).key = some key from hkey]
    exact if_pos rfl
  have hagain : step hash m (.getAgain key p i (m.cells i).value) =
      (.returned (.value (m.cells i).value), m) := by
    rw [step]
    exact if_pos hkey
  refine Reaches.next hprobe ?_
  refine Reaches.step (Reaches.step ?_)
  show Reaches hash 0 (step hash m (.getAgain key p i (m.cells i).value)) _
  rw [hagain]
  exact .refl _ _

theorem get_reaches (hn : n = 2 ^ bits) (hbits : bits ≤ 64) (h : Represents hash n maxLoad m t)
    (key : K) :
    ∃ m', Reaches hash (n + 3) (begin hash m (.get (some key)))
        (.returned (answerOf maxLoad t (.get (some key))).1, m') ∧
      Represents hash n maxLoad m' (answerOf maxLoad t (.get (some key))).2 := by
  rw [answerOf, begin, predecessorIndex_eq hn h.sizeMask]
  rcases searched_get hn hbits h.sizeMask with ⟨i, ha, hnone | hkey, hr⟩ | ⟨helse, hr⟩
  · rw [AList.lookup_eq_none.mpr (h.absent hn ha hnone)]
    refine ⟨m, (hr.trans (b := 1) (.step ?_)).mono (by omega), h⟩
    rw [step, show (m.cells i).key = none from hnone]
    exact .refl _ _
  · rw [← h.holds.lookup ha.lt hkey]
    exact ⟨m, hr.trans (reaches_value hkey), h⟩
  · rw [AList.lookup_eq_none.mpr (h.elsewhere hn hbits helse)]
    exact ⟨m.log .get, hr.mono (by omega), h.log (.inl rfl)⟩

end get

/-! ## Runs -/

section runs

/-- One call. -/
theorem call_eq (hn : n = 2 ^ bits) (hbits : bits ≤ 64) (hload : maxLoad < n)
    (h : Represents hash n maxLoad m t) (op : Op K V) :
    ∃ m', call hash m op = some ((answerOf maxLoad t op).1, m') ∧
      Represents hash n maxLoad m' (answerOf maxLoad t op).2 := by
  have hmask : m.sizeMask + 1 = n := by
    have hpos := Nat.two_pow_pos bits
    have hm := h.sizeMask
    omega
  have hcall {k : Nat} {answer : Answer V} {m' : State K V} (hk : k ≤ 7 * n + 6)
      (hr : Reaches hash k (begin hash m op) (.returned answer, m')) :
      call hash m op = some (answer, m') :=
    call_of_reaches (hmask ▸ hr.mono hk)
  match op with
  | .assign (some key) (some value) =>
    obtain ⟨m', hr, hm'⟩ := assign_reaches hn hbits hload h key value
    exact ⟨m', hcall (by omega) hr, hm'⟩
  | .assign none _ | .assign (some _) none | .erase none | .get none =>
    exact ⟨m, hcall (Nat.zero_le _) (.refl _ _), h⟩
  | .erase (some key) =>
    obtain ⟨m', hr, hm'⟩ := erase_reaches hn hbits hload h key
    exact ⟨m', hcall (by omega) hr, hm'⟩
  | .get (some key) =>
    obtain ⟨m', hr, hm'⟩ := get_reaches hn hbits h key
    exact ⟨m', hcall (by omega) hr, hm'⟩
  | .clear =>
    exact ⟨m.clear, hcall (Nat.zero_le _) (.refl _ _),
      represents_clear hn h.sizeMask h.load h.cycles⟩

/-- A sequence of calls. -/
theorem exec_call_eq (hn : n = 2 ^ bits) (hbits : bits ≤ 64) (hload : maxLoad < n)
    (h : Represents hash n maxLoad m t) (ops : List (Op K V)) :
    ∃ m', exec (call hash) m ops = some ((answers (answerOf maxLoad) t ops).1, m') ∧
      Represents hash n maxLoad m' (answers (answerOf maxLoad) t ops).2 := by
  have hstep : ∀ (m : State K V) t op, Represents hash n maxLoad m t → True →
      ∃ m', call hash m op = some ((answerOf maxLoad t op).1, m') ∧
        Represents hash n maxLoad m' (answerOf maxLoad t op).2 :=
    fun m t op h _ => call_eq hn hbits hload h op
  exact exec_eq_answers hstep h fun _ _ => trivial

/-- A map of any capacity below the range of `ureg` answers every sequence of calls as the
finite map does, and keeps it. -/
theorem refines_finite_map (hash : K → UInt64) (bits maxLoad : Nat) (hbits : bits < 64)
    (hload : maxLoad < 2 ^ bits) (cells : Nat → Cell K V) (ops : List (Op K V)) :
    ∃ m, exec (call hash) (State.init (2 ^ bits) maxLoad cells) ops =
        some ((answers (answerOf maxLoad) ∅ ops).1, m) ∧
      Represents hash (2 ^ bits) maxLoad m (answers (answerOf maxLoad) ∅ ops).2 :=
  exec_call_eq rfl (Nat.le_of_lt hbits) hload (represents_init hash bits maxLoad cells) ops

/-- Two keys with one home, of which the first is erased and the second moved. -/
theorem colliding_keys :
    ∃ m, exec (call fun key : Nat => UInt64.ofNat key) (State.init (2 ^ 2) 3 fun _ => ⟨none, none⟩)
      [.assign (some 1) (some 10), .assign (some 5) (some 50), .erase (some 1), .get (some 5),
        .get (some 1)] =
      some ([.done true, .done true, .done true, .value (some 50), .value none], m) := by
  obtain ⟨m, hm, -⟩ := refines_finite_map (fun key : Nat => UInt64.ofNat key) 2 3
    (by omega) (by omega) (fun _ => ⟨none, none⟩)
    [.assign (some 1) (some 10), .assign (some 5) (some 50), .erase (some 1), .get (some 5),
      .get (some 1)]
  exact ⟨m, hm⟩

end runs

end Opsian.Concurrent.FiniteMap
