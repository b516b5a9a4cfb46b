import Opsian.Concurrent.Misses
import Opsian.Lib.History

/-! # What a reader answers

However the accesses of the writer fall between those of a reader, the reader loads the key
of a cell before and behind its value. As no key comes back to a cell that it was moved from,
the value is that of the key, or none. -/
namespace Opsian.Concurrent.Answers
open Opsian.Lib Opsian.Lib.History Opsian.Lib.Probing Opsian.Lib.Runs Opsian.Lib.Simulation
open Opsian.Concurrent.ConcurrentMap Opsian.Concurrent.Refinement Opsian.Concurrent.Accesses
open Opsian.Concurrent.FiniteMap Opsian.Concurrent.Placement Opsian.Concurrent.Readers
open Opsian.Concurrent.Misses

variable {K V : Type} {hash : K → UInt64} {n bits maxLoad initial i idx : Nat} {k : K}
  {v : V} {found : Option V} {cells cells' : Nat → Cell K V} {m : State K V}
  {w access : Access K V} {loads : Nat} {reader : Option (Access K V)}

/-! ## How far the reader is -/

section pacing

/-- Three accesses to each cell from the home on. -/
inductive Pacing (hash : K → UInt64) (n : Nat) (k : K) : Nat → Option (Access K V) → Prop
  | idle : Pacing hash n k 0 none
  | probe {loads idx : Nat} (hidx : idx < n) (hinside : offset n (home hash n k) idx + 1 < n)
    (hloads : loads ≤ 3 * offset n (home hash n k) idx) :
    Pacing hash n k loads (some (.getProbe k (last hash n k) idx))
  | value {loads idx : Nat} (hidx : idx < n) (hinside : offset n (home hash n k) idx + 1 < n)
    (hloads : loads ≤ 3 * offset n (home hash n k) idx + 1) :
    Pacing hash n k loads (some (.getValue k (last hash n k) idx))
  | again {loads idx : Nat} {value : Option V} (hidx : idx < n)
    (hinside : offset n (home hash n k) idx + 1 < n)
    (hloads : loads ≤ 3 * offset n (home hash n k) idx + 2) :
    Pacing hash n k loads (some (.getAgain k (last hash n k) idx value))
  | returned {loads : Nat} {value : Option V} (hloads : loads ≤ 3 * n) :
    Pacing hash n k loads (some (.returned (.value value)))

theorem Pacing.le (h : Pacing hash n k loads reader) : loads ≤ 3 * n := by
  cases h with
  | idle => exact Nat.zero_le _
  | probe _ hinside hloads | value _ hinside hloads | again _ hinside hloads => omega
  | returned hloads => exact hloads

theorem pacing_begin [DecidableEq K] (hn : n = 2 ^ bits) (hbits : bits ≤ 64)
    (hm : m.sizeMask = n - 1) : Pacing hash n k 0 (some (begin hash m (.get (some k))).1) := by
  rw [begin, predecessorIndex_eq hn hm, nextGet]
  rcases probe_first k .get (.value none) (.getProbe k (last hash n k)) hn hbits hm with
    ⟨-, hprobe⟩ | ⟨ha, hprobe⟩
  · rw [hprobe]
    exact .returned (Nat.zero_le _)
  · rw [hprobe]
    exact .probe ha.lt ha.inside (Nat.zero_le _)

/-- The cell of the next round is further from the home by one. -/
theorem offset_next_cell (hn : n = 2 ^ bits) (hbits : bits ≤ 64) (hidx : idx < n)
    (hinside : offset n (home hash n k) idx + 1 < n) :
    offset n (home hash n k) (next n idx) = offset n (home hash n k) idx + 1 := by
  have hlast := offset_of_next (last_lt hash hn k) (next_last hash hn hbits k)
  refine offset_next (home_lt hash hn k) fun he => ?_
  have hend := offset_of_next hidx he
  omega

/-- The next round: the cell behind, unless that is the last one. -/
theorem pacing_next (hn : n = 2 ^ bits) (hbits : bits ≤ 64) (hm : m.sizeMask = n - 1)
    (hidx : idx < n) (hinside : offset n (home hash n k) idx + 1 < n)
    (hloads : loads ≤ 3 * offset n (home hash n k) idx + 3) :
    Pacing hash n k loads (some (nextGet m k (last hash n k) idx).1) := by
  have hhome := home_lt hash hn k
  have hlast := offset_of_next (last_lt hash hn k) (next_last hash hn hbits k)
  have hnext := offset_next_cell hn hbits hidx hinside
  rw [nextGet, probe, nextIndex_eq hn hm hidx]
  split
  · exact .returned (by omega)
  · rename_i hne
    have hdiffer : offset n (home hash n k) (next n idx) ≠ offset n (home hash n k)
        (last hash n k) := fun heq =>
      hne (offset_inj hhome (next_lt hidx) (last_lt hash hn k) heq).symm
    have hin := offset_lt hhome (next_lt hidx)
    exact .probe (next_lt hidx) (by omega) (by omega)

theorem pacing_read [DecidableEq K] (hn : n = 2 ^ bits) (hbits : bits ≤ 64)
    (hm : m.sizeMask = n - 1) (h : Pacing hash n k loads (some access))
    (hanswer : access.answer? = none) :
    Pacing hash n k (loads + 1) (some (ConcurrentMap.step hash m access).1) := by
  cases h with
  | probe hidx hinside hloads =>
    rw [ConcurrentMap.step]
    split
    · exact .returned (by omega)
    · split
      · exact .value hidx hinside (by omega)
      · exact pacing_next hn hbits hm hidx hinside (by omega)
  | value hidx hinside hloads => exact .again hidx hinside (by omega)
  | again hidx hinside hloads =>
    rw [ConcurrentMap.step]
    split
    · exact .returned (by omega)
    · exact pacing_next hn hbits hm hidx hinside (by omega)
  | returned => cases hanswer

end pacing

/-! ## Which cells it has accessed -/

section visited

/-- The cell that the next access of a reader is to. -/
def cellOf : Access K V → Option Nat
  | .getProbe _ _ idx | .getValue _ _ idx | .getAgain _ _ idx _ => some idx
  | _ => none

/-- How often the reader has accessed that cell. -/
def rounds : Access K V → Nat
  | .getValue .. => 1
  | .getAgain .. => 2
  | _ => 0

/-- Behind a turn, the cells that the reader has accessed, with their repetitions. -/
def noteCell (accessed : List Nat) (s : Threads K V) : Turn K V → Threads K V → List Nat
  | .read, _ => accessed ++ (s.reader.bind cellOf).toList
  | _, _ => accessed

/-- None of them is ahead of the reader. -/
inductive Visited (hash : K → UInt64) (n : Nat) (k : K) :
    List Nat → Option (Access K V) → Prop
  | idle : Visited hash n k [] none
  | reading {accessed : List Nat} {access : Access K V} {idx : Nat}
    (hcell : cellOf access = some idx)
    (hbehind : ∀ i ∈ accessed, offset n (home hash n k) i ≤ offset n (home hash n k) idx)
    (hhere : accessed.count idx ≤ rounds access) (hcount : ∀ i, accessed.count i ≤ 3) :
    Visited hash n k accessed (some access)
  | returned {accessed : List Nat} {answer : Answer V} (hcount : ∀ i, accessed.count i ≤ 3) :
    Visited hash n k accessed (some (.returned answer))

variable {accessed : List Nat}

theorem rounds_le (access : Access K V) : rounds access ≤ 2 := by
  cases access <;> exact Nat.le_of_ble_eq_true rfl

theorem Visited.count_le (h : Visited hash n k accessed reader) (i : Nat) :
    accessed.count i ≤ 3 := by
  cases h with
  | idle => exact Nat.zero_le 3
  | reading _ _ _ hcount | returned hcount => exact hcount i

theorem visited_begin (h : Pacing hash n k loads (some access)) :
    Visited hash n k [] (some access) := by
  cases h with
  | probe | value | again =>
    exact .reading rfl (fun i hi => nomatch hi) (Nat.zero_le _) fun i => Nat.zero_le 3
  | returned => exact .returned fun i => Nat.zero_le 3

theorem visited_next (hn : n = 2 ^ bits) (hbits : bits ≤ 64) (hm : m.sizeMask = n - 1)
    (hidx : idx < n) (hinside : offset n (home hash n k) idx + 1 < n)
    (hbehind : ∀ i ∈ accessed, offset n (home hash n k) i ≤ offset n (home hash n k) idx)
    (hcount : ∀ i, accessed.count i ≤ 3) :
    Visited hash n k accessed (some (nextGet m k (last hash n k) idx).1) := by
  have hnext := offset_next_cell hn hbits hidx hinside
  rw [nextGet, probe, nextIndex_eq hn hm hidx]
  split
  · exact .returned hcount
  · have hnew : next n idx ∉ accessed := fun hmem => by
      have hle := hbehind _ hmem
      omega
    refine .reading rfl (fun i hi => ?_) (Nat.le_of_eq (List.count_eq_zero.mpr hnew)) hcount
    have hle := hbehind i hi
    omega

/-- The cell of the reader is accessed once more. -/
theorem visited_access (hbehind : ∀ i ∈ accessed,
      offset n (home hash n k) i ≤ offset n (home hash n k) idx)
    (hhere : accessed.count idx ≤ 2) (hcount : ∀ i, accessed.count i ≤ 3) :
    (∀ i ∈ accessed ++ [idx], offset n (home hash n k) i ≤ offset n (home hash n k) idx) ∧
      ∀ i, (accessed ++ [idx]).count i ≤ 3 := by
  refine ⟨fun i hi => ?_, fun i => ?_⟩
  · rcases List.mem_append.mp hi with hi | hi
    · exact hbehind i hi
    · rw [List.mem_singleton.mp hi]
  · rw [List.count_append, List.count_singleton]
    split
    · rename_i he
      rw [← eq_of_beq he]
      omega
    · exact hcount i

theorem visited_read [DecidableEq K] (hn : n = 2 ^ bits) (hbits : bits ≤ 64)
    (hm : m.sizeMask = n - 1) (hpacing : Pacing hash n k loads (some access))
    (hanswer : access.answer? = none) (h : Visited hash n k accessed (some access)) :
    Visited hash n k (accessed ++ (cellOf access).toList)
      (some (ConcurrentMap.step hash m access).1) := by
  cases h with
  | returned => cases hanswer
  | @reading _ _ idx hcell hbehind hhere hcount =>
    obtain ⟨hbehind', hcount'⟩ :=
      visited_access hbehind (Nat.le_trans hhere (rounds_le access)) hcount
    have hadded : (accessed ++ [idx]).count idx ≤ rounds access + 1 := by
      rw [List.count_append, List.count_singleton_self]
      exact Nat.add_le_add_right hhere 1
    rw [hcell]
    cases hpacing with
    | probe hidx hinside =>
      cases hcell
      rw [ConcurrentMap.step]
      split
      · exact .returned hcount'
      · split
        · exact .reading rfl hbehind' hadded hcount'
        · exact visited_next hn hbits hm hidx hinside hbehind' hcount'
    | value =>
      cases hcell
      exact .reading rfl hbehind' hadded hcount'
    | again hidx hinside =>
      cases hcell
      rw [ConcurrentMap.step]
      split
      · exact .returned hcount'
      · exact visited_next hn hbits hm hidx hinside hbehind' hcount'
    | returned => cases hcell

end visited

/-! ## What the writer leaves -/

section leaves

/-- Every cell with the key is before this one. -/
def Passed (hash : K → UInt64) (n : Nat) (k : K) (cells : Nat → Cell K V) (idx : Nat) : Prop :=
  ∀ d < n, keysOf cells d = some k →
    offset n (home hash n k) d < offset n (home hash n k) idx

/-- A key gets into a cell only from one further on, and where it was taken out of one it is
only in cells before it. -/
structure Leaves (hash : K → UInt64) (n : Nat) (k : K) (cells cells' : Nat → Cell K V) :
    Prop where
  new : ∀ i < n, keysOf cells' i = some k → keysOf cells i = some k ∨
    ∃ c < n, keysOf cells c = some k ∧
      offset n (home hash n k) i < offset n (home hash n k) c
  gone : ∀ i < n, keysOf cells i = some k →
    keysOf cells' i = some k ∨ Passed hash n k cells' i

/-- The cells with the key have its value, or none. -/
def Truthful (n : Nat) (k : K) (found : Option V) (cells : Nat → Cell K V) : Prop :=
  ∀ i < n, keysOf cells i = some k → (cells i).value = none ∨ (cells i).value = found

theorem leaves_refl (cells : Nat → Cell K V) : Leaves hash n k cells cells :=
  ⟨fun _ _ hkey => .inl hkey, fun _ _ hkey => .inl hkey⟩

theorem leaves_of_absent (h : ∀ i < n, keysOf cells i ≠ some k)
    (h' : ∀ i < n, keysOf cells' i ≠ some k) : Leaves hash n k cells cells' :=
  ⟨fun i hi hkey => absurd hkey (h' i hi), fun i hi hkey => absurd hkey (h i hi)⟩

theorem Passed.leaves (h : Passed hash n k cells idx) (hleaves : Leaves hash n k cells cells') :
    Passed hash n k cells' idx := by
  intro d hd hkey
  rcases hleaves.new d hd hkey with hold | ⟨c, hc, hold, hlt⟩
  · exact h d hd hold
  · exact Nat.lt_trans hlt (h c hc hold)

theorem Truthful.update {cell : Cell K V} (h : Truthful n k found cells)
    (hcell : cell.key = some k → cell.value = none ∨ cell.value = found) :
    Truthful n k found (Function.update cells i cell) := by
  intro j hj hkey
  by_cases hji : j = i
  · subst hji
    rw [keysOf_update, Function.update_self] at hkey
    rw [Function.update_self]
    exact hcell hkey
  · rw [keysOf_update, Function.update_of_ne hji] at hkey
    rw [Function.update_of_ne hji]
    exact h j hj hkey

end leaves

/-! ## The reader -/

section reader

/-- What the reader knows: the key is still in the cell, with the value that was loaded, or is
only in cells that the reader has passed. -/
inductive Honest (hash : K → UInt64) (n : Nat) (k : K) (found : Option V)
    (cells : Nat → Cell K V) : Option (Access K V) → Prop
  | idle : Honest hash n k found cells none
  | probe {p idx : Nat} : Honest hash n k found cells (some (.getProbe k p idx))
  | value {p idx : Nat} (h : keysOf cells idx = some k ∨ Passed hash n k cells idx) :
    Honest hash n k found cells (some (.getValue k p idx))
  | again {p idx : Nat} {value : Option V}
    (h : (keysOf cells idx = some k ∧ (value = none ∨ value = found)) ∨
      Passed hash n k cells idx) :
    Honest hash n k found cells (some (.getAgain k p idx value))
  | returned {value : Option V} (h : value = none ∨ value = found) :
    Honest hash n k found cells (some (.returned (.value value)))

theorem honest_next {p : Nat} (cells : Nat → Cell K V) :
    Honest hash n k found cells (some (nextGet m k p idx).1) := by
  rw [nextGet, probe]
  split
  · exact .returned (.inl rfl)
  · exact .probe

/-- An access of the writer. -/
theorem Honest.leaves (h : Honest hash n k found cells reader)
    (hpacing : Pacing hash n k loads reader) (hleaves : Leaves hash n k cells cells') :
    Honest hash n k found cells' reader := by
  cases h with
  | idle => exact .idle
  | probe => exact .probe
  | value h =>
    cases hpacing with
    | value hidx =>
      rcases h with hkey | hpassed
      · exact .value (hleaves.gone _ hidx hkey)
      · exact .value (.inr (hpassed.leaves hleaves))
  | again h =>
    cases hpacing with
    | again hidx =>
      rcases h with ⟨hkey, hvalue⟩ | hpassed
      · rcases hleaves.gone _ hidx hkey with hkey' | hpassed
        · exact .again (.inl ⟨hkey', hvalue⟩)
        · exact .again (.inr hpassed)
      · exact .again (.inr (hpassed.leaves hleaves))
  | returned h => exact .returned h

theorem Passed.not_self (h : Passed hash n k cells idx) (hidx : idx < n) :
    keysOf cells idx ≠ some k := fun hkey => Nat.lt_irrefl _ (h idx hidx hkey)

/-- An access of the reader, which writes nothing. -/
theorem Honest.read [DecidableEq K] (h : Honest hash n k found m.cells (some access))
    (hpacing : Pacing hash n k loads (some access)) (htruthful : Truthful n k found m.cells) :
    Honest hash n k found (ConcurrentMap.step hash m access).2.cells
      (some (ConcurrentMap.step hash m access).1) := by
  have hcells : (ConcurrentMap.step hash m access).2.cells = m.cells := by
    funext j
    refine step_cells ?_
    cases h <;> simp [target]
  rw [hcells]
  cases h with
  | @probe p idx =>
    rw [ConcurrentMap.step]
    cases hkey : (m.cells idx).key with
    | none => exact .returned (.inl rfl)
    | some probedKey =>
      dsimp only
      split
      · rename_i heq
        exact .value (.inl (hkey.trans (congrArg some heq)))
      · exact honest_next m.cells
  | @value p idx h =>
    cases hpacing with
    | value hidx =>
      rcases h with hkey | hpassed
      · exact .again (.inl ⟨hkey, htruthful idx hidx hkey⟩)
      · exact .again (.inr hpassed)
  | @again p idx value h =>
    cases hpacing with
    | again hidx =>
      rw [ConcurrentMap.step]
      split
      · rename_i hkey
        rcases h with ⟨-, hvalue⟩ | hpassed
        · exact .returned hvalue
        · exact absurd hkey (hpassed.not_self hidx)
      · exact honest_next m.cells
  | returned h => exact .returned h

end reader

/-! ## A writer beside a key that is bound -/

section bound

variable [DecidableEq K]

theorem kept_truthful (h : Kept hash n maxLoad k v m) : Truthful n k (some v) m.cells := by
  obtain ⟨t, ht, hk⟩ := h
  exact fun i hi hkey => .inr ((ht.holds.lookup hi hkey).trans hk)

theorem closing_truthful {hole index : Nat}
    (h : Closing hash n maxLoad k v initial hole index m) : Truthful n k (some v) m.cells := by
  obtain ⟨t, ht, hk⟩ := h
  exact fun i hi hkey => .inr ((ht.holds.lookup hi hkey).trans hk)

/-- The hole is filled. -/
theorem moving_truthful {deleteIndex index : Nat} {key : K}
    (h : Moving hash n maxLoad k v initial deleteIndex index key m) :
    Truthful n k (some v) ((m.setValue deleteIndex (m.cells (next n index)).value).setKey
      deleteIndex (some key)).cells := by
  rw [filled_cells]
  refine (closing_truthful h.closing).update fun hkey => .inr ?_
  obtain rfl := Option.some.inj hkey
  exact moving_value h

theorem writing_truthful (h : Writing hash n maxLoad k v w m) :
    Truthful n k (some v) m.cells := by
  cases h with
  | returned h | assignAdd h _ | eraseProbe h _ _ => exact kept_truthful h
  | assignLimit h =>
    have htruthful := kept_truthful h
    exact htruthful
  | assignProbe h | assignTake h _ | assignKnown h | storeKnown h | eraseValue h =>
    have htruthful := kept_truthful h.kept
    exact htruthful
  | storeTaken h _ =>
    refine (kept_truthful h.kept).update fun hkey => ?_
    exact absurd (Option.some.inj hkey) h.other
  | eraseKey h => exact (kept_truthful h.kept).update fun _ => .inl rfl
  | compactProbe h | compactEnd h _ => exact closing_truthful h
  | compactLoad h | compactValue h => exact closing_truthful h.closing
  | compactKey h =>
    obtain ⟨t, ht, -⟩ := id h.closing
    refine (closing_truthful h.closing).update fun hkey => ?_
    cases ht.holed.empty.symm.trans hkey
  | compactNullValue h => exact moving_truthful h
  | compactNullKey h => exact (moving_truthful h).update fun _ => .inl rfl

/-- Where the key is nulled in a cell, the others with it are before that one. -/
theorem writing_taken (h : Writing hash n maxLoad k v (.compactNullKey initial i) m)
    (hhome : home hash n k < n) (hkey : keysOf m.cells i = some k) :
    ∀ d < n, d ≠ i → keysOf m.cells d = some k →
      offset n (home hash n k) d < offset n (home hash n k) i := by
  generalize hw : Access.compactNullKey initial i = w at h
  cases h with
  | @compactNullKey m initial' deleteIndex index key h =>
    cases hw
    obtain ⟨t, ht, -⟩ := id h.closing
    have hnext := next_lt ht.index_lt
    rw [keysOf_setValue, filled_cells, keysOf_update] at hkey ⊢
    rw [Function.update_of_ne ht.next.2.1, h.found] at hkey
    obtain rfl := Option.some.inj hkey
    intro d hd hne hdkey
    by_cases hhole : d = deleteIndex
    · subst hhole
      exact Nat.lt_of_le_of_ne h.back fun heq => hne (offset_inj hhome hd hnext heq)
    · rw [Function.update_of_ne hhole] at hdkey
      exact absurd (ht.holed.once d _ key hd hnext hdkey h.found) hne
  | _ => cases hw

theorem writing_leaves (h : Writing hash n maxLoad k v w m) (hhome : home hash n k < n) :
    Leaves hash n k m.cells (ConcurrentMap.step hash m w).2.cells where
  new i _ hkey := by
    rcases writing_new_key h hhome hkey with hold | ⟨c, hc, hcell, hlt⟩
    · exact .inl hold
    · exact .inr ⟨c, hc, congrArg Cell.key hcell, hlt⟩
  gone i hi hkey := by
    by_cases hnull : ∃ initial, w = .compactNullKey initial i
    · obtain ⟨initial, rfl⟩ := hnull
      refine .inr fun d hd hdkey => ?_
      rw [ConcurrentMap.step, nextCompact, probe_cells, keysOf_setKey] at hdkey
      have hne : d ≠ i := by
        rintro rfl
        rw [Function.update_self] at hdkey
        cases hdkey
      rw [Function.update_of_ne hne] at hdkey
      exact writing_taken h hhome hkey d hd hne hdkey
    · exact .inl (writing_keeps_key h hkey fun initial he => hnull ⟨initial, he⟩)

end bound

/-! ## A writer beside a key that is not bound -/

section unbound

/-- The key that an access has on its way to a cell. -/
def carried : Access K V → Option K
  | .assignAdd key _ | .assignProbe key _ _ _ | .assignTake key _ _ _ => some key
  | .compactLoad _ _ _ key | .compactValue _ _ _ key _ | .compactKey _ _ _ key => some key
  | _ => none

/-- The cell that the compaction gets to. -/
def probed : Access K V → Option Nat
  | .compactProbe _ _ index => some index
  | _ => none

/-- The key is in no cell. -/
structure Without (n : Nat) (k : K) (m : State K V) : Prop where
  sizeMask : m.sizeMask = n - 1
  absent : ∀ i < n, keysOf m.cells i ≠ some k

/-- It is not on its way to one, and no cell outside of the map is loaded. -/
structure Quiet (n : Nat) (k : K) (w : Access K V) : Prop where
  key : carried w ≠ some k
  cell : ∀ j, probed w = some j → j < n

theorem quiet_of_none (hcarried : carried w = none) (hprobed : probed w = none) :
    Quiet n k w := by
  refine ⟨fun he => ?_, fun j hj => ?_⟩
  · cases hcarried.symm.trans he
  · cases hprobed.symm.trans hj

/-- An access with the key of another one. -/
theorem Quiet.carry {w' : Access K V} (h : Quiet n k w) (hcarried : carried w' = carried w)
    (hprobed : probed w' = none) : Quiet n k w' := by
  refine ⟨fun he => h.key (hcarried.symm.trans he), fun j hj => ?_⟩
  cases hprobed.symm.trans hj

theorem Without.setKey (h : Without n k m) {key : Option K} (hkey : key ≠ some k) (idx : Nat) :
    Without n k (m.setKey idx key) := by
  refine ⟨h.sizeMask, fun j hj => ?_⟩
  rw [keysOf_setKey]
  by_cases hji : j = idx
  · rw [hji, Function.update_self]
    exact hkey
  · rw [Function.update_of_ne hji]
    exact h.absent j hj

theorem Without.setValue (h : Without n k m) (idx : Nat) (value : Option V) :
    Without n k (m.setValue idx value) := by
  refine ⟨h.sizeMask, fun i hi => ?_⟩
  rw [keysOf_setValue]
  exact h.absent i hi

theorem Without.nextIndex_lt (h : Without n k m) (hn : 0 < n) (idx : Nat) :
    m.nextIndex idx < n := by
  have hle : m.nextIndex idx ≤ m.sizeMask := Nat.and_le_right
  have hmask := h.sizeMask
  omega

/-- The next round of a loop of the writer. -/
theorem Without.probe (h : Without n k m) {p : Nat} {cycle : Cycle} {answer : Answer V}
    {access : Nat → Access K V} (hquiet : Quiet n k (access (m.nextIndex idx))) :
    Without n k (probe m p idx cycle answer access).2 ∧
      Quiet n k (probe m p idx cycle answer access).1 := by
  rw [ConcurrentMap.probe]
  split
  · exact ⟨⟨h.sizeMask, h.absent⟩, quiet_of_none rfl rfl⟩
  · exact ⟨h, hquiet⟩

theorem Without.nextCompact (h : Without n k m) (hn : 0 < n) (initial deleteIndex index : Nat) :
    Without n k (nextCompact m initial deleteIndex index).2 ∧
      Quiet n k (nextCompact m initial deleteIndex index).1 := by
  refine h.probe ⟨fun he => ?_, fun j hj => ?_⟩
  · cases he
  · cases hj
    exact h.nextIndex_lt hn index

variable [DecidableEq K]

theorem without_begin {op : Op K V} (h : Without n k m) (hop : spares k op = true) :
    Without n k (begin hash m op).2 ∧ Quiet n k (begin hash m op).1 := by
  match op with
  | .assign (some key) (some value) =>
    refine ⟨h, of_decide_eq_true hop, fun j hj => ?_⟩
    cases hj
  | .assign none _ | .assign (some _) none | .erase none => exact ⟨h, quiet_of_none rfl rfl⟩
  | .erase (some key) => exact h.probe (quiet_of_none rfl rfl)
  | .get _ | .clear => cases hop

/-- An access of any thread that the key is not given to. -/
theorem Without.step (h : Without n k m) (hn : 0 < n) (hquiet : Quiet n k w) :
    Without n k (ConcurrentMap.step hash m w).2 ∧
      Quiet n k (ConcurrentMap.step hash m w).1 := by
  have hnone := (Option.some_ne_none k).symm
  cases w with
  | returned => exact ⟨h, hquiet⟩
  | assignLimit | assignKnown | compactEnd =>
    exact ⟨⟨h.sizeMask, h.absent⟩, quiet_of_none rfl rfl⟩
  | assignAdd key value =>
    have hadded : Without n k m.fetchAdd := ⟨h.sizeMask, h.absent⟩
    rw [ConcurrentMap.step]
    split
    · exact ⟨hadded, quiet_of_none rfl rfl⟩
    · exact hadded.probe (hquiet.carry rfl rfl)
  | assignProbe key value p idx =>
    rw [ConcurrentMap.step]
    split
    · exact ⟨h, hquiet.carry rfl rfl⟩
    · split
      · exact ⟨h, quiet_of_none rfl rfl⟩
      · exact h.probe (hquiet.carry rfl rfl)
  | assignTake key value p idx =>
    rw [ConcurrentMap.step]
    split
    · exact ⟨h.setKey hquiet.key idx, quiet_of_none rfl rfl⟩
    · exact h.probe (hquiet.carry rfl rfl)
  | assignStore | eraseValue | compactNullValue =>
    exact ⟨h.setValue _ _, quiet_of_none rfl rfl⟩
  | eraseProbe | getProbe =>
    rw [ConcurrentMap.step]
    split
    · exact ⟨h, quiet_of_none rfl rfl⟩
    · split
      · exact ⟨h, quiet_of_none rfl rfl⟩
      · exact h.probe (quiet_of_none rfl rfl)
  | eraseKey idx => exact (h.setKey hnone idx).nextCompact hn idx idx idx
  | compactProbe initial deleteIndex index =>
    rw [ConcurrentMap.step]
    split
    · exact ⟨h, quiet_of_none rfl rfl⟩
    · rename_i key hkey
      split
      · refine ⟨h, fun he => ?_, fun j hj => ?_⟩
        · exact h.absent index (hquiet.cell index rfl) (hkey.trans he)
        · cases hj
      · exact h.nextCompact hn initial deleteIndex index
  | compactLoad => exact ⟨h, hquiet.carry rfl rfl⟩
  | compactValue => exact ⟨h.setValue _ _, hquiet.carry rfl rfl⟩
  | compactKey => exact ⟨h.setKey hquiet.key _, quiet_of_none rfl rfl⟩
  | compactNullKey initial index => exact (h.setKey hnone index).nextCompact hn _ _ _
  | getValue => exact ⟨h, quiet_of_none rfl rfl⟩
  | getAgain =>
    rw [ConcurrentMap.step]
    split
    · exact ⟨h, quiet_of_none rfl rfl⟩
    · exact h.probe (quiet_of_none rfl rfl)

end unbound

/-! ## Threads -/

section threads

variable [DecidableEq K] {s s' : Threads K V} {a : Turn K V}

/-- The writer spares the key, which is bound to the value, or not bound. -/
def Beside (hash : K → UInt64) (n maxLoad : Nat) (k : K) :
    Option V → Access K V → State K V → Prop
  | some v, w, m => Writing hash n maxLoad k v w m
  | none, w, m => Without n k m ∧ Quiet n k w

theorem Beside.sizeMask (h : Beside hash n maxLoad k found w m) : m.sizeMask = n - 1 := by
  cases found with
  | some v => exact Writing.sizeMask h
  | none => exact h.1.sizeMask

theorem Beside.truthful (h : Beside hash n maxLoad k found w m) :
    Truthful n k found m.cells := by
  cases found with
  | some v => exact writing_truthful h
  | none => exact fun i hi hkey => absurd hkey (h.1.absent i hi)

/-- A call of the writer changes no cell before its first access. -/
theorem Beside.begin {op : Op K V} (hn : n = 2 ^ bits) (h : Beside hash n maxLoad k found w m)
    (hw : w.answer?.isSome) (hop : spares k op = true) :
    Beside hash n maxLoad k found (begin hash m op).1 (begin hash m op).2 ∧
      Leaves hash n k m.cells (begin hash m op).2.cells := by
  cases found with
  | some v =>
    obtain ⟨hwriting, hcells⟩ := writing_begin hn (Writing.kept h hw) hop
    refine ⟨hwriting, ?_⟩
    rw [hcells]
    exact leaves_refl _
  | none =>
    have hbegun : Without n k (begin hash m op).2 ∧ Quiet n k (begin hash m op).1 :=
      without_begin h.1 hop
    exact ⟨hbegun, leaves_of_absent h.1.absent hbegun.1.absent⟩

theorem Beside.step (hn : n = 2 ^ bits) (hbits : bits ≤ 64) (hload : maxLoad < n)
    (h : Beside hash n maxLoad k found w m) :
    Beside hash n maxLoad k found (ConcurrentMap.step hash m w).1
        (ConcurrentMap.step hash m w).2 ∧
      Leaves hash n k m.cells (ConcurrentMap.step hash m w).2.cells := by
  cases found with
  | some v => exact ⟨Writing.step hn hbits hload h, writing_leaves h (home_lt hash hn k)⟩
  | none =>
    have hstep : Without n k (ConcurrentMap.step hash m w).2 ∧
        Quiet n k (ConcurrentMap.step hash m w).1 :=
      h.1.step (hn ▸ Nat.two_pow_pos bits) h.2
    exact ⟨hstep, leaves_of_absent h.1.absent hstep.1.absent⟩

/-- The reader has not returned. -/
def Pending (reader : Option (Access K V)) : Prop := ∀ answer, reader ≠ some (.returned answer)

structure Sound (hash : K → UInt64) (n maxLoad : Nat) (k : K) (found : Option V)
    (s : Threads K V) : Prop where
  pacing : Pacing hash n k s.loads s.reader
  honest : Honest hash n k found s.map.cells s.reader
  beside : Pending s.reader → Beside hash n maxLoad k found s.writer s.map

omit [DecidableEq K] in
theorem Honest.of_returned {answer : Answer V}
    (h : Honest hash n k found cells (some (.returned answer))) :
    Honest hash n k found cells' (some (.returned answer)) := by
  cases h with
  | returned h => exact .returned h

/-- The writer goes on. -/
theorem Sound.write {m' : State K V} {w' : Access K V} (h : Sound hash n maxLoad k found s)
    (hstep : Beside hash n maxLoad k found s.writer s.map →
      Beside hash n maxLoad k found w' m' ∧ Leaves hash n k s.map.cells m'.cells) :
    Sound hash n maxLoad k found { s with map := m', writer := w' } := by
  by_cases hreturned : ∃ answer, s.reader = some (.returned answer)
  · obtain ⟨answer, hreader⟩ := hreturned
    refine ⟨h.pacing, ?_, fun hpending => absurd hreader (hpending answer)⟩
    have hhonest := h.honest
    rw [hreader] at hhonest
    show Honest hash n k found m'.cells s.reader
    rw [hreader]
    exact hhonest.of_returned
  · have hpending : Pending s.reader := fun answer he => hreturned ⟨answer, he⟩
    obtain ⟨hbeside, hleaves⟩ := hstep (h.beside hpending)
    exact ⟨h.pacing, h.honest.leaves h.pacing hleaves, fun _ => hbeside⟩

omit [DecidableEq K] in
theorem nextGet_map {p : Nat} (h : Pending (some (nextGet m k p idx).1)) :
    (nextGet m k p idx).2 = m := by
  rw [nextGet, probe] at h ⊢
  split
  · rename_i hlast
    rw [if_pos hlast] at h
    exact absurd rfl (h _)
  · rfl

/-- A reader that goes on has left the map as it is. -/
theorem read_map (hpacing : Pacing hash n k loads (some access))
    (h : Pending (some (ConcurrentMap.step hash m access).1)) :
    (ConcurrentMap.step hash m access).2 = m := by
  cases hpacing with
  | probe =>
    rw [ConcurrentMap.step] at h ⊢
    split
    · rfl
    · rename_i probedKey hkey
      rw [hkey] at h
      dsimp only at h
      split
      · rfl
      · rename_i hne
        rw [if_neg hne] at h
        exact nextGet_map h
  | value => rfl
  | again =>
    rw [ConcurrentMap.step] at h ⊢
    split
    · rfl
    · rename_i hne
      rw [if_neg hne] at h
      exact nextGet_map h
  | returned => rfl

theorem Sound.step (hn : n = 2 ^ bits) (hbits : bits ≤ 64) (hload : maxLoad < n)
    (h : Sound hash n maxLoad k found s) (hs : Readers.step hash k s a = some s') :
    Sound hash n maxLoad k found s' := by
  cases a with
  | call op =>
    rw [Readers.step] at hs
    split at hs
    · rename_i hcall
      obtain ⟨hw, hop⟩ := (Bool.and_eq_true _ _).mp hcall
      cases hs
      exact h.write fun hbeside => hbeside.begin hn hw hop
    · cases hs
  | write =>
    rw [Readers.step] at hs
    split at hs
    · cases hs
    · cases hs
      exact h.write fun hbeside => hbeside.step hn hbits hload
  | get =>
    rw [Readers.step] at hs
    split at hs
    · cases hs
    · rename_i hidle
      have hpacing := h.pacing
      rw [hidle] at hpacing
      have hbeside := h.beside fun answer he => by rw [hidle] at he; cases he
      obtain hloads : s.loads = 0 := by
        generalize s.loads = loads at hpacing
        cases hpacing
        rfl
      cases hs
      refine ⟨?_, ?_, fun hpending => ?_⟩
      · show Pacing hash n k s.loads _
        rw [hloads]
        exact pacing_begin hn hbits hbeside.sizeMask
      · exact honest_next _
      · show Beside hash n maxLoad k found s.writer (begin hash s.map (.get (some k))).2
        rw [show (begin hash s.map (.get (some k))).2 = s.map from nextGet_map hpending]
        exact hbeside
  | read =>
    rw [Readers.step] at hs
    split at hs
    · cases hs
    · rename_i access hreader
      have hpacing := h.pacing
      have hhonest := h.honest
      rw [hreader] at hpacing hhonest
      split at hs
      · cases hs
      · rename_i hnot
        have hanswer := Option.not_isSome_iff_eq_none.mp hnot
        have hbeside := h.beside fun answer he => by
          rw [hreader] at he
          cases he
          cases hanswer
        cases hs
        refine ⟨pacing_read hn hbits hbeside.sizeMask hpacing hanswer,
          hhonest.read hpacing hbeside.truthful, fun hpending => ?_⟩
        show Beside hash n maxLoad k found s.writer (ConcurrentMap.step hash s.map access).2
        rw [read_map hpacing hpending]
        exact hbeside

theorem Represents.without {t : Table K V} (h : Represents hash n maxLoad m t)
    (hk : t.lookup k = none) : Without n k m := by
  refine ⟨h.sizeMask, fun i hi hkey => ?_⟩
  have hvalue := (h.holds.lookup hi hkey).trans hk
  cases hkey.symm.trans ((h.holds.paired i hi).mpr hvalue)

/-- What the reader has accessed, behind the turn of a thread. -/
theorem Sound.visited {accessed : List Nat} (hn : n = 2 ^ bits) (hbits : bits ≤ 64)
    (h : Sound hash n maxLoad k found s) (hvisited : Visited hash n k accessed s.reader)
    (hs : Readers.step hash k s a = some s') :
    Visited hash n k (noteCell accessed s a s') s'.reader := by
  cases a with
  | call op =>
    rw [Readers.step] at hs
    split at hs
    · cases hs
      exact hvisited
    · cases hs
  | write =>
    rw [Readers.step] at hs
    split at hs
    · cases hs
    · cases hs
      exact hvisited
  | get =>
    rw [Readers.step] at hs
    split at hs
    · cases hs
    · rename_i hidle
      rw [hidle] at hvisited
      have hbeside := h.beside fun answer he => by rw [hidle] at he; cases he
      cases hs
      cases hvisited with
      | idle => exact visited_begin (pacing_begin hn hbits hbeside.sizeMask)
  | read =>
    rw [Readers.step] at hs
    split at hs
    · cases hs
    · rename_i access hreader
      have hpacing := h.pacing
      rw [hreader] at hpacing hvisited
      split at hs
      · cases hs
      · rename_i hnot
        have hanswer := Option.not_isSome_iff_eq_none.mp hnot
        have hbeside := h.beside fun answer he => by
          rw [hreader] at he
          cases he
          cases hanswer
        cases hs
        rw [noteCell, hreader]
        exact visited_read hn hbits hbeside.sizeMask hpacing hanswer hvisited

/-- The answer is that of the finite map, or null. `x.2` are the cells that the reader has
accessed. -/
def AnswersOrNull (capacity : Nat) (found : Option V) (x : Threads K V × List Nat) : Prop :=
  x.1.loads ≤ 3 * capacity ∧ (∀ cell, x.2.count cell ≤ 3) ∧
    ∀ answer, x.1.reader = some (.returned answer) →
      answer = .value none ∨ answer = .value found

theorem Sound.answers {accessed : List Nat} (h : Sound hash n maxLoad k found s)
    (hvisited : Visited hash n k accessed s.reader) :
    AnswersOrNull n found (s, accessed) := by
  refine ⟨h.pacing.le, hvisited.count_le, fun answer hreader => ?_⟩
  have hhonest := h.honest
  rw [hreader] at hhonest
  cases hhonest with
  | returned hvalue =>
    rcases hvalue with rfl | rfl
    · exact .inl rfl
    · exact .inr rfl

/-- The invariant of the threads, with what the reader has accessed. -/
def Tracked (hash : K → UInt64) (n maxLoad : Nat) (k : K) (found : Option V)
    (x : Threads K V × List Nat) : Prop :=
  Sound hash n maxLoad k found x.1 ∧ Visited hash n k x.2 x.1.reader

/-- From every map that calls can lead to, and however a writer that spares the key
interleaves with the reader: the reader never answers with the value of another key, and
never accesses a cell more than three times. -/
theorem never_another_value (hash : K → UInt64) (bits maxLoad : Nat) (hbits : bits < 64)
    (hload : maxLoad < 2 ^ bits) (cells : Nat → Cell K V) (ops : List (Op K V))
    (m : State K V) (as : List (Answer V)) (k : K) (turns : List (Turn K V))
    (hm : exec (call hash) (State.init (2 ^ bits) maxLoad cells) ops = some (as, m)) :
    Along (recording (Readers.step hash k) noteCell)
      (AnswersOrNull (2 ^ bits) ((Simulation.answers (answerOf maxLoad) ∅ ops).2.lookup k))
      (start m, []) turns := by
  have hbits' := Nat.le_of_lt hbits
  obtain ⟨m', hm', hrepresents⟩ :=
    exec_call_eq rfl hbits' hload (represents_init hash bits maxLoad cells) ops
  obtain rfl : m' = m := congrArg Prod.snd (Option.some.inj (hm'.symm.trans hm))
  generalize hfound : (Simulation.answers (answerOf maxLoad) ∅ ops).2.lookup k = found
  have hbeside : Beside hash (2 ^ bits) maxLoad k found (.returned .cleared) m' := by
    cases found with
    | some v => exact .returned ⟨_, hrepresents, hfound⟩
    | none => exact ⟨Represents.without hrepresents hfound, quiet_of_none rfl rfl⟩
  have hsound : Tracked hash (2 ^ bits) maxLoad k found (start m', []) :=
    ⟨⟨.idle, .idle, fun _ => hbeside⟩, .idle⟩
  refine (along_of_step (I := Tracked hash (2 ^ bits) maxLoad k found) (fun x a y hx hs => ?_)
    hsound turns).mono fun x hx => hx.1.answers hx.2
  exact next_of_step (I := Tracked hash (2 ^ bits) maxLoad k found)
    (fun t ht => ⟨hx.1.step rfl hbits' hload ht, hx.1.visited rfl hbits' hx.2 ht⟩) hs

/-- The key 1 is erased, and 5 is moved to its cell, while 5 is looked for. -/
theorem moved_while_read :
    Along (recording (Readers.step (fun key : Nat => UInt64.ofNat key) 5) noteCell)
      (AnswersOrNull 4 (some 50))
      (start (((((State.init (2 ^ 2) 3 fun _ => ⟨none, none⟩).fetchAdd.setKey 1 (some 1)).setValue 1
        (some 10)).fetchAdd.setKey 2 (some 5)).setValue 2 (some 50)), [])
      [.get, .read, .call (.erase (some 1)), .write, .write, .write, .write, .write, .write,
        .write, .write, .read, .write, .read, .write] :=
  never_another_value (fun key => UInt64.ofNat key) 2 3 (by omega) (by omega)
    (fun _ => ⟨none, none⟩) [.assign (some 1) (some 10), .assign (some 5) (some 50)] _
    [.done true, .done true] 5 _ rfl

end threads

end Opsian.Concurrent.Answers
