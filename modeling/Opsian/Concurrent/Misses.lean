import Opsian.Concurrent.Readers
import Opsian.Lib.Runs

/-! # A reader that is disturbed

Once the reader has been disturbed, every cell with the binding is behind it, and stays so:
it returns without the value. -/
namespace Opsian.Concurrent.Misses
open Opsian.Lib Opsian.Lib.Probing Opsian.Lib.Runs Opsian.Lib.Simulation
open Opsian.Concurrent.ConcurrentMap Opsian.Concurrent.Refinement Opsian.Concurrent.Accesses
open Opsian.Concurrent.FiniteMap Opsian.Concurrent.Placement Opsian.Concurrent.Readers

variable {K V : Type} [DecidableEq K] {hash : K → UInt64} {n bits maxLoad i : Nat} {k : K} {v : V}
  {m : State K V} {w access : Access K V}

/-! ## New cells -/

section writer

/-- The key gets into a cell only from one with the binding further on. -/
theorem writing_new_key (h : Writing hash n maxLoad k v w m)
    (hhome : home hash n k < n)
    (hkey : keysOf (ConcurrentMap.step hash m w).2.cells i = some k) :
    keysOf m.cells i = some k ∨
      ∃ c < n, m.cells c = ⟨some k, some v⟩ ∧
        offset n (home hash n k) i < offset n (home hash n k) c := by
  by_cases htarget : target w = some i
  · cases h with
    | returned | assignAdd | assignLimit | assignProbe | assignKnown | eraseProbe | compactProbe
    | compactLoad | compactEnd => cases htarget
    | @assignTake m key value idx h hnone =>
      cases htarget
      rw [ConcurrentMap.step, show (m.fetchAdd.cells i).key = none from hnone] at hkey
      dsimp only at hkey
      rw [keysOf_setKey, Function.update_self] at hkey
      exact absurd (Option.some.inj hkey) h.other
    | storeKnown | storeTaken | eraseValue | compactValue | compactNullValue =>
      cases htarget
      exact .inl ((congrFun (keysOf_setValue ..) _).symm.trans hkey)
    | @eraseKey m key idx h =>
      cases htarget
      rw [ConcurrentMap.step, nextCompact, probe_cells, keysOf_setKey, Function.update_self] at hkey
      cases hkey
    | @compactKey m initial deleteIndex index key h =>
      cases htarget
      rw [ConcurrentMap.step, keysOf_setKey, Function.update_self] at hkey
      obtain rfl := Option.some.inj hkey
      obtain ⟨t, ht, -⟩ := id h.closing
      have hnext := next_lt ht.index_lt
      have hcell : m.cells (next n index) = ⟨some key, some v⟩ := by
        rw [← moving_value h, ← h.found]
        rfl
      refine .inr ⟨next n index, hnext, ?_, ?_⟩
      · exact (Function.update_of_ne ht.next.2.1 _ _).trans hcell
      · exact Nat.lt_of_le_of_ne h.back fun heq =>
          ht.next.2.1 (offset_inj hhome ht.holed.hole_lt hnext heq).symm
    | @compactNullKey m initial deleteIndex index key h =>
      cases htarget
      rw [ConcurrentMap.step, nextCompact, probe_cells, keysOf_setKey, Function.update_self] at hkey
      cases hkey
  · exact .inl ((congrArg Cell.key (step_cells htarget)).symm.trans hkey)

/-- So does the binding. -/
theorem writing_new_cell (h : Writing hash n maxLoad k v w m) (hhome : home hash n k < n)
    (hcell : (ConcurrentMap.step hash m w).2.cells i = ⟨some k, some v⟩) :
    m.cells i = ⟨some k, some v⟩ ∨
      ∃ c < n, m.cells c = ⟨some k, some v⟩ ∧
        offset n (home hash n k) i < offset n (home hash n k) c := by
  rcases writing_new_key h hhome (congrArg Cell.key hcell) with hkey | hfurther
  · by_cases htarget : target w = some i
    · -- Neither of the two that write a cell with the key leaves the binding there.
      rcases writing_target h htarget hkey with ⟨initial, rfl⟩ | ⟨initial, rfl⟩
      · have hvalue : ((m.setValue i none).cells i).value = none := by simp [State.setValue]
        rw [show (m.setValue i none).cells i = _ from hcell] at hvalue
        cases hvalue
      · have hkey : keysOf (ConcurrentMap.step hash m (.compactNullKey initial i)).2.cells i =
            none := by
          rw [ConcurrentMap.step, nextCompact, probe_cells, keysOf_setKey, Function.update_self]
        cases (congrArg Cell.key hcell).symm.trans hkey
    · exact .inl ((step_cells htarget).symm.trans hcell)
  · exact .inr hfurther

end writer

/-! ## The reader -/

section reader

/-- Every cell with the binding is behind the reader. -/
def Behind (hash : K → UInt64) (n : Nat) (k : K) (v : V) (cells : Nat → Cell K V) (idx : Nat) :
    Prop :=
  ∀ d < n, cells d = ⟨some k, some v⟩ →
    offset n (home hash n k) d < offset n (home hash n k) idx

/-- The reader has missed the key. -/
inductive Missed (hash : K → UInt64) (n : Nat) (k : K) (v : V) (cells : Nat → Cell K V) :
    Access K V → Prop
  | probe {idx} (hidx : idx < n) (hinside : offset n (home hash n k) idx + 1 < n)
    (hbehind : Behind hash n k v cells idx) : Missed hash n k v cells
      (.getProbe k (last hash n k) idx)
  | value {idx} (hidx : idx < n) (hinside : offset n (home hash n k) idx + 1 < n)
    (hbehind : Behind hash n k v cells idx) : Missed hash n k v cells
      (.getValue k (last hash n k) idx)
  | again {idx value} (hidx : idx < n) (hinside : offset n (home hash n k) idx + 1 < n)
    (hbehind : Behind hash n k v cells idx)
    (hnot : keysOf cells idx = some k → value ≠ some v) : Missed hash n k v cells
      (.getAgain k (last hash n k) idx value)
  | returned {answer} (hnot : answer ≠ .value (some v)) : Missed hash n k v cells
      (.returned answer)

omit [DecidableEq K] in
theorem missed_null (cells : Nat → Cell K V) :
    Missed hash n k v cells (.returned (.value none)) := by
  refine .returned fun he => ?_
  cases he

omit [DecidableEq K] in
theorem answer_ne_none (answer : Answer V) :
    (Access.returned answer : Access K V).answer? ≠ none := Option.some_ne_none _

theorem Behind.write {idx : Nat} (h : Writing hash n maxLoad k v w m) (hhome : home hash n k < n)
    (hbehind : Behind hash n k v m.cells idx) :
    Behind hash n k v (ConcurrentMap.step hash m w).2.cells idx := by
  intro d hd hcell
  rcases writing_new_cell h hhome hcell with hold | ⟨c, hc, hold, hlt⟩
  · exact hbehind d hd hold
  · exact Nat.lt_trans hlt (hbehind c hc hold)

theorem Missed.write (h : Writing hash n maxLoad k v w m) (hhome : home hash n k < n)
    (hmissed : Missed hash n k v m.cells access) :
    Missed hash n k v (ConcurrentMap.step hash m w).2.cells access := by
  cases hmissed with
  | probe hidx hinside hbehind => exact .probe hidx hinside (hbehind.write h hhome)
  | value hidx hinside hbehind => exact .value hidx hinside (hbehind.write h hhome)
  | again hidx hinside hbehind hnot =>
    refine .again hidx hinside (hbehind.write h hhome) fun hkey => ?_
    rcases writing_new_key h hhome hkey with hold | ⟨c, hc, hold, hlt⟩
    · exact hnot hold
    · exact absurd (hbehind c hc hold) (Nat.lt_asymm hlt)
  | returned hnot => exact .returned hnot

omit [DecidableEq K] in
/-- The next round, past a cell without the binding. The map is left as it is, unless the
reader is done. -/
theorem missed_next {idx : Nat} (hn : n = 2 ^ bits) (hbits : bits ≤ 64) (hm : m.sizeMask = n - 1)
    (hidx : idx < n) (hinside : offset n (home hash n k) idx + 1 < n)
    (hbehind : Behind hash n k v m.cells idx) :
    Missed hash n k v (nextGet m k (last hash n k) idx).2.cells
        (nextGet m k (last hash n k) idx).1 ∧
      ((nextGet m k (last hash n k) idx).1.answer? = none →
        (nextGet m k (last hash n k) idx).2 = m) := by
  have hhome := home_lt hash hn k
  have hlast := offset_of_next (last_lt hash hn k) (next_last hash hn hbits k)
  have hnext : offset n (home hash n k) (next n idx) = offset n (home hash n k) idx + 1 := by
    refine offset_next hhome fun he => ?_
    have hend := offset_of_next hidx he
    omega
  rw [nextGet, probe_cells, probe, nextIndex_eq hn hm hidx]
  split
  · exact ⟨missed_null _, fun hnone => absurd hnone (answer_ne_none _)⟩
  · rename_i hne
    have hdiffer : offset n (home hash n k) (next n idx) ≠ offset n (home hash n k)
        (last hash n k) := fun heq =>
      hne (offset_inj hhome (next_lt hidx) (last_lt hash hn k) heq).symm
    have hin := offset_lt hhome (next_lt hidx)
    refine ⟨.probe (next_lt hidx) (by omega) fun d hd hcell => ?_, fun _ => rfl⟩
    have hlt := hbehind d hd hcell
    omega

theorem missed_read (hn : n = 2 ^ bits) (hbits : bits ≤ 64) (hm : m.sizeMask = n - 1)
    (hmissed : Missed hash n k v m.cells access) :
    Missed hash n k v (ConcurrentMap.step hash m access).2.cells
        (ConcurrentMap.step hash m access).1 ∧
      ((ConcurrentMap.step hash m access).1.answer? = none →
        (ConcurrentMap.step hash m access).2 = m) := by
  cases hmissed with
  | @probe idx hidx hinside hbehind =>
    rw [ConcurrentMap.step]
    split
    · exact ⟨missed_null _, fun hnone => absurd hnone (answer_ne_none _)⟩
    · split
      · exact ⟨.value hidx hinside hbehind, fun _ => rfl⟩
      · exact missed_next hn hbits hm hidx hinside hbehind
  | @value idx hidx hinside hbehind =>
    refine ⟨.again hidx hinside hbehind fun hkey hvalue => ?_, fun _ => rfl⟩
    have hcell : m.cells idx = ⟨some k, some v⟩ := by
      rw [← hkey, ← hvalue]
      rfl
    exact Nat.lt_irrefl _ (hbehind idx hidx hcell)
  | @again idx value hidx hinside hbehind hnot =>
    rw [ConcurrentMap.step]
    split
    · rename_i hkey
      exact ⟨.returned fun he => hnot hkey (Answer.value.inj he),
        fun hnone => absurd hnone (answer_ne_none _)⟩
    · exact missed_next hn hbits hm hidx hinside hbehind
  | returned hnot => exact ⟨.returned hnot, fun _ => rfl⟩

end reader

/-! ## Threads -/

section threads

variable {s s' : Threads K V} {a : Turn K V}

/-- The reader has missed the key, and has returned or is beside a writer. -/
structure Lost (hash : K → UInt64) (n maxLoad : Nat) (k : K) (v : V) (s : Threads K V)
    (access : Access K V) : Prop where
  reader : s.reader = some access
  missed : Missed hash n k v s.map.cells access
  writing : access.answer? = none → Writing hash n maxLoad k v s.writer s.map

omit [DecidableEq K] in
theorem Missed.of_returned {cells cells' : Nat → Cell K V} {answer : Answer V}
    (h : Missed hash n k v cells (.returned answer)) :
    Missed hash n k v cells' (.returned answer) := by
  cases h with
  | returned hnot => exact .returned hnot

omit [DecidableEq K] in
theorem Access.returned_of_answer {answer : Answer V} (h : access.answer? = some answer) :
    access = .returned answer := by
  cases access with
  | returned answer' => exact congrArg _ (Option.some.inj h)
  | _ => cases h

/-- A step of the writer. -/
theorem Lost.beside {m' : State K V} {w' : Access K V} (h : Lost hash n maxLoad k v s access)
    (hmissed : Writing hash n maxLoad k v s.writer s.map →
      Missed hash n k v m'.cells access ∧ Writing hash n maxLoad k v w' m') :
    Lost hash n maxLoad k v { s with map := m', writer := w' } access := by
  cases hanswer : access.answer? with
  | none =>
    obtain ⟨hmissed', hwriting⟩ := hmissed (h.writing hanswer)
    exact ⟨h.reader, hmissed', fun _ => hwriting⟩
  | some answer =>
    obtain rfl := Access.returned_of_answer hanswer
    exact ⟨h.reader, h.missed.of_returned, fun hnone => absurd hnone (answer_ne_none _)⟩

theorem Lost.step (hn : n = 2 ^ bits) (hbits : bits ≤ 64) (hload : maxLoad < n)
    (h : ∃ access, Lost hash n maxLoad k v s access) (hs : step hash k s a = some s') :
    ∃ access, Lost hash n maxLoad k v s' access := by
  obtain ⟨access, h⟩ := h
  cases a with
  | call op =>
    rw [Readers.step] at hs
    split at hs
    · rename_i hcall
      obtain ⟨hw, hop⟩ := (Bool.and_eq_true _ _).mp hcall
      cases hs
      refine ⟨access, h.beside fun hwriting => ?_⟩
      obtain ⟨hwriting', hcells⟩ := writing_begin hn (hwriting.kept hw) hop
      exact ⟨hcells ▸ h.missed, hwriting'⟩
    · cases hs
  | write =>
    rw [Readers.step] at hs
    split at hs
    · cases hs
    · cases hs
      refine ⟨access, h.beside fun hwriting => ?_⟩
      exact ⟨h.missed.write hwriting (home_lt hash hn k), hwriting.step hn hbits hload⟩
  | get =>
    rw [Readers.step, h.reader] at hs
    cases hs
  | read =>
    rw [Readers.step, h.reader] at hs
    dsimp only at hs
    split at hs
    · cases hs
    · rename_i hnot
      have hwriting := h.writing (Option.not_isSome_iff_eq_none.mp hnot)
      obtain ⟨hmissed, hmap⟩ := missed_read hn hbits hwriting.sizeMask h.missed
      cases hs
      refine ⟨_, rfl, hmissed, fun hanswer => ?_⟩
      show Writing hash n maxLoad k v s.writer (ConcurrentMap.step hash s.map access).2
      rw [hmap hanswer]
      exact hwriting

/-- The value is nulled in the later cell with the key, where no other is ahead. -/
theorem behind_of_nulled {initial index idx : Nat}
    (h : Writing hash n maxLoad k v (.compactNullValue initial index) m)
    (hkey : keysOf m.cells index = some k)
    (hother : ∀ d < n, d ≠ index → keysOf m.cells d = some k →
      offset n (home hash n k) d ≤ offset n (home hash n k) index →
      offset n (home hash n k) d < offset n (home hash n k) idx) :
    Behind hash n k v
      (ConcurrentMap.step hash m (.compactNullValue initial index)).2.cells idx := by
  obtain ⟨c, hc, hne, hcell, hle, honly⟩ := writing_copy h hkey
  intro d hd hd'
  have hdi : d ≠ index := by
    rintro rfl
    have hvalue : ((m.setValue d none).cells d).value = none := by simp [State.setValue]
    rw [show (m.setValue d none).cells d = _ from hd'] at hvalue
    cases hvalue
  have hdkey : keysOf m.cells d = some k :=
    (congrFun (keysOf_setValue m index none) d).symm.trans (congrArg Cell.key hd')
  rcases honly d hd hdkey with rfl | rfl
  · exact hother d hd hne hdkey hle
  · exact absurd rfl hdi

/-- The steps that disturb the reader. -/
inductive Disturbs (hash : K → UInt64) (n : Nat) (k : K) (s : Threads K V) : Turn K V → Prop
  | emptied {key p idx} (hreader : s.reader = some (.getProbe key p idx))
    (hhole : hole s.writer = some idx) : Disturbs hash n k s .read
  | passed {initial index key p idx d} (hwriter : s.writer = .compactNullValue initial index)
    (hreader : s.reader = some (.getProbe key p idx)) (hkey : keysOf s.map.cells index = some k)
    (hd : d < n) (hne : d ≠ index) (hdkey : keysOf s.map.cells d = some k)
    (hlt : offset n (home hash n k) d < offset n (home hash n k) idx) : Disturbs hash n k s .write
  | nulled {initial index key p} (hwriter : s.writer = .compactNullValue initial index)
    (hreader : s.reader = some (.getValue key p index)) : Disturbs hash n k s .write
  | taken {initial index key p value} (hwriter : s.writer = .compactNullKey initial index)
    (hreader : s.reader = some (.getAgain key p index value)) : Disturbs hash n k s .write

omit [DecidableEq K] in
theorem disturbs_of_not (hnot : ¬ Undisturbed hash n k s a) : Disturbs hash n k s a := by
  cases a with
  | call op => exact absurd trivial hnot
  | get => exact absurd trivial hnot
  | read =>
    simp only [Undisturbed] at hnot
    split at hnot
    · rename_i hreader
      exact .emptied hreader (not_not.mp hnot)
    · exact absurd trivial hnot
  | write =>
    simp only [Undisturbed] at hnot
    split at hnot
    · rename_i hwriter hreader
      push Not at hnot
      obtain ⟨hkey, d, hd, hne, hdkey, hlt⟩ := hnot
      exact .passed hwriter hreader hkey hd hne hdkey hlt
    · rename_i hwriter hreader
      obtain rfl := not_not.mp hnot
      exact .nulled hwriter hreader
    · rename_i hwriter hreader
      obtain rfl := not_not.mp hnot
      exact .taken hwriter hreader
    · exact absurd trivial hnot

/-- The writer's next access, behind which the reader has missed the key. -/
theorem Missed.lost (hn : n = 2 ^ bits) (hbits : bits ≤ 64) (hload : maxLoad < n)
    (h : Sound hash n maxLoad k v s) (hwriter : s.writer.answer? = none)
    (hreader : s.reader = some access)
    (hmissed : Missed hash n k v (ConcurrentMap.step hash s.map s.writer).2.cells access)
    (hs : step hash k s .write = some s') : ∃ access, Lost hash n maxLoad k v s' access := by
  rw [Readers.step, hwriter] at hs
  cases hs
  exact ⟨access, hreader, hmissed, fun _ => h.writing.step hn hbits hload⟩

/-- The reader finds the emptied cell, and returns without a value. -/
theorem loses_emptied {key : K} {p idx : Nat} (h : Sound hash n maxLoad k v s)
    (hreader : s.reader = some (.getProbe key p idx)) (hhole : hole s.writer = some idx)
    (hs : step hash k s .read = some s') : ∃ access, Lost hash n maxLoad k v s' access := by
  have hnone : (s.map.cells idx).key = none := writing_hole h.writing hhole
  have hprobe : ConcurrentMap.step hash s.map (.getProbe key p idx) =
      (.returned (.value none), s.map) := by rw [ConcurrentMap.step, hnone]
  rw [Readers.step, hreader] at hs
  cases hs
  refine ⟨_, rfl, ?_, ?_⟩
  · rw [hprobe]
    exact missed_null _
  · rw [hprobe]
    exact fun hnone => absurd hnone (answer_ne_none _)

/-- The copy of the key is behind the reader when the value is nulled in the old cell. -/
theorem missed_passed {initial index p idx d : Nat} {key : K} {loads : Nat}
    (hwriting : Writing hash n maxLoad k v (.compactNullValue initial index) m)
    (hplaced : Placed hash n k v none m.cells)
    (hreading : Reading hash n k v m.cells loads (some (.getProbe key p idx)))
    (hkey : keysOf m.cells index = some k) (hd : d < n) (hne : d ≠ index)
    (hdkey : keysOf m.cells d = some k)
    (hlt : offset n (home hash n k) d < offset n (home hash n k) idx) :
    Missed hash n k v (ConcurrentMap.step hash m (.compactNullValue initial index)).2.cells
      (.getProbe key p idx) := by
  cases hreading with
  | @probe _ _ e hidx he hcell hahead hle =>
    have hreached := hplaced.reached e he (congrArg Cell.key hcell)
    refine .probe hidx (by omega) (behind_of_nulled hwriting hkey fun d' hd' hne' hdkey' _ => ?_)
    obtain ⟨c, -, -, -, -, honly⟩ := writing_copy hwriting hkey
    rcases honly d hd hdkey with rfl | rfl
    · rcases honly d' hd' hdkey' with rfl | rfl
      · exact hlt
      · exact absurd rfl hne'
    · exact absurd rfl hne

/-- The reader is about to load the value that is nulled. -/
theorem missed_nulled {initial index p : Nat} {key : K} {loads : Nat} (hhome : home hash n k < n)
    (hwriting : Writing hash n maxLoad k v (.compactNullValue initial index) m)
    (hplaced : Placed hash n k v none m.cells)
    (hreading : Reading hash n k v m.cells loads (some (.getValue key p index))) :
    Missed hash n k v (ConcurrentMap.step hash m (.compactNullValue initial index)).2.cells
      (.getValue key p index) := by
  cases hreading with
  | value hidx hcell hle =>
    have hkey : keysOf m.cells index = some k := congrArg Cell.key hcell
    refine .value hidx (hplaced.reached index hidx hkey)
      (behind_of_nulled hwriting hkey fun d hd hne _ hle => ?_)
    exact Nat.lt_of_le_of_ne hle fun heq => hne (offset_inj hhome hd hidx heq)

/-- The reader is about to load the key again that is nulled. -/
theorem missed_taken {initial index p : Nat} {key : K} {value : Option V} {loads : Nat}
    (hhome : home hash n k < n)
    (hwriting : Writing hash n maxLoad k v (.compactNullKey initial index) m)
    (hplaced : Placed hash n k v none m.cells)
    (hreading : Reading hash n k v m.cells loads (some (.getAgain key p index value))) :
    Missed hash n k v (ConcurrentMap.step hash m (.compactNullKey initial index)).2.cells
      (.getAgain key p index value) := by
  cases hreading with
  | again hidx hkey hle =>
    have hnulled : m.cells index ≠ ⟨some k, some v⟩ := by
      intro hcell
      have hvalue := writing_nulled hwriting
      rw [hcell] at hvalue
      cases hvalue
    have hnone : keysOf (ConcurrentMap.step hash m (.compactNullKey initial index)).2.cells
        index = none := by
      rw [ConcurrentMap.step, nextCompact, probe_cells, keysOf_setKey, Function.update_self]
    have hbehind : Behind hash n k v m.cells index := fun d hd hcell =>
      hplaced.older index hidx hkey hnulled d hd hcell
    refine .again hidx (hplaced.reached index hidx hkey) (hbehind.write hwriting hhome)
      fun hkey' => ?_
    rw [hnone] at hkey'
    cases hkey'

theorem Sound.loses (hn : n = 2 ^ bits) (hbits : bits ≤ 64) (hload : maxLoad < n)
    (h : Sound hash n maxLoad k v s) (hnot : ¬ Undisturbed hash n k s a)
    (hs : Readers.step hash k s a = some s') : ∃ access, Lost hash n maxLoad k v s' access := by
  have hhome := home_lt hash hn k
  have hplaced := writing_placed h.writing (home_lt hash hn)
  have hwriting := h.writing
  have hreading := h.reading
  cases disturbs_of_not hnot with
  | emptied hreader hhole => exact loses_emptied h hreader hhole hs
  | passed hwriter hreader hkey hd hne hdkey hlt =>
    rw [hwriter] at hplaced hwriting
    rw [hreader] at hreading
    refine Missed.lost hn hbits hload h (hwriter ▸ rfl) hreader ?_ hs
    rw [hwriter]
    exact missed_passed hwriting hplaced hreading hkey hd hne hdkey hlt
  | nulled hwriter hreader =>
    rw [hwriter] at hplaced hwriting
    rw [hreader] at hreading
    refine Missed.lost hn hbits hload h (hwriter ▸ rfl) hreader ?_ hs
    rw [hwriter]
    exact missed_nulled hhome hwriting hplaced hreading
  | taken hwriter hreader =>
    rw [hwriter] at hplaced hwriting
    rw [hreader] at hreading
    refine Missed.lost hn hbits hload h (hwriter ▸ rfl) hreader ?_ hs
    rw [hwriter]
    exact missed_taken hhome hwriting hplaced hreading

end threads

/-! ## Runs -/

section runs

variable {t : Threads K V} {turns : List (Turn K V)}

theorem along_of_undisturbed (hn : n = 2 ^ bits) (hbits : bits ≤ 64) (hload : maxLoad < n)
    (h : Sound hash n maxLoad k v t)
    (hok : Steps (Readers.step hash k) (Undisturbed hash n k) t turns) :
    Along (Readers.step hash k) (Finds n v) t turns := by
  refine Along.mono (along_of_invariant (fun s a u hs ha hu => ?_) h hok) fun s hs => ?_
  · exact Sound.step hn hbits hload hs ha hu
  · exact hs.reading.finds (home_lt hash hn k)

/-- The reader returns the value at the end of a run only if nothing disturbed it. -/
theorem undisturbed_of_returned (hn : n = 2 ^ bits) (hbits : bits ≤ 64) (hload : maxLoad < n)
    (h : Sound hash n maxLoad k v t) {s : Threads K V}
    (hr : run (Readers.step hash k) t turns = some s)
    (hreader : s.reader = some (.returned (.value (some v)))) :
    Steps (Readers.step hash k) (Undisturbed hash n k) t turns := by
  refine steps_of_kept (L := fun s => ∃ access, Lost hash n maxLoad k v s access)
    (fun s a u hs ha hu => Sound.step hn hbits hload hs ha hu)
    (fun s a u hs ha hu => Sound.loses hn hbits hload hs ha hu)
    (fun s a u hs hu => Lost.step hn hbits hload hs hu) h hr ?_
  rintro ⟨access, hlost⟩
  obtain rfl := Option.some.inj (hlost.reader.symm.trans hreader)
  cases hlost.missed with
  | returned hnot => exact hnot rfl

/-- From every map that calls can lead to, along every interleaving: as long as the reader is
not disturbed it finds the key, and a reader that has returned the value was not disturbed. -/
theorem finds_iff_undisturbed (hash : K → UInt64) (bits maxLoad : Nat) (hbits : bits < 64)
    (hload : maxLoad < 2 ^ bits) (cells : Nat → Cell K V) (ops : List (Op K V))
    (m : State K V) (as : List (Answer V)) (k : K) (v : V) (turns : List (Turn K V))
    (hm : exec (call hash) (State.init (2 ^ bits) maxLoad cells) ops = some (as, m))
    (hk : (answers (answerOf maxLoad) ∅ ops).2.lookup k = some v) :
    (Steps (step hash k) (Undisturbed hash (2 ^ bits) k) (start m) turns →
      Along (step hash k) (Finds (2 ^ bits) v) (start m) turns) ∧
    ∀ s answer, run (step hash k) (start m) turns = some s →
      s.reader = some (.returned answer) →
      (answer = .value (some v) ↔
        Steps (step hash k) (Undisturbed hash (2 ^ bits) k) (start m) turns) := by
  have hbits' := Nat.le_of_lt hbits
  obtain ⟨m', hm', hrepresents⟩ :=
    exec_call_eq rfl hbits' hload (represents_init hash bits maxLoad cells) ops
  obtain rfl : m' = m := congrArg Prod.snd (Option.some.inj (hm'.symm.trans hm))
  have hsound : Sound hash (2 ^ bits) maxLoad k v (start m') :=
    ⟨.returned ⟨_, hrepresents, hk⟩, .idle⟩
  refine ⟨fun hok => along_of_undisturbed rfl hbits' hload hsound hok,
    fun s answer hr hreader => ⟨?_, ?_⟩⟩
  · rintro rfl
    exact undisturbed_of_returned rfl hbits' hload hsound hr hreader
  · intro hok
    have halong := along_of_undisturbed rfl hbits' hload hsound hok
    have hfinds := along_iff_reached.mp halong turns (List.prefix_refl _) s hr
    exact hfinds.2 answer hreader

/-- The reader of 5 is past the cell of 1 when that is emptied. -/
theorem read_before_erase :
    Along (step (fun key : Nat => UInt64.ofNat key) 5) (Finds (2 ^ 2) 50)
      (start (((((State.init (2 ^ 2) 3 fun _ => ⟨none, none⟩).fetchAdd.setKey 1 (some 1)).setValue 1
        (some 10)).fetchAdd.setKey 2 (some 5)).setValue 2 (some 50)))
      [.get, .read, .call (.erase (some 1)), .write, .write, .write, .read, .read, .read] := by
  refine (finds_iff_undisturbed (fun key => UInt64.ofNat key) 2 3 (by omega) (by omega)
    (fun _ => ⟨none, none⟩) [.assign (some 1) (some 10), .assign (some 5) (some 50)] _
    [.done true, .done true] 5 50 _ rfl rfl).1 ?_
  refine .cons rfl trivial (.cons rfl ?_ (.cons rfl trivial ?_))
  · exact Ne.symm (Option.some_ne_none 1)
  refine .cons rfl trivial (.cons rfl trivial (.cons rfl trivial (.cons rfl ?_ ?_)))
  · show some 1 ≠ some 2
    simp
  exact .cons rfl trivial (.cons rfl trivial trivial)

/-- The reader of 5 comes to the cell of 1 when that has been emptied, and 5 is not yet moved
there. -/
theorem emptied_cell :
    ∃ m as, exec (call fun key : Nat => UInt64.ofNat key)
        (State.init (2 ^ 2) 3 fun _ => ⟨none, none⟩)
        [.assign (some 1) (some 10), .assign (some 5) (some 50)] = some (as, m) ∧
      (answers (answerOf 3) (∅ : Table Nat Nat)
        [.assign (some 1) (some 10), .assign (some 5) (some 50)]).2.lookup 5 = some 50 ∧
      ¬ Along (step (fun key => UInt64.ofNat key) 5) (Finds (2 ^ 2) 50) (start m)
        [.call (.erase (some 1)), .write, .write, .write, .get, .read] := by
  refine ⟨_, _, rfl, rfl, not_along_of_run (List.prefix_refl _) rfl fun hfinds => ?_⟩
  cases hfinds.2 _ rfl

end runs

end Opsian.Concurrent.Misses
