import Opsian.Concurrent.ConcurrentMap
import Opsian.Lib.Probing
import Opsian.Lib.Simulation

/-! # The concurrent map by itself

As long as one thread calls it, the map is a finite map that may be full. -/
namespace Opsian.Concurrent.Refinement
open Opsian.Lib Opsian.Lib.Probing Opsian.Lib.Simulation Opsian.Concurrent.ConcurrentMap

variable {K V : Type}

def keysOf (cells : Nat → Cell K V) (i : Nat) : Option K := (cells i).key

/-- The home cell of a key. -/
def home (hash : K → UInt64) (capacity : Nat) (key : K) : Nat := (hash key).toNat % capacity

/-- The one before it, from which a probe begins. -/
def last (hash : K → UInt64) (capacity : Nat) (key : K) : Nat :=
  (hash key - 1).toNat % capacity

theorem keysOf_update (cells : Nat → Cell K V) (i : Nat) (cell : Cell K V) :
    keysOf (Function.update cells i cell) = Function.update (keysOf cells) i cell.key :=
  funext fun j => Function.apply_update (fun _ => Cell.key) cells i cell j

/-- The bindings of a finite map, each in one cell. -/
structure Holds [DecidableEq K] (n : Nat) (cells : Nat → Cell K V) (t : Table K V) : Prop where
  bound : ∀ key value, t.lookup key = some value ↔ ∃ i < n, cells i = ⟨some key, some value⟩
  paired : ∀ i < n, (cells i).key = none ↔ (cells i).value = none

/-- The map of a capacity in which a finite map is kept. -/
structure Represents [DecidableEq K] (hash : K → UInt64) (capacity maxLoad : Nat)
    (m : ConcurrentMap.State K V) (t : Table K V) : Prop where
  sizeMask : m.sizeMask = capacity - 1
  load : m.maxLoad = maxLoad
  /-- The size is that of the finite map, and the number of occupied cells. -/
  size : m.size = t.size
  occupied : occupied capacity (keysOf m.cells) = m.size
  full : m.size ≤ maxLoad
  /-- No key occupies two cells, and no empty cell is on the way to a key. -/
  chained : Chained capacity (home hash capacity) (keysOf m.cells)
  holds : Holds capacity m.cells t
  /-- No cycle was detected but where `get` or `erase` search in vain. -/
  cycles : ∀ cycle ∈ m.cycles, cycle = .get ∨ cycle = .erase

/-! ## Bindings -/

section holds

variable [DecidableEq K] {n : Nat} {cells : Nat → Cell K V} {t : Table K V} {i : Nat} {key : K}
  {value : V}

theorem Holds.lookup (h : Holds n cells t) (hi : i < n) (hkey : (cells i).key = some key) :
    (cells i).value = t.lookup key := by
  cases hvalue : (cells i).value with
  | none =>
    rw [(h.paired i hi).mpr hvalue] at hkey
    cases hkey
  | some value =>
    refine ((h.bound key value).mpr ⟨i, hi, ?_⟩).symm
    rw [← hkey, ← hvalue]

theorem Holds.mem (h : Holds n cells t) (hi : i < n) (hkey : (cells i).key = some key) :
    key ∈ t := by
  cases hvalue : (cells i).value with
  | none =>
    rw [(h.paired i hi).mpr hvalue] at hkey
    cases hkey
  | some value => exact Table.mem_of_lookup ((h.lookup hi hkey).symm.trans hvalue)

theorem Holds.not_mem (h : Holds n cells t) (habsent : ∀ i < n, keysOf cells i ≠ some key) :
    key ∉ t := by
  intro hmem
  obtain ⟨value, hlookup⟩ := Table.lookup_of_mem hmem
  obtain ⟨i, hi, hcell⟩ := (h.bound key value).mp hlookup
  exact habsent i hi (congrArg Cell.key hcell)

/-- A binding is stored in an empty cell, or in the cell of its key. -/
theorem Holds.insert (h : Holds n cells t) (hi : i < n)
    (hcell : ∀ j < n, keysOf cells j = some key → j = i)
    (hkey : (cells i).key = none ∨ (cells i).key = some key) (value : V) :
    Holds n (Function.update cells i ⟨some key, some value⟩) (t.insert key value) where
  bound key' value' := by
    by_cases hkey' : key' = key
    · subst hkey'
      rw [AList.lookup_insert]
      constructor
      · intro hvalue
        rw [← hvalue]
        exact ⟨i, hi, Function.update_self ..⟩
      · rintro ⟨j, hj, hcell'⟩
        by_cases hji : j = i
        · subst hji
          rw [Function.update_self] at hcell'
          exact congrArg Cell.value hcell'
        · rw [Function.update_of_ne hji] at hcell'
          exact absurd (hcell j hj (congrArg Cell.key hcell')) hji
    · rw [AList.lookup_insert_ne hkey', h.bound]
      refine exists_congr fun j => and_congr_right fun _ => ?_
      by_cases hji : j = i
      · subst hji
        rw [Function.update_self]
        refine iff_of_false (fun hcell' => ?_) fun hcell' => ?_
        · rw [hcell'] at hkey
          rcases hkey with hkey | hkey
          · cases hkey
          · exact hkey' (Option.some.inj hkey)
        · exact hkey' (Option.some.inj (congrArg Cell.key hcell')).symm
      · rw [Function.update_of_ne hji]
  paired j hj := by
    by_cases hji : j = i
    · subst hji
      simp
    · rw [Function.update_of_ne hji]
      exact h.paired j hj

theorem Holds.erase (h : Holds n cells t) (hi : i < n)
    (hcell : ∀ j < n, keysOf cells j = some key → j = i) (hkey : (cells i).key = some key) :
    Holds n (Function.update cells i ⟨none, none⟩) (t.erase key) where
  bound key' value' := by
    by_cases hkey' : key' = key
    · subst hkey'
      rw [AList.lookup_erase]
      refine iff_of_false (by simp) ?_
      rintro ⟨j, hj, hcell'⟩
      by_cases hji : j = i
      · subst hji
        simp at hcell'
      · rw [Function.update_of_ne hji] at hcell'
        exact hji (hcell j hj (congrArg Cell.key hcell'))
    · rw [AList.lookup_erase_ne hkey', h.bound]
      refine exists_congr fun j => and_congr_right fun _ => ?_
      by_cases hji : j = i
      · subst hji
        refine iff_of_false (fun hcell' => ?_) (by simp)
        rw [hcell'] at hkey
        exact hkey' (Option.some.inj hkey)
      · rw [Function.update_of_ne hji]
  paired j hj := by
    by_cases hji : j = i
    · subst hji
      simp
    · rw [Function.update_of_ne hji]
      exact h.paired j hj

theorem Holds.congr {t' : Table K V} (h : Holds n cells t)
    (ht : ∀ key, t'.lookup key = t.lookup key) : Holds n cells t' where
  bound key value := by rw [ht]; exact h.bound key value
  paired := h.paired

/-- A binding that is moved to an empty cell. -/
theorem Holds.move {d : Nat} (h : Holds n cells t) (hi : i < n) (hd : d < n) (hne : d ≠ i)
    (hcell : ∀ j < n, keysOf cells j = some key → j = i) (hkey : (cells i).key = some key)
    (hnone : (cells d).key = none) :
    Holds n (Function.update (Function.update cells d ⟨some key, (cells i).value⟩) i ⟨none, none⟩)
      t := by
  cases hvalue : (cells i).value with
  | none =>
    rw [(h.paired i hi).mpr hvalue] at hkey
    cases hkey
  | some value =>
    rw [Function.update_comm hne]
    refine ((h.erase hi hcell hkey).insert hd ?_ (.inl ?_) value).congr fun key' => ?_
    · intro j hj hkey'
      unfold keysOf at hkey'
      by_cases hji : j = i
      · subst hji
        simp at hkey'
      · rw [Function.update_of_ne hji] at hkey'
        exact absurd (hcell j hj hkey') hji
    · rw [Function.update_of_ne hne]
      exact hnone
    · by_cases hkey' : key' = key
      · subst hkey'
        rw [AList.lookup_insert, ← h.lookup hi hkey, hvalue]
      · rw [AList.lookup_insert_ne hkey', AList.lookup_erase_ne hkey']

end holds

/-! ## Accesses in a row -/

section accesses

variable [DecidableEq K] {hash : K → UInt64} {x y z : Access K V × State K V} {a b : Nat}

/-- So many accesses, at most, lead from one point of a call to another. -/
def Reaches (hash : K → UInt64) (a : Nat) (x y : Access K V × State K V) : Prop :=
  ∃ c ≤ a, accesses hash c x = y

theorem Reaches.refl (a : Nat) (x : Access K V × State K V) : Reaches hash a x x :=
  ⟨0, Nat.zero_le a, rfl⟩

theorem Reaches.step (h : Reaches hash a (ConcurrentMap.step hash x.2 x.1) y) :
    Reaches hash (a + 1) x y := by
  obtain ⟨c, hc, hy⟩ := h
  exact ⟨c + 1, Nat.succ_le_succ hc, hy⟩

theorem Reaches.next {w : Access K V} {m : State K V} (hw : ConcurrentMap.step hash m w = x)
    (h : Reaches hash a x y) : Reaches hash (a + 1) (w, m) y :=
  Reaches.step (hw ▸ h)

theorem Reaches.mono (h : Reaches hash a x y) (hab : a ≤ b) : Reaches hash b x y := by
  obtain ⟨c, hc, hy⟩ := h
  exact ⟨c, Nat.le_trans hc hab, hy⟩

theorem accesses_returned (n : Nat) (answer : Answer V) (m : State K V) :
    accesses hash n (.returned answer, m) = (.returned answer, m) := by
  induction n with
  | zero => rfl
  | succ n ih => exact ih

theorem accesses_add (a b : Nat) (x : Access K V × State K V) :
    accesses hash (a + b) x = accesses hash b (accesses hash a x) := by
  induction a generalizing x with
  | zero => rw [Nat.zero_add]; rfl
  | succ a ih => rw [Nat.succ_add]; exact ih _

theorem Reaches.trans (h : Reaches hash a x y) (h' : Reaches hash b y z) :
    Reaches hash (a + b) x z := by
  obtain ⟨c, hc, rfl⟩ := h
  obtain ⟨d, hd, rfl⟩ := h'
  exact ⟨c + d, Nat.add_le_add hc hd, accesses_add c d x⟩

/-- A call returns what it reaches in time. -/
theorem call_of_reaches {m m' : State K V} {op : Op K V} {answer : Answer V}
    (h : Reaches hash (7 * (m.sizeMask + 1) + 6) (begin hash m op) (.returned answer, m')) :
    call hash m op = some (answer, m') := by
  obtain ⟨c, hc, hy⟩ := h
  obtain ⟨d, hd⟩ := Nat.exists_eq_add_of_le hc
  unfold call
  rw [hd, accesses_add, hy, accesses_returned]
  rfl

end accesses

/-! ## Indices -/

section indices

variable {hash : K → UInt64} {n bits : Nat} {m : State K V}

theorem nextIndex_eq (hn : n = 2 ^ bits) (hm : m.sizeMask = n - 1) {idx : Nat} (hidx : idx < n) :
    m.nextIndex idx = next n idx := by
  unfold State.nextIndex
  rw [hm, next_eq_mod hidx, hn, Nat.and_two_pow_sub_one_eq_mod]

theorem homeIndex_eq (hn : n = 2 ^ bits) (hm : m.sizeMask = n - 1) (key : K) :
    homeIndex hash m key = home hash n key := by
  unfold homeIndex home
  rw [hm, hn, Nat.and_two_pow_sub_one_eq_mod]

theorem predecessorIndex_eq (hn : n = 2 ^ bits) (hm : m.sizeMask = n - 1) (key : K) :
    predecessorIndex hash m key = last hash n key := by
  unfold predecessorIndex last
  rw [hm, hn, Nat.and_two_pow_sub_one_eq_mod]

theorem home_lt (hash : K → UInt64) (hn : n = 2 ^ bits) (key : K) : home hash n key < n :=
  Nat.mod_lt _ (hn ▸ Nat.two_pow_pos bits)

theorem last_lt (hash : K → UInt64) (hn : n = 2 ^ bits) (key : K) : last hash n key < n :=
  Nat.mod_lt _ (hn ▸ Nat.two_pow_pos bits)

/-- The home cell is next to the last one, also where the hash is 0. -/
theorem next_last (hash : K → UInt64) (hn : n = 2 ^ bits) (hbits : bits ≤ 64) (key : K) :
    next n (last hash n key) = home hash n key := by
  obtain ⟨q, hq⟩ : n ∣ 2 ^ 64 := hn ▸ Nat.pow_dvd_pow 2 hbits
  have hsub : (hash key - 1).toNat = (2 ^ 64 - 1 + (hash key).toNat) % 2 ^ 64 :=
    UInt64.toNat_sub (hash key) 1
  rw [next_eq_mod (last_lt hash hn key), last, home, hsub, Nat.mod_mod_of_dvd _ ⟨q, hq⟩,
    Nat.mod_add_mod]
  have hsum : 2 ^ 64 - 1 + (hash key).toNat + 1 = (hash key).toNat + n * q := by omega
  rw [hsum, Nat.add_mul_mod_self_left]

end indices

/-! ## Probing -/

section probing

variable {hash : K → UInt64} {n bits : Nat} {m : State K V} {key : K} {idx : Nat}
  {cycle : Cycle} {answer : Answer V} {access : Nat → Access K V}

/-- All cells but the last have other keys. -/
def Elsewhere (hash : K → UInt64) (n : Nat) (m : State K V) (key : K) : Prop :=
  ∀ j < n, j ≠ last hash n key → keysOf m.cells j ≠ none ∧ keysOf m.cells j ≠ some key

/-- The cell before its home is no key's. -/
theorem Elsewhere.absent (h : Elsewhere hash n m key)
    (hchained : Chained n (home hash n) (keysOf m.cells)) (hn : n = 2 ^ bits) (hbits : bits ≤ 64)
    {i : Nat} (hi : i < n) : keysOf m.cells i ≠ some key := by
  by_cases hlast : i = last hash n key
  · intro hkey
    have hreached := hchained.reached i key hi hkey
    have hend := offset_of_next (last_lt hash hn key) (next_last hash hn hbits key)
    rw [hlast] at hreached
    omega
  · exact (h i hi hlast).2

/-- One round past a cell with another key. -/
theorem probe_of_ahead (cycle : Cycle) (answer : Answer V) (access : Nat → Access K V)
    (hn : n = 2 ^ bits) (hbits : bits ≤ 64) (hm : m.sizeMask = n - 1)
    (h : Ahead n (home hash n) (keysOf m.cells) key idx)
    (hother : keysOf m.cells idx ≠ none ∧ keysOf m.cells idx ≠ some key) :
    (Elsewhere hash n m key ∧
      probe m (last hash n key) idx cycle answer access = (.returned answer, m.log cycle)) ∨
    (Ahead n (home hash n) (keysOf m.cells) key (next n idx) ∧
      offset n (home hash n key) (next n idx) = offset n (home hash n key) idx + 1 ∧
      probe m (last hash n key) idx cycle answer access = (access (next n idx), m)) := by
  have hprobe : probe m (last hash n key) idx cycle answer access =
      if last hash n key = next n idx then (.returned answer, m.log cycle)
      else (access (next n idx), m) := by
    rw [probe, nextIndex_eq hn hm h.lt]
  have hhome := next_last hash hn hbits key
  rcases h.next hother (home_lt hash hn key) (last_lt hash hn key) hhome with
    ⟨hlast, helse⟩ | ⟨hlast, hnext, hoffset⟩
  · exact .inl ⟨helse, hprobe.trans (if_pos hlast.symm)⟩
  · exact .inr ⟨hnext, hoffset, hprobe.trans (if_neg hlast.symm)⟩

/-- The first round, which gets to the home cell unless the map has but one cell. -/
theorem probe_first (key : K) (cycle : Cycle) (answer : Answer V) (access : Nat → Access K V)
    (hn : n = 2 ^ bits) (hbits : bits ≤ 64) (hm : m.sizeMask = n - 1) :
    (Elsewhere hash n m key ∧
      probe m (last hash n key) (last hash n key) cycle answer access =
        (.returned answer, m.log cycle)) ∨
    (Ahead n (home hash n) (keysOf m.cells) key (home hash n key) ∧
      probe m (last hash n key) (last hash n key) cycle answer access =
        (access (home hash n key), m)) := by
  have hlast := last_lt hash hn key
  have hhome := home_lt hash hn key
  have hprobe : probe m (last hash n key) (last hash n key) cycle answer access =
      if last hash n key = home hash n key then (.returned answer, m.log cycle)
      else (access (home hash n key), m) := by
    rw [probe, nextIndex_eq hn hm hlast, next_last hash hn hbits]
  by_cases hone : last hash n key = home hash n key
  · have hn1 := offset_of_next hlast (next_last hash hn hbits key)
    rw [← hone, offset_self] at hn1
    refine .inl ⟨fun j hj hne => absurd ?_ hne, hprobe.trans (if_pos hone)⟩
    omega
  · exact .inr ⟨ahead_home (by omega) hhome, hprobe.trans (if_neg hone)⟩

variable [DecidableEq K]

/-- A probe that was found, or has nothing more to look at. -/
def Searched (hash : K → UInt64) (n a : Nat) (m : State K V) (key : K) (cycle : Cycle)
    (answer : Answer V) (access : Nat → Access K V) (x : Access K V × State K V) : Prop :=
  (∃ i, Ahead n (home hash n) (keysOf m.cells) key i ∧
    (keysOf m.cells i = none ∨ keysOf m.cells i = some key) ∧
    Reaches hash a x (access i, m)) ∨
  (Elsewhere hash n m key ∧ Reaches hash a x (.returned answer, m.log cycle))

theorem Searched.mono {a b : Nat} {x : Access K V × State K V}
    (h : Searched hash n a m key cycle answer access x) (hab : a ≤ b) :
    Searched hash n b m key cycle answer access x := by
  rcases h with ⟨i, hi, hkey, hr⟩ | ⟨helse, hr⟩
  · exact .inl ⟨i, hi, hkey, hr.mono hab⟩
  · exact .inr ⟨helse, hr.mono hab⟩

theorem Searched.step {a : Nat} {x : Access K V × State K V}
    (h : Searched hash n a m key cycle answer access (ConcurrentMap.step hash x.2 x.1)) :
    Searched hash n (a + 1) m key cycle answer access x := by
  rcases h with ⟨i, hi, hkey, hr⟩ | ⟨helse, hr⟩
  · exact .inl ⟨i, hi, hkey, hr.step⟩
  · exact .inr ⟨helse, hr.step⟩

/-- The loop of `assign`, `erase` and `get`, which takes a cell with another key for a
reason to go on. -/
theorem searched_of_ahead (hn : n = 2 ^ bits) (hbits : bits ≤ 64) (hm : m.sizeMask = n - 1)
    (hother : ∀ idx key', (m.cells idx).key = some key' → key' ≠ key →
      step hash m (access idx) = probe m (last hash n key) idx cycle answer access)
    (h : Ahead n (home hash n) (keysOf m.cells) key idx) :
    Searched hash n (n - offset n (home hash n key) idx) m key cycle answer access
      (access idx, m) := by
  induction hd : n - offset n (home hash n key) idx generalizing idx with
  | zero =>
    have := h.inside
    omega
  | succ d ih =>
    cases hkey : keysOf m.cells idx with
    | none => exact .inl ⟨idx, h, .inl hkey, .refl _ _⟩
    | some key' =>
      by_cases heq : key' = key
      · exact .inl ⟨idx, h, .inr (heq ▸ hkey), .refl _ _⟩
      · have hnot : keysOf m.cells idx ≠ none ∧ keysOf m.cells idx ≠ some key := by
          rw [hkey]
          exact ⟨Option.some_ne_none _, fun he => heq (Option.some.inj he)⟩
        refine Searched.step ?_
        have hstep : step hash m (access idx) =
            probe m (last hash n key) idx cycle answer access := hother idx key' hkey heq
        rw [hstep]
        rcases probe_of_ahead cycle answer access hn hbits hm h hnot with
          ⟨helse, hprobe⟩ | ⟨hnext, hoffset, hprobe⟩
        · rw [hprobe]
          exact .inr ⟨helse, .refl _ _⟩
        · rw [hprobe]
          exact ih hnext (by omega)

/-- From the first probe on. -/
theorem searched_of_probe (hn : n = 2 ^ bits) (hbits : bits ≤ 64) (hm : m.sizeMask = n - 1)
    (hother : ∀ idx key', (m.cells idx).key = some key' → key' ≠ key →
      step hash m (access idx) = probe m (last hash n key) idx cycle answer access) :
    Searched hash n n m key cycle answer access
      (probe m (last hash n key) (last hash n key) cycle answer access) := by
  rcases probe_first key cycle answer access hn hbits hm with ⟨helse, hprobe⟩ | ⟨hahead, hprobe⟩
  · rw [hprobe]
    exact .inr ⟨helse, .refl _ _⟩
  · rw [hprobe]
    exact (searched_of_ahead hn hbits hm hother hahead).mono (Nat.sub_le _ _)

end probing

/-! ## Representations -/

section represents

theorem cells_setValue (m : State K V) (i : Nat) (cell : Cell K V) :
    ((m.setKey i cell.key).setValue i cell.value).cells = Function.update m.cells i cell := by
  simp [State.setKey, State.setValue]

theorem cells_setKey (m : State K V) (i : Nat) (cell : Cell K V) :
    ((m.setValue i cell.value).setKey i cell.key).cells = Function.update m.cells i cell := by
  simp [State.setKey, State.setValue]

variable [DecidableEq K] {hash : K → UInt64} {n bits maxLoad : Nat} {m : State K V}
  {t : Table K V} {key : K} {i : Nat}

theorem Represents.log {cycle : Cycle} (h : Represents hash n maxLoad m t)
    (hcycle : cycle = .get ∨ cycle = .erase) : Represents hash n maxLoad (m.log cycle) t where
  sizeMask := h.sizeMask
  load := h.load
  size := h.size
  occupied := h.occupied
  full := h.full
  chained := h.chained
  holds := h.holds
  cycles c hc := by
    rcases List.mem_append.mp hc with hc | hc
    · exact h.cycles c hc
    · rw [List.mem_singleton.mp hc]
      exact hcycle

/-- An empty cell on its way, or other keys in all cells, show that a key is not bound. -/
theorem Represents.absent (h : Represents hash n maxLoad m t) (hn : n = 2 ^ bits)
    (ha : Ahead n (home hash n) (keysOf m.cells) key i) (hnone : keysOf m.cells i = none) :
    key ∉ t :=
  h.holds.not_mem fun _ hj => h.chained.absent ha hnone (home_lt hash hn key) hj

theorem Represents.elsewhere (h : Represents hash n maxLoad m t) (hn : n = 2 ^ bits)
    (hbits : bits ≤ 64) (helse : Elsewhere hash n m key) : key ∉ t :=
  h.holds.not_mem fun _ hj => helse.absent h.chained hn hbits hj

theorem Represents.cell (h : Represents hash n maxLoad m t) (hi : i < n)
    (hkey : keysOf m.cells i = some key) :
    ∀ j < n, keysOf m.cells j = some key → j = i := by
  intro j hj hjkey
  exact h.chained.once j i key hj hi hjkey hkey

/-- A new value for a key that was there. -/
theorem Represents.known (h : Represents hash n maxLoad m t) (hi : i < n)
    (hkey : keysOf m.cells i = some key) (value : V) :
    Represents hash n maxLoad (m.fetchAdd.fetchSub.setValue i (some value))
      (t.insert key value) := by
  have hcells : (m.fetchAdd.fetchSub.setValue i (some value)).cells =
      Function.update m.cells i ⟨some key, some value⟩ := by
    show Function.update m.cells i ⟨(m.cells i).key, some value⟩ = _
    rw [show (m.cells i).key = some key from hkey]
  have hkeys : keysOf (m.fetchAdd.fetchSub.setValue i (some value)).cells = keysOf m.cells := by
    rw [hcells, keysOf_update, ← hkey, Function.update_eq_self]
  refine ⟨h.sizeMask, h.load, ?_, ?_, h.full, ?_, ?_, h.cycles⟩
  · rw [Table.size_insert_mem (h.holds.mem hi hkey)]
    exact h.size
  · rw [hkeys]
    exact h.occupied
  · rw [hkeys]
    exact h.chained
  · rw [hcells]
    exact h.holds.insert hi (h.cell hi hkey) (.inr hkey) value

/-- A new key. -/
theorem Represents.taken (h : Represents hash n maxLoad m t) (hn : n = 2 ^ bits)
    (ha : Ahead n (home hash n) (keysOf m.cells) key i) (hnone : keysOf m.cells i = none)
    (hfull : m.size < maxLoad) (value : V) :
    Represents hash n maxLoad ((m.fetchAdd.setKey i (some key)).setValue i (some value))
      (t.insert key value) := by
  have hcells := cells_setValue m.fetchAdd i ⟨some key, some value⟩
  have hkeys := congrArg keysOf hcells
  rw [keysOf_update] at hkeys
  have hnew : ∀ j < n, keysOf m.cells j ≠ some key := fun j hj =>
    h.chained.absent ha hnone (home_lt hash hn key) hj
  refine ⟨h.sizeMask, h.load, ?_, ?_, hfull, ?_, ?_, h.cycles⟩
  · rw [Table.size_insert (h.absent hn ha hnone), ← h.size]
    rfl
  · refine (congrArg (Probing.occupied n) hkeys).trans ?_
    exact (occupied_update_some ha.lt hnone key).trans (congrArg (· + 1) h.occupied)
  · rw [hkeys]
    exact h.chained.insert ha hnew
  · rw [hcells]
    exact h.holds.insert ha.lt (fun j hj hkey => absurd hkey (hnew j hj)) (.inl hnone) value

theorem represents_clear (hn : n = 2 ^ bits) (hm : m.sizeMask = n - 1)
    (hload : m.maxLoad = maxLoad)
    (hcycles : ∀ cycle ∈ m.cycles, cycle = .get ∨ cycle = .erase) :
    Represents hash n maxLoad m.clear ∅ := by
  have hpos : 0 < n := hn ▸ Nat.two_pow_pos bits
  have hcell : ∀ i < n, m.clear.cells i = ⟨none, none⟩ := by
    intro i hi
    exact if_pos (by omega)
  have hkeys : ∀ i < n, keysOf m.clear.cells i = none := fun i hi => congrArg Cell.key (hcell i hi)
  refine ⟨hm, hload, rfl, occupied_of_empty hkeys, Nat.zero_le _, chained_of_empty hkeys,
    ⟨fun key value => ?_, fun i hi => ?_⟩, hcycles⟩
  · refine iff_of_false (by simp) ?_
    rintro ⟨i, hi, hkey⟩
    rw [hcell i hi] at hkey
    cases hkey
  · rw [hcell i hi]
    exact iff_of_true rfl rfl

theorem represents_init (hash : K → UInt64) (bits maxLoad : Nat) (cells : Nat → Cell K V) :
    Represents hash (2 ^ bits) maxLoad (State.init (2 ^ bits) maxLoad cells) ∅ :=
  represents_clear rfl rfl rfl fun _ hcycle => nomatch hcycle

end represents

end Opsian.Concurrent.Refinement
