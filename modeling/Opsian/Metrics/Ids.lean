import Mathlib.Algebra.Ring.Nat
import Opsian.Metrics.Loop

/-! # Metric ids

A new name gets the size of the map plus one, the duration metric always gets 1.
That is one id for each name as long as the duration name goes in first. The
thread inserts it before it takes the lock, so an `enable` that falls between
its look at the flag and the locked section, or before it lowers the flag, lets
a reader's metric come first and take the id 1. -/
namespace Opsian.Metrics.Ids
open Opsian.Lib Opsian.Lib.Runs Opsian.Metrics.Listener Opsian.Metrics.Loop

/-- No two names share an id, and only the duration metric has its id. -/
structure Distinct (s : State) : Prop where
  injective : Table.Injective s.metricNameToId
  duration : ∀ name, s.metricNameToId.lookup name = some durationId → name = durationName

/-- Where the next step gives an id to a new name, the duration name has its id
already, and there is an id left. -/
def DurationFirst (s : State) : Label → Prop
  | .thread .go => ∀ poll t b e todo, s.pc = .recording poll t b → b.todo = e :: todo →
      e.name ∉ s.metricNameToId → e.name ≠ durationName →
        durationName ∈ s.metricNameToId ∧ s.metricNameToId.size < 2 ^ 32
  | _ => True

/-! ## The invariant -/

/-- The ids of a table of `n` names lie between 1 and `n`, and the first of them
is the duration metric's. -/
structure Numbered (ids : Table String UInt32) : Prop where
  injective : Table.Injective ids
  below : ∀ name id, ids.lookup name = some id → (id - 1).toNat < ids.size
  size_le : ids.size ≤ 2 ^ 32
  duration : ids.size ≠ 0 → ids.lookup durationName = some durationId

/-- The table is numbered, and stays so if the push of a new name fails. -/
structure Inv (s : State) : Prop where
  numbered : Numbered s.metricNameToId
  takeBack : ∀ name, s.pc.newName = some name → Numbered (s.metricNameToId.erase name)

theorem numbered_empty : Numbered ∅ where
  injective := Table.injective_empty
  below := by intro name id h; rw [AList.lookup_empty] at h; cases h
  size_le := Nat.zero_le _
  duration := by intro h; exact absurd Table.size_empty h

theorem sub_nextMetricId (ids : Table String UInt32) :
    nextMetricId ids - 1 = UInt32.ofNat ids.size := by
  rw [nextMetricId]; exact UInt32.add_sub_cancel _ _

theorem toNat_sub_nextMetricId {ids : Table String UInt32} (h : ids.size < 2 ^ 32) :
    (nextMetricId ids - 1).toNat = ids.size := by
  rw [sub_nextMetricId, UInt32.toNat_ofNat']; omega

/-- A new name behind the duration name gets a new id. -/
theorem Numbered.insert {ids : Table String UInt32} (h : Numbered ids) {name : String}
    (hnew : name ∉ ids) (hsize : ids.size < 2 ^ 32)
    (hfirst : name = durationName ∨ durationName ∈ ids) :
    Numbered (ids.insert name (nextMetricId ids)) where
  injective := by
    refine h.injective.insert fun a ha => ?_
    have hlt := h.below a _ ha
    rw [toNat_sub_nextMetricId hsize] at hlt
    exact Nat.lt_irrefl _ hlt
  below := by
    intro a id ha
    rw [Table.size_insert hnew]
    rcases Table.lookup_insert_cases ha with ⟨-, rfl⟩ | ⟨-, ha⟩
    · rw [toNat_sub_nextMetricId hsize]; exact Nat.lt_succ_self _
    · exact Nat.lt_succ_of_lt (h.below a id ha)
  size_le := by rw [Table.size_insert hnew]; exact hsize
  duration := by
    intro _
    by_cases hdur : durationName ∈ ids
    · have hne : durationName ≠ name := fun he => hnew (he ▸ hdur)
      rw [AList.lookup_insert_ne hne]
      refine h.duration fun hz => ?_
      rw [Table.eq_empty_of_size hz] at hdur
      exact AList.notMem_empty _ hdur
    · rcases hfirst with rfl | hfirst
      · have hz : ids.size = 0 := by
          by_contra hz
          exact hdur (Table.mem_of_lookup (h.duration hz))
        rw [AList.lookup_insert, nextMetricId, hz]; rfl
      · exact absurd hfirst hdur

theorem Numbered.not_mem_duration {ids : Table String UInt32} (h : Numbered ids)
    (hdur : durationName ∉ ids) : ids = ∅ := by
  by_contra hne
  exact hdur (Table.mem_of_lookup (h.duration fun hz => hne (Table.eq_empty_of_size hz)))

/-- The fixed id fits: where the duration name is new, the table is empty. -/
theorem Numbered.emplace_duration {ids : Table String UInt32} (h : Numbered ids) :
    Numbered (ids.emplace durationName durationId) := by
  by_cases hdur : durationName ∈ ids
  · rw [Table.emplace_of_mem hdur]; exact h
  · obtain rfl := h.not_mem_duration hdur
    rw [Table.emplace_of_not_mem hdur]
    exact numbered_empty.insert hdur (by decide) (.inl rfl)

/-- Away from the push of a new name only the table counts. -/
theorem Inv.of_newName {s : State} (h : Numbered s.metricNameToId) (hpc : s.pc.newName = none) :
    Inv s :=
  ⟨h, fun name hname => by rw [hpc] at hname; cases hname⟩

theorem Inv.effect {s t : State} {a : Action} (h : Inv s) (hok : DurationFirst s (.thread a))
    (he : Effect s a t) : Inv t := by
  cases he with
  | move hs hpc => exact .of_newName h.numbered (Pc.newName_of_batch hpc)
  | insertDuration hs => exact .of_newName h.numbered.emplace_duration rfl
  | retryDuration => exact h
  | new poll time b e todo hs htodo hnew =>
    have hins : Numbered (s.metricNameToId.insert e.name (nextMetricId s.metricNameToId)) := by
      by_cases hname : e.name = durationName
      · have hempty := h.numbered.not_mem_duration (hname ▸ hnew)
        refine h.numbered.insert hnew ?_ (.inl hname)
        rw [hempty]; decide
      · obtain ⟨hdur, hsize⟩ := hok poll time b e todo hs htodo hnew hname
        exact h.numbered.insert hnew hsize (.inr hdur)
    refine ⟨hins, fun name hname => ?_⟩
    obtain rfl := Option.some.inj hname
    show Numbered (AList.erase e.name _)
    rw [Table.erase_insert hnew]
    exact h.numbered
  | takeBack poll time b e id hs =>
    exact .of_newName (h.takeBack e.name (by rw [hs]; rfl)) rfl
  | samples poll time b ok hs =>
    exact .of_newName (by simpa using h.numbered) rfl
  | complete ok hs => exact .of_newName (by simpa using h.numbered) rfl
  | duration time d ok hs =>
    exact .of_newName (by simpa [State.goto] using h.numbered) rfl
  | _ => exact .of_newName h.numbered rfl

theorem Inv.next {s t : State} {a : Label} (h : Inv s) (hok : DurationFirst s a)
    (hs : step s a = some t) : Inv t := by
  cases a with
  | enable =>
    simp only [step] at hs
    split at hs
    · cases hs
    · cases hs
      exact ⟨enable_metricNameToId s ▸ h.numbered, fun name hname => by
        rw [enable_pc] at hname; rw [enable_metricNameToId]; exact h.takeBack name hname⟩
  | disable =>
    simp only [step] at hs
    split at hs
    · cases hs
    · rename_i hlock
      cases hs
      refine .of_newName ?_ (Pc.newName_of_batch (Pc.batch_of_unlocked hlock))
      rcases disable_metricNameToId s with hm | hm
      · rw [hm]; exact h.numbered
      · rw [hm]; exact numbered_empty
  | exit => cases hs; exact ⟨h.numbered, h.takeBack⟩
  | thread a => exact h.effect hok (threadStep_effect hs)

theorem Inv.distinct {s : State} (h : Inv s) : Distinct s := by
  refine ⟨h.numbered.injective, fun name hname => ?_⟩
  have hsize : s.metricNameToId.size ≠ 0 := fun hz => by
    rw [Table.eq_empty_of_size hz, AList.lookup_empty] at hname; cases hname
  exact h.numbered.injective name durationName durationId hname (h.numbered.duration hsize)

/-- A new name that comes before the duration name, or after all ids are gone,
gets the duration metric's id. -/
theorem Inv.durationFirst {s t : State} {a : Label} (h : Inv s) (hs : step s a = some t)
    (ht : Distinct t) : DurationFirst s a := by
  cases a with
  | thread a =>
    cases a with
    | go =>
      intro poll time b e todo hpc htodo hnew hname
      have hstep : t.metricNameToId =
          s.metricNameToId.insert e.name (nextMetricId s.metricNameToId) := by
        simp only [step, hpc, threadStep, recordNext, htodo,
          AList.lookup_eq_none.mpr hnew] at hs
        cases hs; rfl
      have hother : nextMetricId s.metricNameToId ≠ durationId := fun hid => by
        refine hname (ht.duration e.name ?_)
        rw [hstep, AList.lookup_insert, hid]
      have hne : s.metricNameToId.size ≠ 0 := fun hz => hother (by rw [nextMetricId, hz]; rfl)
      refine ⟨Table.mem_of_lookup (h.numbered.duration hne), ?_⟩
      refine Nat.lt_of_le_of_ne h.numbered.size_le fun hfull => hother ?_
      rw [nextMetricId, hfull]; rfl
    | _ => trivial
  | _ => trivial

theorem init_inv : Inv init :=
  ⟨numbered_empty, fun name hname => by cases hname⟩

/-- **Metric ids are injective**, in every state of a run, if and only if every
new name of a reader finds the duration name in the map and an id left. -/
theorem distinct_iff_durationFirst (labels : List Label) :
    Along step Distinct init labels ↔ Steps step DurationFirst init labels :=
  along_iff_steps (fun _ _ _ h hok hs => h.next hok hs) (fun _ h => h.distinct)
    (fun _ _ _ h _ hs ht => h.durationFirst hs ht) init_inv

/-- The number of cores, as `CPUDataReader::read` reports it. -/
def ncoresEntry : MetricListenerEntry :=
  ⟨"cpu.ncores", .constant, .none, ⟨.long, "", 8⟩⟩

/-- `enable` comes between the look at the flag and the locked section: the
reader's first metric takes the id 1. -/
theorem enabled_midway_takes_duration_id :
    ¬ Along step Distinct init
      [.thread .go, .thread .go, .enable, .thread .go,
        .thread (.recordEntries [ncoresEntry] 0), .thread .go] := by
  refine not_along_of_run (List.prefix_refl _) rfl fun h => ?_
  exact absurd (h.duration "cpu.ncores" (by decide)) (by decide)

end Opsian.Metrics.Ids
