import Opsian.Lib.Runs
import Opsian.Metrics.Naming

/-! # The constants before their completion

A constant metric passes two pushes: the one of its information, whose failure
puts it on the list to retry, and the one of its batch of samples, whose answer
nobody looks at. The completion record is pushed when the list is empty. -/
namespace Opsian.Metrics.Constants
open Opsian.Lib Opsian.Lib.Runs Opsian.Metrics.Listener Opsian.Metrics.Loop
open Opsian.Metrics.Naming

/-- The metrics machine, and which constants it owes. -/
structure State where
  metrics : Loop.State
  /-- The entries of the batch the thread works on, or last worked on. -/
  current : List MetricListenerEntry
  /-- The constants handed over since the latest `enable` that found metrics
  disabled, and the length of the queue at that time. -/
  owed : List MetricListenerEntry
  since : Nat
  /-- The latest step has pushed the completion. -/
  completed : Bool

def init : State := ⟨Loop.init, [], [], 0, false⟩

def constantsOf (entries : List MetricListenerEntry) : List MetricListenerEntry :=
  entries.filter fun e => e.variability = .constant

/-- What a step of the metrics machine means for its debts. -/
def account (s : State) (m : Loop.State) : Label → State
  | .enable =>
    if s.metrics.enabled then { s with metrics := m, completed := false }
    else { s with
      metrics := m
      owed := []
      since := s.metrics.queue.length
      completed := false }
  | .thread (.recordEntries entries _) =>
    { s with
      metrics := m
      current := entries ++ s.metrics.retryEntries
      owed := s.owed ++ constantsOf entries
      completed := false }
  | .thread (.pushed ok) =>
    { s with metrics := m, completed := ok && s.metrics.pc == .pushComplete }
  | _ => { s with metrics := m, completed := false }

def step (s : State) (a : Label) : Option State :=
  (Loop.step s.metrics a).map fun m => account s m a

/-- A sample of the entry stands in the queue from `since` on, behind the
information of its id. -/
def Enqueued (since : Nat) (queue : List Record) (e : MetricListenerEntry) : Prop :=
  ∃ before t samples after id, queue = before ++ .metricSamples t samples :: after ∧
    since ≤ before.length ∧ ⟨id, e.data⟩ ∈ samples ∧
    ∃ info, .metricInformation info ∈ before ∧ info.name = e.name ∧ info.id = id

/-- The completion says that no constant is missing. -/
def Sound (s : State) : Prop :=
  s.completed = true → ∀ e ∈ s.owed, Enqueued s.since s.metrics.queue e

/-- A batch of samples finds the queue full only if each constant of the batch is
to be retried anyway. -/
def Saved (s : State) : Label → Prop
  | .thread (.pushed false) => ∀ poll t b, s.metrics.pc = .pushSamples poll t b →
      ∀ e ∈ s.owed, e ∈ s.current → e ∈ b.failed
  | _ => True

/-! ## Where a constant is -/

/-- In a batch: to be tried, to be retried, being announced, or sampled. -/
def InBatch (m : Loop.State) (b : Batch) (e : MetricListenerEntry) : Prop :=
  e ∈ b.todo ∨ e ∈ b.failed ∨ (∃ poll t b' id, m.pc = .pushInformation poll t b' e id) ∨
    ∃ id, Settled m e.name id ∧ ⟨id, e.data⟩ ∈ b.samples

/-- Not yet enqueued, but not forgotten. -/
def Kept (m : Loop.State) (current : List MetricListenerEntry) (e : MetricListenerEntry) : Prop :=
  match m.pc.batch with
  | none => e ∈ m.retryEntries
  | some b => e ∈ current ∧ InBatch m b e

/-- An id of the map has its information in the queue. -/
def Announced (m : Loop.State) : Prop :=
  ∀ name id, Settled m name id → ∃ info, .metricInformation info ∈ m.queue ∧
    info.name = name ∧ info.id = id

structure Inv (s : State) : Prop where
  sound : Naming.Sound s.metrics
  announced : Announced s.metrics
  ended : Ended s.metrics
  since_le : s.since ≤ s.metrics.queue.length
  constant : ∀ e ∈ s.owed, e.variability = .constant
  owed : ∀ e ∈ s.owed, Enqueued s.since s.metrics.queue e ∨ Kept s.metrics s.current e

variable {s t : State} {m m' : Loop.State} {a : Action} {e : MetricListenerEntry}

theorem Enqueued.append {since : Nat} {queue : List Record} (h : Enqueued since queue e)
    (rs : List Record) : Enqueued since (queue ++ rs) e := by
  obtain ⟨before, time, samples, after, id, rfl, hle, hsample, hinfo⟩ := h
  exact ⟨before, time, samples, after ++ rs, id, by simp, hle, hsample, hinfo⟩

theorem Announced.effect (h : Announced m) (hs : Naming.Sound m) (he : Effect m a m') :
    Announced m' := by
  intro name id ht
  obtain ⟨rs, hqueue⟩ := he.queue
  rcases settled_back hs he ht with hback | ⟨info, hinfo, hname, hid⟩
  · obtain ⟨info, hmem, hinfo⟩ := h name id hback
    exact ⟨info, hqueue ▸ List.mem_append_left rs hmem, hinfo⟩
  · refine ⟨info, ?_, hname, hid⟩
    rw [hinfo]
    exact List.mem_append_right _ (List.mem_singleton_self _)

/-- An entry that is finished with is retried or sampled. -/
theorem inBatch_finish {b : Batch} {todo : List MetricListenerEntry} {id : UInt32}
    (hconstant : e.variability = .constant) (hset : Settled m' e.name id) :
    InBatch m' (b.finish e todo id) e := by
  unfold Batch.finish
  by_cases hid : id = 0
  · rw [if_pos hid, if_pos hconstant]
    exact .inr (.inl (List.mem_append_right _ (List.mem_singleton_self e)))
  · rw [if_neg hid]
    exact .inr (.inr (.inr ⟨id, hset, List.mem_append_right _ (List.mem_singleton_self _)⟩))

theorem inBatch_finish_zero {b : Batch} {todo : List MetricListenerEntry}
    (hconstant : e.variability = .constant) : InBatch m' (b.finish e todo 0) e := by
  rw [Batch.finish, if_pos rfl, if_pos hconstant]
  exact .inr (.inl (List.mem_append_right _ (List.mem_singleton_self e)))

/-- The other entries of the batch stay where they are. -/
theorem InBatch.finish {b : Batch} (e' : MetricListenerEntry) {todo : List MetricListenerEntry}
    (id : UInt32) (h : InBatch m' { b with todo := todo } e) :
    InBatch m' (b.finish e' todo id) e := by
  unfold Batch.finish
  by_cases hid : id = 0
  · rw [if_pos hid]
    rcases h with h | h | h
    · exact .inl h
    · refine .inr (.inl ?_)
      show e ∈ (if e'.variability = .constant then b.failed ++ [e'] else b.failed)
      split
      · exact List.mem_append_left _ h
      · exact h
    · exact .inr (.inr h)
  · rw [if_neg hid]
    rcases h with h | h | h | ⟨id', hset, hsample⟩
    · exact .inl h
    · exact .inr (.inl h)
    · exact .inr (.inr (.inl h))
    · exact .inr (.inr (.inr ⟨id', hset, List.mem_append_left _ hsample⟩))

/-- With the next entry taken off the list, the entry is this one or stays. -/
theorem InBatch.next {b : Batch} {e' : MetricListenerEntry} {todo : List MetricListenerEntry}
    (h : InBatch m b e) (htodo : b.todo = e' :: todo) :
    e = e' ∨ InBatch m { b with todo := todo } e := by
  rcases h with h | h
  · rw [htodo] at h
    rcases List.mem_cons.mp h with h | h
    · exact .inl h
    · exact .inr (.inl h)
  · exact .inr (.inr h)

/-- A step away from its announcement leaves an entry where it is. -/
theorem InBatch.of_settled {b : Batch} (h : InBatch m b e)
    (hpc : ∀ poll t b' id, m.pc ≠ .pushInformation poll t b' e id)
    (hset : ∀ id, Settled m e.name id → Settled m' e.name id) : InBatch m' b e := by
  rcases h with h | h | ⟨poll, time, b', id, h⟩ | ⟨id, hid, hsample⟩
  · exact .inl h
  · exact .inr (.inl h)
  · exact absurd h (hpc poll time b' id)
  · exact .inr (.inr (.inr ⟨id, hset id hid, hsample⟩))

/-- So does the announcement of another entry. -/
theorem InBatch.of_other {b b' : Batch} {e' : MetricListenerEntry} {poll : Bool} {time : Int}
    {id : UInt32} (h : InBatch m b e) (hpc : m.pc = .pushInformation poll time b' e' id)
    (hne : e ≠ e') (hset : ∀ id, Settled m e.name id → Settled m' e.name id) :
    InBatch m' b e := by
  refine h.of_settled ?_ hset
  intro poll' time' b'' id' hpc'
  rw [hpc] at hpc'
  cases hpc'
  exact hne rfl

/-! ## The steps of the thread -/

theorem kept_of_retry {current : List MetricListenerEntry} (hpc : m.pc.batch = none)
    (h : e ∈ m.retryEntries) : Kept m current e := by
  rwa [Kept, hpc]

theorem kept_of_batch {current : List MetricListenerEntry} {b : Batch} (hpc : m.pc.batch = some b)
    (hcurrent : e ∈ current) (h : InBatch m b e) : Kept m current e := by
  rw [Kept, hpc]
  exact ⟨hcurrent, h⟩

/-- The samples of a batch are pushed: what was sampled is in the queue now. -/
theorem enqueued_of_samples {b : Batch} {since : Nat} (hann : Announced m)
    (hsince : since ≤ m.queue.length) {id : UInt32} (hset : Settled m e.name id)
    (hsample : ⟨id, e.data⟩ ∈ b.samples) (time : Int) :
    Enqueued since (m.queue ++ [.metricSamples time b.samples]) e :=
  ⟨m.queue, time, b.samples, [], id, rfl, hsince, hsample, hann e.name id hset⟩

/-- An owed constant is carried along by every step but the hand-over of entries,
unless its batch of samples is thrown away. -/
theorem Kept.effect {current : List MetricListenerEntry} (hs : Naming.Sound m)
    (hann : Announced m) (hended : Ended m) (hconstant : e.variability = .constant)
    (h : Kept m current e) (he : Effect m a m')
    (ha : ∀ entries time, a ≠ .recordEntries entries time)
    (hsaved : a = .pushed false → ∀ poll t b, m.pc = .pushSamples poll t b →
      e ∈ current → e ∈ b.failed) {since : Nat} (hsince : since ≤ m.queue.length) :
    Enqueued since m'.queue e ∨ Kept m' current e := by
  have hnone (hpc : m.pc.batch = none) : e ∈ m.retryEntries := by rwa [Kept, hpc] at h
  have hsome {b : Batch} (hpc : m.pc.batch = some b) : e ∈ current ∧ InBatch m b e := by
    rwa [Kept, hpc] at h
  cases he with
  | move hpc hpc' => exact .inr (kept_of_retry hpc' (hnone hpc))
  | insertDuration hpc => exact .inr (kept_of_retry rfl (hnone hpc))
  | retryDuration => exact .inr h
  | announceDuration hpc => exact .inr (kept_of_retry rfl (hnone hpc))
  | storeFlag hpc => exact .inr (kept_of_retry rfl (hnone hpc))
  | beginBatch poll time entries _ _ => exact absurd rfl (ha entries time)
  | endBatch poll time b hpc =>
    obtain ⟨hcurrent, hin⟩ := hsome (b := b) (by rw [hpc]; rfl)
    refine .inr (kept_of_batch rfl hcurrent ?_)
    refine hin.of_settled ?_ fun id hset => hset.of_lookup rfl rfl
    rw [hpc]
    exact nofun
  | found poll time b e' todo id hpc htodo hid =>
    have hb : m.pc.batch = some b := by rw [hpc]; rfl
    obtain ⟨hcurrent, hin⟩ := hsome hb
    refine .inr (kept_of_batch rfl hcurrent ?_)
    rcases hin.next htodo with rfl | hin
    · refine inBatch_finish hconstant (settled_of_newName (hs.entries b hb e ?_) rfl hid)
      rw [htodo]
      exact List.mem_cons_self
    · refine InBatch.finish e' id (hin.of_settled ?_ fun id hset => hset.of_lookup rfl rfl)
      rw [hpc]
      exact nofun
  | new poll time b e' todo hpc htodo hnew =>
    obtain ⟨hcurrent, hin⟩ := hsome (b := b) (by rw [hpc]; rfl)
    refine .inr (kept_of_batch rfl hcurrent ?_)
    rcases hin.next htodo with rfl | hin
    · exact .inr (.inr (.inl ⟨poll, time, _, _, rfl⟩))
    · refine hin.of_settled ?_ fun id hset => hset.insert hnew rfl rfl
      rw [hpc]
      exact nofun
  | announce poll time b e' id hpc =>
    obtain ⟨hcurrent, hin⟩ := hsome (b := b) (by rw [hpc]; rfl)
    refine .inr (kept_of_batch rfl hcurrent ?_)
    by_cases heq : e = e'
    · obtain ⟨hreader, hid⟩ := hs.pending poll time b e' id hpc
      subst heq
      exact inBatch_finish hconstant (settled_of_newName hreader rfl hid)
    · exact InBatch.finish e' id (hin.of_other hpc heq fun id hset => hset.of_lookup rfl rfl)
  | takeBack poll time b e' id hpc =>
    obtain ⟨hcurrent, hin⟩ := hsome (b := b) (by rw [hpc]; rfl)
    refine .inr (kept_of_batch rfl hcurrent ?_)
    by_cases heq : e = e'
    · subst heq
      exact inBatch_finish_zero hconstant
    · refine InBatch.finish e' 0 (hin.of_other hpc heq fun id' hset => ?_)
      exact hset.erase (by rw [hpc]; rfl) rfl rfl
  | samples poll time b ok hpc =>
    obtain ⟨hcurrent, hin⟩ := hsome (b := b) (by rw [hpc]; rfl)
    cases ok with
    | false => exact .inr (kept_of_retry rfl (hsaved rfl poll time b hpc hcurrent))
    | true =>
      rcases hin with htodo | hfailed | ⟨poll', time', b', id, hpc'⟩ | ⟨id, hset, hsample⟩
      · rw [hended.tried poll time b hpc] at htodo
        cases htodo
      · exact .inr (kept_of_retry rfl hfailed)
      · rw [hpc] at hpc'
        cases hpc'
      · exact .inl (enqueued_of_samples hann hsince hset hsample time)
  | complete ok hpc => exact .inr (kept_of_retry rfl (by simpa using hnone hpc))
  | duration time d ok hpc =>
    have hretry := hnone (by rw [hpc]; rfl)
    exact .inr (kept_of_retry rfl (by simpa [State.goto] using hretry))

/-! ## Runs -/

theorem init_inv : Inv init where
  sound := init_sound
  announced := fun name id h => by cases h.lookup
  ended := .of_inner rfl
  since_le := Nat.le_refl 0
  constant := List.forall_mem_nil _
  owed := List.forall_mem_nil _

/-- A step of the thread that hands over no entries. -/
theorem Inv.effect (h : Inv s) (he : Effect s.metrics a m) (hended : Ended m)
    (ha : ∀ entries time, a ≠ .recordEntries entries time) (hok : Saved s (.thread a)) (c : Bool) :
    Inv { s with metrics := m, completed := c } where
  sound := h.sound.effect he
  announced := h.announced.effect h.sound he
  ended := hended
  since_le := by
    obtain ⟨rs, hqueue⟩ := he.queue
    have hle := h.since_le
    show s.since ≤ m.queue.length
    rw [hqueue, List.length_append]
    omega
  constant := h.constant
  owed := by
    intro e he'
    rcases h.owed e he' with henq | hkept
    · obtain ⟨rs, hqueue⟩ := he.queue
      exact .inl (hqueue ▸ henq.append rs)
    · refine hkept.effect h.sound h.announced h.ended (h.constant e he') he ha ?_ h.since_le
      intro hpushed poll time b hpc hcurrent
      subst hpushed
      exact hok poll time b hpc e he' hcurrent

theorem recordEntries_eq {entries : List MetricListenerEntry} {time : Int}
    (h : threadStep m m.pc (.recordEntries entries time) = some m') :
    ∃ poll, m.pc = .reading poll ∧
      m' = m.goto (.recording poll time ⟨entries ++ m.retryEntries, [], []⟩) := by
  cases hpc : m.pc with
  | reading poll =>
    rw [hpc] at h
    obtain ⟨-, rfl⟩ := Option.ite_some_none_eq_some.mp h
    exact ⟨poll, rfl, rfl⟩
  | _ =>
    rw [hpc] at h
    cases h

/-- A reader hands over its entries. -/
theorem Inv.recordEntries (h : Inv s) {entries : List MetricListenerEntry} {time : Int}
    (hs : threadStep s.metrics s.metrics.pc (.recordEntries entries time) = some m) :
    Inv { s with
      metrics := m
      current := entries ++ s.metrics.retryEntries
      owed := s.owed ++ constantsOf entries
      completed := false } := by
  have he := threadStep_effect hs
  have hsound := h.sound.effect he
  have hann := h.announced.effect h.sound he
  obtain ⟨poll, hpc, rfl⟩ := recordEntries_eq hs
  refine ⟨hsound, hann, .of_inner rfl, h.since_le, fun e he => ?_, fun e he => ?_⟩
  · rcases List.mem_append.mp he with he | he
    · exact h.constant e he
    · exact of_decide_eq_true (List.mem_filter.mp he).2
  · rcases List.mem_append.mp he with he | he
    · rcases h.owed e he with henq | hkept
      · exact .inl henq
      · rw [Kept, hpc] at hkept
        exact .inr (kept_of_batch rfl (List.mem_append_right _ hkept)
          (.inl (List.mem_append_right _ hkept)))
    · have hnew := (List.mem_filter.mp he).1
      exact .inr (kept_of_batch rfl (List.mem_append_left _ hnew)
        (.inl (List.mem_append_left _ hnew)))

/-- Only the thread's place, the map, the entries to retry and the queue count. -/
theorem Inv.of_eq (h : Inv s) (hpc : m.pc = s.metrics.pc)
    (hmap : m.metricNameToId = s.metrics.metricNameToId)
    (hretry : m.retryEntries = s.metrics.retryEntries) (hqueue : m.queue = s.metrics.queue)
    (c : Bool) : Inv { s with metrics := m, completed := c } := by
  have hset (name : String) (id : UInt32) : Settled m name id ↔ Settled s.metrics name id := by
    constructor
    · exact fun ht => ⟨ht.reader, hpc ▸ ht.pushed, hmap ▸ ht.lookup⟩
    · exact fun ht => ⟨ht.reader, by rw [hpc]; exact ht.pushed, by rw [hmap]; exact ht.lookup⟩
  refine ⟨h.sound.of_eq hpc hmap hretry, fun name id ht => ?_, ⟨?_, ?_⟩, ?_, h.constant,
    fun e he => ?_⟩
  · rw [hqueue]
    exact h.announced name id ((hset name id).mp ht)
  · rw [hpc]
    exact h.ended.tried
  · rw [hpc, hretry]
    exact h.ended.noRetry
  · rw [hqueue]
    exact h.since_le
  · have howed := h.owed e he
    unfold Kept InBatch at howed ⊢
    simp only [hset, hpc, hretry, hqueue]
    exact howed

theorem Inv.disable (h : Inv s) (hlock : ¬ s.metrics.pc.locked = true) :
    Inv { s with metrics := Loop.disable s.metrics, completed := false } := by
  have hnone : s.metrics.pc.batch = none := Pc.batch_of_unlocked hlock
  refine ⟨disable_sound h.sound hlock, fun name id ht => ?_, ⟨h.ended.tried, h.ended.noRetry⟩,
    h.since_le, h.constant, fun e he => ?_⟩
  · refine h.announced name id ⟨ht.reader, ht.pushed, ?_⟩
    have hlookup := ht.lookup
    rcases disable_metricNameToId s.metrics with hm | hm
    · rwa [hm] at hlookup
    · rw [hm, AList.lookup_empty] at hlookup
      cases hlookup
  · rcases h.owed e he with henq | hkept
    · exact .inl henq
    · rw [Kept, hnone] at hkept
      exact .inr (kept_of_retry hnone hkept)

theorem Inv.enable (h : Inv s) :
    Inv { s with
      metrics := Loop.enable s.metrics
      owed := []
      since := s.metrics.queue.length
      completed := false } := by
  have hinv := h.of_eq (enable_pc s.metrics) (enable_metricNameToId s.metrics)
    (enable_retryEntries s.metrics) (enable_queue s.metrics) false
  exact ⟨hinv.sound, hinv.announced, hinv.ended, Nat.le_of_eq (by rw [enable_queue]),
    List.forall_mem_nil _, List.forall_mem_nil _⟩

theorem Inv.next {a : Label} (h : Inv s) (hok : Saved s a) (hs : step s a = some t) : Inv t := by
  obtain ⟨m, hm, rfl⟩ := Option.map_eq_some_iff.mp hs
  cases a with
  | enable =>
    obtain ⟨-, hm⟩ := Option.ite_none_left_eq_some.mp hm
    cases hm
    rw [account]
    split
    · exact h.of_eq (enable_pc s.metrics) (enable_metricNameToId s.metrics)
        (enable_retryEntries s.metrics) (enable_queue s.metrics) false
    · exact h.enable
  | disable =>
    obtain ⟨hlock, hm⟩ := Option.ite_none_left_eq_some.mp hm
    cases hm
    exact h.disable hlock
  | exit =>
    cases hm
    exact h.of_eq (m := { s.metrics with running := false }) rfl rfl rfl rfl false
  | thread a =>
    cases a with
    | recordEntries entries time => exact h.recordEntries hm
    | _ => exact h.effect (threadStep_effect hm) (threadStep_ended hm) nofun hok _

/-- The completion is pushed with no constant left to retry. -/
theorem Inv.sound_next {a : Label} (h : Inv s) (hs : step s a = some t) : Sound t := by
  obtain ⟨m, hm, rfl⟩ := Option.map_eq_some_iff.mp hs
  intro hc e he
  match a with
  | .thread (.pushed ok) =>
    have hpc : s.metrics.pc = .pushComplete := by
      have hboth := Bool.and_eq_true_iff.mp hc
      exact eq_of_beq hboth.2
    obtain ⟨rs, hqueue⟩ := (threadStep_effect hm).queue
    rcases h.owed e he with henq | hkept
    · show Enqueued s.since m.queue e
      exact hqueue ▸ henq.append rs
    · rw [Kept, hpc] at hkept
      have hretry : e ∈ s.metrics.retryEntries := hkept
      rw [h.ended.noRetry hpc] at hretry
      cases hretry
  | .enable =>
    rw [account] at hc
    split at hc <;> cases hc
  | .disable => cases hc
  | .exit => cases hc
  | .thread .go => cases hc
  | .thread (.recordEntries _ _) => cases hc
  | .thread (.readersDone _) => cases hc
  | .thread .skip => cases hc
  | .thread .poll => cases hc
  | .thread (.send _ _) => cases hc

/-- **The completion is sound** in every state of a run, if no batch of samples with
a constant in it is thrown away. -/
theorem sound_of_saved (labels : List Label) (h : Steps step Saved init labels) :
    Along step Sound init labels :=
  Along.mono (along_of_invariant (I := fun s => Inv s ∧ Sound s)
    (fun _ _ _ hi hok hs => ⟨hi.1.next hok hs, hi.1.sound_next hs⟩) ⟨init_inv, nofun⟩ h)
    fun _ hi => hi.2

theorem saved_of_ne {a : Label} (h : a ≠ .thread (.pushed false)) (s : State) : Saved s a := by
  unfold Saved
  split
  · exact absurd rfl h
  · trivial

/-- `cpu.ncores`, as the first read of the CPU reader hands it over. -/
def nCores : MetricListenerEntry := ⟨"cpu.ncores", .constant, .none, ⟨.long, "", 8⟩⟩

/-- The first cycle of the thread with metrics on, up to the samples of the constant. -/
def firstBatch : List Label :=
  [.enable, .thread .go, .thread .go, .thread .go, .thread (.pushed true), .thread .go,
    .thread .go, .thread (.recordEntries [nCores] 0), .thread .go, .thread (.pushed true),
    .thread .go]

theorem first_completion_sound :
    Along step Sound init
      (firstBatch ++
        [.thread (.pushed true), .thread (.readersDone true), .thread (.pushed true)]) := by
  refine sound_of_saved _ (.of_labels fun a ha s => saved_of_ne ?_ s)
  have hall : ∀ a ∈ firstBatch ++
      [.thread (.pushed true), .thread (.readersDone true), .thread (.pushed true)],
      a ≠ .thread (.pushed false) := by decide
  exact hall a ha

/-- The batch with the only constant finds the queue full, and the completion is
pushed behind it. -/
theorem lost_batch_completed :
    ¬ Along step Sound init
      (firstBatch ++
        [.thread (.pushed false), .thread (.readersDone true), .thread (.pushed true)]) := by
  refine not_along_of_run (List.prefix_refl _) rfl fun h => ?_
  obtain ⟨before, time, samples, after, id, hqueue, -⟩ :=
    h rfl nCores (List.mem_singleton_self nCores)
  have hmem : .metricSamples time samples ∈ before ++ .metricSamples time samples :: after :=
    List.mem_append_right _ List.mem_cons_self
  have hrecords : before ++ .metricSamples time samples :: after =
      [.metricInformation durationInfo, .metricInformation (nCores.information 2),
        .constantMetricsComplete] := hqueue.symm
  rw [hrecords] at hmem
  simp at hmem

end Opsian.Metrics.Constants
