import Opsian.Metrics.Loop

/-! # Samples and the records that name them

A sequence of records is named when every sample in it comes behind a
`MetricInformation` with its id. The metrics thread keeps what it appends named,
the duration samples apart: a reader's sample carries an id of the map, and an
id of the map was announced before it was used. -/
namespace Opsian.Metrics.Naming
open Opsian.Lib Opsian.Metrics.Listener Opsian.Metrics.Loop

def Announces (rs : List Record) (id : UInt32) : Prop :=
  ∃ info, .metricInformation info ∈ rs ∧ info.id = id

/-- The ids of the record's samples are announced. -/
def NamedBy (rs : List Record) (r : Record) : Prop :=
  ∀ t samples, r = .metricSamples t samples → ∀ x ∈ samples, Announces rs x.id

/-- Every record is named by the ones before it. -/
def Named (rs : List Record) : Prop :=
  ∀ before r after, rs = before ++ r :: after → NamedBy before r

variable {rs rs' : List Record} {r : Record} {id : UInt32}

/-! ## Sequences of records -/

theorem Announces.append_right (h : Announces rs id) (rs' : List Record) :
    Announces (rs ++ rs') id := by
  obtain ⟨info, hmem, hid⟩ := h
  exact ⟨info, List.mem_append_left _ hmem, hid⟩

theorem NamedBy.of_not_samples (h : ∀ t samples, r ≠ .metricSamples t samples) :
    NamedBy rs r :=
  fun t samples he => absurd he (h t samples)

theorem named_nil : Named [] := by
  intro before r after h
  cases before <;> cases h

theorem Named.of_append (h : Named (rs ++ rs')) : Named rs := by
  intro before r after he
  refine h before r (after ++ rs') ?_
  rw [he, List.append_assoc, List.cons_append]

theorem Named.concat (h : Named rs) (hr : NamedBy rs r) : Named (rs ++ [r]) := by
  intro before q after he
  rcases List.eq_nil_or_concat after with rfl | ⟨after, x, rfl⟩
  · obtain ⟨rfl, hq⟩ := List.append_inj' he rfl
    cases hq
    exact hr
  · rw [List.concat_eq_append, ← List.cons_append, ← List.append_assoc] at he
    exact h before q after (List.append_inj' he rfl).1

theorem Announces.of_remove {rest : List Record} (hr : ∀ info, r ≠ .metricInformation info)
    (h : Announces (rs ++ r :: rest) id) : Announces (rs ++ rest) id := by
  obtain ⟨info, hmem, hid⟩ := h
  refine ⟨info, ?_, hid⟩
  rw [List.mem_append, List.mem_cons] at hmem
  rcases hmem with hmem | rfl | hmem
  · exact List.mem_append_left _ hmem
  · exact absurd rfl (hr info)
  · exact List.mem_append_right _ hmem

/-- A record that announces nothing can be left out. -/
theorem Named.of_remove {rest : List Record} (hr : ∀ info, r ≠ .metricInformation info)
    (h : Named (rs ++ r :: rest)) : Named (rs ++ rest) := by
  intro before q after he
  rcases List.append_eq_append_iff.mp he with ⟨mid, rfl, hrest⟩ | ⟨mid, hrs, hafter⟩
  · intro t samples hq x hx
    refine Announces.of_remove hr (h (rs ++ r :: mid) q after ?_ t samples hq x hx)
    rw [hrest, List.append_assoc, List.cons_append]
  · cases mid with
    | nil =>
      rw [List.append_nil] at hrs
      subst hrs
      intro t samples hq x hx
      have hann := h (rs ++ [r]) q after (by
        rw [List.append_assoc, List.singleton_append, ← List.nil_append rest, ← hafter]) t samples
          hq x hx
      exact List.append_nil rs ▸ Announces.of_remove hr hann
    | cons m mid =>
      rw [List.cons_append] at hafter
      obtain ⟨rfl, rfl⟩ := List.cons.inj hafter
      refine h before q (mid ++ r :: rest) ?_
      rw [hrs, List.append_assoc, List.cons_append]

/-! ## The map behind the samples -/

/-- A reader's name whose id has been announced: it is in the map, and the push
of its information is over. -/
structure Settled (s : State) (name : String) (id : UInt32) : Prop where
  reader : name ≠ durationName
  pushed : s.pc.newName ≠ some name
  lookup : s.metricNameToId.lookup name = some id

/-- What the thread works on: samples of settled names, and no entry under the
duration metric's name. -/
structure Sound (s : State) : Prop where
  samples : ∀ b, s.pc.batch = some b → ∀ x ∈ b.samples, ∃ name, Settled s name x.id
  entries : ∀ b, s.pc.batch = some b → ∀ e ∈ b.todo ++ b.failed, e.name ≠ durationName
  retry : ∀ e ∈ s.retryEntries, e.name ≠ durationName
  pending : ∀ poll t b e id, s.pc = .pushInformation poll t b e id →
    e.name ≠ durationName ∧ s.metricNameToId.lookup e.name = some id

theorem Sound.of_batch {s : State} (hpc : s.pc.batch = none)
    (hretry : ∀ e ∈ s.retryEntries, e.name ≠ durationName) : Sound s where
  samples := by intro b hb; rw [hpc] at hb; cases hb
  entries := by intro b hb; rw [hpc] at hb; cases hb
  retry := hretry
  pending := by intro poll t b e id hs; rw [hs] at hpc; cases hpc

theorem init_sound : Sound init :=
  .of_batch rfl fun e he => by cases he

/-- The samples of a batch whose next entry has its id, or has failed. -/
theorem mem_finish_samples {b : Batch} {e : MetricListenerEntry}
    {todo : List MetricListenerEntry} {x : MetricSample}
    (h : x ∈ (b.finish e todo id).samples) : x ∈ b.samples ∨ x.id = id := by
  unfold Batch.finish at h
  split at h
  · exact .inl h
  · rcases List.mem_append.mp h with h | h
    · exact .inl h
    · rw [List.mem_singleton.mp h]; exact .inr rfl

theorem mem_finish_entries {b : Batch} {e e' : MetricListenerEntry}
    {todo : List MetricListenerEntry}
    (h : e' ∈ (b.finish e todo id).todo ++ (b.finish e todo id).failed) :
    e' = e ∨ e' ∈ todo ++ b.failed := by
  unfold Batch.finish at h
  split at h
  · simp only at h
    split at h
    · rcases List.mem_append.mp h with h | h
      · exact .inr (List.mem_append_left _ h)
      · rcases List.mem_append.mp h with h | h
        · exact .inr (List.mem_append_right _ h)
        · exact .inl (List.mem_singleton.mp h)
    · exact .inr h
  · exact .inr h

/-- The thread away from a push of a new name. -/
theorem Sound.of_newName {s : State} {b : Batch} (hb : s.pc.batch = some b)
    (hpc : s.pc.newName = none) (hsamples : ∀ x ∈ b.samples, ∃ name, Settled s name x.id)
    (hentries : ∀ e ∈ b.todo ++ b.failed, e.name ≠ durationName)
    (hretry : ∀ e ∈ s.retryEntries, e.name ≠ durationName) : Sound s where
  samples := by
    intro b' hb'
    obtain rfl := Option.some.inj (hb.symm.trans hb')
    exact hsamples
  entries := by
    intro b' hb'
    obtain rfl := Option.some.inj (hb.symm.trans hb')
    exact hentries
  retry := hretry
  pending := by intro poll t b e id hs; rw [hs] at hpc; cases hpc

theorem settled_of_newName {s : State} {name : String} (hreader : name ≠ durationName)
    (hpc : s.pc.newName = none) (hid : s.metricNameToId.lookup name = some id) :
    Settled s name id := by
  refine ⟨hreader, fun he => ?_, hid⟩
  rw [hpc] at he; cases he

/-- A name stays settled while its entry stays and no new name is pushed. -/
theorem Settled.of_lookup {s t : State} {name : String} (h : Settled s name id)
    (hpc : t.pc.newName = none)
    (hmap : t.metricNameToId.lookup name = s.metricNameToId.lookup name) : Settled t name id :=
  settled_of_newName h.reader hpc (hmap.trans h.lookup)

/-- Neither a new name in the map unsettles it -/
theorem Settled.insert {s t : State} {name name' : String} {id' : UInt32} (h : Settled s name id)
    (hnew : name' ∉ s.metricNameToId) (hpc : t.pc.newName = some name')
    (hmap : t.metricNameToId = s.metricNameToId.insert name' id') : Settled t name id := by
  have hne : name ≠ name' := fun hn => hnew (hn ▸ Table.mem_of_lookup h.lookup)
  refine ⟨h.reader, fun hn => hne (Option.some.inj (hn.symm.trans hpc)), ?_⟩
  rw [hmap]
  exact (AList.lookup_insert_ne hne).trans h.lookup

/-- nor the one taken back, whose push has failed. -/
theorem Settled.erase {s t : State} {name name' : String} (h : Settled s name id)
    (hpushed : s.pc.newName = some name') (hpc : t.pc.newName = none)
    (hmap : t.metricNameToId = s.metricNameToId.erase name') : Settled t name id := by
  have hne : name ≠ name' := fun hn => h.pushed (hn ▸ hpushed)
  refine h.of_lookup hpc ?_
  rw [hmap]
  exact AList.lookup_erase_ne hne

/-- The samples of settled names, and the one of the entry that is done with. -/
theorem settled_finish {s : State} {b : Batch} {e : MetricListenerEntry}
    {todo : List MetricListenerEntry}
    (hsamples : ∀ x ∈ b.samples, ∃ name, Settled s name x.id) (hid : Settled s e.name id) :
    ∀ x ∈ (b.finish e todo id).samples, ∃ name, Settled s name x.id := by
  intro x hx
  rcases mem_finish_samples hx with hx | hx
  · exact hsamples x hx
  · exact ⟨e.name, hx ▸ hid⟩

/-- The samples of the batch keep their names where these stay settled. -/
theorem Sound.named {s t : State} {b : Batch} (h : Sound s) (hb : s.pc.batch = some b)
    (hset : ∀ name id, Settled s name id → Settled t name id) :
    ∀ x ∈ b.samples, ∃ name, Settled t name x.id := by
  intro x hx
  obtain ⟨name, hname⟩ := h.samples b hb x hx
  exact ⟨name, hset name x.id hname⟩

/-- The thread has done with an entry, which is taken off the batch with its id. -/
theorem Sound.finished {s t : State} {b : Batch} {e : MetricListenerEntry}
    {todo : List MetricListenerEntry} (h : Sound s) (hb : s.pc.batch = some b)
    (hreader : e.name ≠ durationName) (hid : s.metricNameToId.lookup e.name = some id)
    (hentries : ∀ e' ∈ todo ++ b.failed, e'.name ≠ durationName)
    (hpc : t.pc.batch = some (b.finish e todo id)) (hnew : t.pc.newName = none)
    (hmap : t.metricNameToId = s.metricNameToId) (hretry : t.retryEntries = s.retryEntries) :
    Sound t := by
  have hlookup (name : String) :
      t.metricNameToId.lookup name = s.metricNameToId.lookup name := by rw [hmap]
  refine .of_newName hpc hnew (settled_finish ?_ ?_) (fun e' he' => ?_) (hretry ▸ h.retry)
  · exact h.named hb fun name id hset => hset.of_lookup hnew (hlookup name)
  · exact settled_of_newName hreader hnew ((hlookup e.name).trans hid)
  · rcases mem_finish_entries he' with rfl | he'
    · exact hreader
    · exact hentries e' he'

/-- Only the place, the map and the entries to retry count. -/
theorem Sound.of_eq {s t : State} (h : Sound s) (hpc : t.pc = s.pc)
    (hmap : t.metricNameToId = s.metricNameToId) (hretry : t.retryEntries = s.retryEntries) :
    Sound t := by
  constructor
  · intro b hb x hx
    rw [hpc] at hb
    obtain ⟨name, hname⟩ := h.samples b hb x hx
    exact ⟨name, hname.reader, by rw [hpc]; exact hname.pushed, by rw [hmap]; exact hname.lookup⟩
  · rw [hpc]; exact h.entries
  · rw [hretry]; exact h.retry
  · rw [hpc, hmap]; exact h.pending

theorem Sound.effect {s t : State} {a : Action} (h : Sound s) (he : Effect s a t) : Sound t := by
  cases he with
  | move hs hpc => exact .of_batch hpc h.retry
  | insertDuration hs => exact .of_batch rfl h.retry
  | retryDuration => exact h
  | announceDuration hs => exact .of_batch rfl h.retry
  | storeFlag hs => exact .of_batch rfl h.retry
  | beginBatch poll time entries hs hentries =>
    refine .of_newName rfl rfl (fun x hx => by cases hx) (fun e he => ?_) h.retry
    rw [List.append_nil] at he
    rcases List.mem_append.mp he with he | he
    · exact hentries e he
    · exact h.retry e he
  | endBatch poll time b hs =>
    have hb : s.pc.batch = some b := by rw [hs]; rfl
    refine .of_newName rfl rfl ?_ (h.entries b hb) h.retry
    exact h.named (b := b) hb fun name id hset => hset.of_lookup rfl rfl
  | found poll time b e todo id hs htodo hid =>
    have hb : s.pc.batch = some b := by rw [hs]; rfl
    have hentries : ∀ e' ∈ e :: todo ++ b.failed, e'.name ≠ durationName := htodo ▸ h.entries b hb
    exact h.finished hb (hentries e (List.mem_cons_self ..)) hid
      (fun e' he' => hentries e' (List.mem_cons_of_mem _ he')) rfl rfl rfl rfl
  | new poll time b e todo hs htodo hnew =>
    have hb : s.pc.batch = some b := by rw [hs]; rfl
    have hentries : ∀ e' ∈ e :: todo ++ b.failed, e'.name ≠ durationName := htodo ▸ h.entries b hb
    constructor
    · intro b' hb'
      cases hb'
      exact h.named (b := b) hb fun name id hset => hset.insert hnew rfl rfl
    · intro b' hb' e' he'
      cases hb'
      exact hentries e' (List.mem_cons_of_mem _ he')
    · exact h.retry
    · intro poll' time' b' e' id' hs'
      cases hs'
      exact ⟨hentries e (List.mem_cons_self ..), AList.lookup_insert _⟩
  | announce poll time b e id hs =>
    have hb : s.pc.batch = some b := by rw [hs]; rfl
    obtain ⟨hreader, hid⟩ := h.pending poll time b e id hs
    exact h.finished hb hreader hid (h.entries b hb) rfl rfl rfl rfl
  | takeBack poll time b e id hs =>
    have hb : s.pc.batch = some b := by rw [hs]; rfl
    obtain ⟨hreader, -⟩ := h.pending poll time b e id hs
    refine .of_newName rfl rfl ?_ (fun e' he' => ?_) h.retry
    · exact h.named (b := b) hb fun name id hset => hset.erase (by rw [hs]; rfl) rfl rfl
    · rcases mem_finish_entries he' with rfl | he'
      · exact hreader
      · exact h.entries b hb e' he'
  | samples poll time b ok hs =>
    have hb : s.pc.batch = some b := by rw [hs]; rfl
    exact .of_batch rfl fun e he => h.entries b hb e (List.mem_append_right _ he)
  | complete ok hs => exact .of_batch rfl (by simpa using h.retry)
  | duration time d ok hs => exact .of_batch rfl (by simpa [State.goto] using h.retry)

theorem enable_sound {s : State} (h : Sound s) : Sound (enable s) :=
  h.of_eq (enable_pc s) (enable_metricNameToId s) (enable_retryEntries s)

theorem disable_sound {s : State} (h : Sound s) (hlock : ¬ s.pc.locked = true) :
    Sound (disable s) :=
  .of_batch (Pc.batch_of_unlocked hlock) h.retry

/-- A step settles no name but the one whose information it appends. -/
theorem settled_back {s t : State} {a : Action} {name : String} (h : Sound s) (he : Effect s a t)
    (ht : Settled t name id) : Settled s name id ∨ ∃ info,
      t.queue = s.queue ++ [.metricInformation info] ∧ info.name = name ∧ info.id = id := by
  cases he with
  | move hpc _ => exact .inl (ht.of_lookup (Pc.newName_of_batch hpc) rfl)
  | insertDuration hpc =>
    exact .inl (ht.of_lookup (Pc.newName_of_batch hpc) (Table.lookup_emplace_ne ht.reader).symm)
  | retryDuration => exact .inl ht
  | announceDuration hpc => exact .inl (ht.of_lookup (Pc.newName_of_batch hpc) rfl)
  | storeFlag hpc => exact .inl (ht.of_lookup (Pc.newName_of_batch hpc) rfl)
  | beginBatch poll time entries hpc hentries =>
    exact .inl (ht.of_lookup (Pc.newName_of_batch hpc) rfl)
  | endBatch poll time b hpc => exact .inl (ht.of_lookup (by rw [hpc]; rfl) rfl)
  | found poll time b e todo id' hpc htodo hid =>
    exact .inl (ht.of_lookup (by rw [hpc]; rfl) rfl)
  | new poll time b e todo hpc htodo hnew =>
    have hne : name ≠ e.name := fun hn => ht.pushed (by rw [hn]; rfl)
    exact .inl (ht.of_lookup (by rw [hpc]; rfl) (AList.lookup_insert_ne hne).symm)
  | announce poll time b e id' hpc =>
    obtain ⟨-, hid⟩ := h.pending poll time b e id' hpc
    by_cases hn : name = e.name
    · -- the name that this push settles
      have hlookup : s.metricNameToId.lookup name = some id := ht.lookup
      rw [hn, hid] at hlookup
      exact .inr ⟨e.information id', rfl, hn.symm, Option.some.inj hlookup⟩
    · refine .inl ⟨ht.reader, fun hp => ?_, ht.lookup⟩
      rw [hpc] at hp
      exact hn (Option.some.inj hp).symm
  | takeBack poll time b e id' hpc =>
    have hlookup : (s.metricNameToId.erase e.name).lookup name = some id := ht.lookup
    have hne : name ≠ e.name := fun hn => by rw [hn, AList.lookup_erase] at hlookup; cases hlookup
    refine .inl ⟨ht.reader, fun hp => ?_, (AList.lookup_erase_ne hne).symm.trans hlookup⟩
    rw [hpc] at hp
    exact hne (Option.some.inj hp).symm
  | samples poll time b ok hpc => exact .inl (ht.of_lookup (by rw [hpc]; rfl) (by simp))
  | complete ok hpc => exact .inl (ht.of_lookup (Pc.newName_of_batch hpc) (by simp))
  | duration time d ok hpc =>
    exact .inl (ht.of_lookup (by rw [hpc]; rfl) (by simp [State.goto]))

/-! ## What the thread appends -/

/-- The records before the queue, and the queue: named, with all settled ids announced. -/
structure Supplied (front : List Record) (s : State) : Prop where
  named : Named (front ++ s.queue)
  known : ∀ name id, Settled s name id → Announces (front ++ s.queue) id

/-- A successful push of the cycle's duration finds its id announced. -/
def DurationAnnounced (front : List Record) (s : State) (a : Action) : Prop :=
  a = .pushed true → ∀ t d, s.pc = .sendDuration t d → Announces (front ++ s.queue) durationId

variable {front : List Record} {s t : State} {a : Action}

/-- A record that is appended, if there is room. -/
theorem named_push (ok : Bool) (h : Named (front ++ s.queue))
    (hr : ok = true → NamedBy (front ++ s.queue) r) : Named (front ++ (s.push ok r).queue) := by
  cases ok with
  | false => exact h
  | true => rw [State.push, if_pos rfl, ← List.append_assoc]; exact h.concat (hr rfl)

/-- A step that leaves the queue alone and settles nothing new. -/
theorem Supplied.of_settled (h : Supplied front s) (hqueue : t.queue = s.queue)
    (hset : ∀ name id, Settled t name id → Settled s name id) : Supplied front t := by
  refine ⟨hqueue ▸ h.named, fun name id ht => ?_⟩
  rw [hqueue]
  exact h.known name id (hset name id ht)

theorem Supplied.enable (h : Supplied front s) : Supplied front (enable s) :=
  h.of_settled (enable_queue s) fun _ _ ht =>
    ⟨ht.reader, enable_pc s ▸ ht.pushed, enable_metricNameToId s ▸ ht.lookup⟩

theorem Supplied.disable (h : Supplied front s) : Supplied front (disable s) := by
  refine h.of_settled rfl fun name id ht => ⟨ht.reader, ht.pushed, ?_⟩
  have hlookup := ht.lookup
  rcases disable_metricNameToId s with hm | hm
  · rwa [hm] at hlookup
  · rw [hm, AList.lookup_empty] at hlookup; cases hlookup

/-- **The supply side.** Whatever the thread does, what it appends is named by
what was appended before, but for durations nobody announced. -/
theorem Supplied.effect (h : Supplied front s) (hs : Sound s) (hok : DurationAnnounced front s a)
    (he : Effect s a t) : Supplied front t := by
  constructor
  · cases he with
    | announceDuration _ => exact named_push true h.named fun _ => .of_not_samples nofun
    | announce _ _ _ _ _ _ => exact named_push true h.named fun _ => .of_not_samples nofun
    | complete ok _ => exact named_push ok h.named fun _ => .of_not_samples nofun
    | samples poll time b ok hpc =>
      have hb : s.pc.batch = some b := by rw [hpc]; rfl
      refine named_push ok h.named fun _ time' samples hr x hx => ?_
      cases hr
      obtain ⟨name, hname⟩ := hs.samples b hb x hx
      exact h.known name x.id hname
    | duration time d ok hpc =>
      refine named_push ok h.named fun hroom time' samples hr x hx => ?_
      cases hr
      rw [List.mem_singleton.mp hx]
      exact hok (by rw [hroom]) time d hpc
    | _ => exact h.named
  · intro name id ht
    rcases settled_back hs he ht with hback | ⟨info, hqueue, -, hid⟩
    · obtain ⟨rs, hqueue⟩ := he.queue
      rw [hqueue, ← List.append_assoc]
      exact (h.known name id hback).append_right rs
    · refine ⟨info, ?_, hid⟩
      rw [hqueue]
      exact List.mem_append_right _ (List.mem_append_right _ (List.mem_singleton_self _))

end Opsian.Metrics.Naming
