import Opsian.Lib.History
import Opsian.Metrics.Ids
import Opsian.Metrics.Naming

/-! # What a collector makes of the metrics

A sample travels under an id and its name once, in the information before it. A collector
keeps the latest name of each id. Ids are given again after metrics were switched off, so the
same id may mean one name in one batch and another in the next. -/
namespace Opsian.Metrics.Readback
open Opsian.Lib Opsian.Lib.Runs Opsian.Lib.History Opsian.Metrics.Listener Opsian.Metrics.Loop
open Opsian.Metrics.Ids (DurationFirst)
open Opsian.Metrics.Naming (Settled Sound)

/-! ## The collector's side -/

/-- The names of the ids, and the batches with their times, each sample under its name. -/
structure Reading where
  names : UInt32 → Option String
  batches : List (Int × List (Option String × MetricData))

def Reading.init : Reading := ⟨fun _ => none, []⟩

def Reading.named (r : Reading) (x : MetricSample) : Option String × MetricData :=
  (r.names x.id, x.data)

def Reading.take (r : Reading) : Record → Reading
  | .metricInformation info => { r with names := Function.update r.names info.id (some info.name) }
  | .metricSamples t samples => { r with batches := r.batches ++ [(t, samples.map r.named)] }
  | .notification .. | .constantMetricsComplete => r

def read (records : List Record) : Reading := records.foldl Reading.take .init

theorem read_concat (records : List Record) (r : Record) :
    read (records ++ [r]) = (read records).take r := by
  rw [read, List.foldl_append]
  rfl

/-! ## The agent's side -/

/-- What was handed to the listener under its name: of the batch that is worked on, and of all
batches that found room. -/
structure Recorded where
  current : List (String × MetricData)
  batches : List (Int × List (Option String × MetricData))
  announced : Bool
  deriving DecidableEq, Repr

def Recorded.empty : Recorded := ⟨[], [], false⟩

/-- An entry that has got no id is left out; a constant comes again with the next batch. -/
def Recorded.finish (h : Recorded) (e : MetricListenerEntry) (id : UInt32) : Recorded :=
  if id = 0 then h else { h with current := h.current ++ [(e.name, e.data)] }

def Recorded.push (h : Recorded) (t : Int) (samples : List (Option String × MetricData)) :
    Recorded :=
  { h with batches := h.batches ++ [(t, samples)] }

def underName (p : String × MetricData) : Option String × MetricData := (some p.1, p.2)

/-- The sample of a duration, which has a name once that has been announced. -/
def Recorded.duration (h : Recorded) (d : Int64) : Option String × MetricData :=
  (if h.announced then some durationName else none, ⟨.long, "", d⟩)

def record (h : Recorded) (ids : Table String UInt32) : Pc → Action → Recorded
  | .reading _, .recordEntries .. => { h with current := [] }
  | .recording _ _ b, .go => b.todo.head?.elim h fun e => h.finish e ((ids.lookup e.name).getD 0)
  | .pushInformation _ _ _ e id, .pushed ok => if ok then h.finish e id else h
  | .pushSamples _ t _, .pushed ok => if ok then h.push t (h.current.map underName) else h
  | .pushDuration, .pushed ok => if ok then { h with announced := true } else h
  | .sendDuration t d, .pushed ok => if ok then h.push t [h.duration d] else h
  | _, _ => h

def note (h : Recorded) (s : State) (a : Label) (_ : State) : Recorded :=
  match a with
  | .thread a => record h s.metricNameToId s.pc a
  | .enable | .disable | .exit => h

/-! ## How they agree -/

/-- The samples of the batch are named as they were recorded. -/
def Named (r : Reading) (h : Recorded) (samples : List MetricSample) : Prop :=
  samples.map r.named = h.current.map underName

structure Inv (s : State) (h : Recorded) : Prop where
  ids : Ids.Inv s
  sound : Sound s
  batches : (read s.queue).batches = h.batches
  duration : (read s.queue).names durationId = if h.announced then some durationName else none
  known : ∀ name id, Settled s name id → (read s.queue).names id = some name
  samples : ∀ b, s.pc.batch = some b → Named (read s.queue) h b.samples

variable {s t : State} {h : Recorded} {a : Action} {b : Batch} {id : UInt32} {name : String}

theorem init_inv : Inv init .empty where
  ids := Ids.init_inv
  sound := Naming.init_sound
  batches := rfl
  duration := rfl
  known := fun _ _ hs => by cases hs.lookup
  samples := fun _ hb => by cases hb

/-- An id means one name only. -/
theorem Inv.ne_of_settled (hi : Inv s h) (hs : Settled s name id) : id ≠ durationId := by
  intro he
  have hlookup := hs.lookup
  rw [he] at hlookup
  exact hs.reader (hi.ids.distinct.duration name hlookup)

/-! ## What a step leaves -/

theorem Named.finish {r : Reading} {e : MetricListenerEntry} {todo : List MetricListenerEntry}
    (hn : Named r h b.samples) (hid : id ≠ 0 → r.names id = some e.name) :
    Named r (h.finish e id) (b.finish e todo id).samples := by
  unfold Recorded.finish Batch.finish
  by_cases h0 : id = 0
  · rw [if_pos h0, if_pos h0]
    exact hn
  · rw [if_neg h0, if_neg h0]
    show (b.samples ++ [(⟨id, e.data⟩ : MetricSample)]).map r.named =
      (h.current ++ [(e.name, e.data)]).map underName
    rw [List.map_append, List.map_append, hn]
    simp [Reading.named, underName, hid h0]

/-- An announcement renames no sample with another id. -/
theorem Named.announce {r : Reading} {samples : List MetricSample} {info : MetricInformation}
    (hn : Named r h samples) (hne : ∀ x ∈ samples, x.id ≠ info.id) :
    Named (r.take (.metricInformation info)) h samples := by
  refine Eq.trans (List.map_congr_left fun x hx => ?_) hn
  simp [Reading.take, Reading.named, Function.update_of_ne (hne x hx)]

/-- The ledger of a step that appends no batch. -/
structure Keeps (h h' : Recorded) : Prop where
  batches : h'.batches = h.batches
  announced : h'.announced = h.announced

theorem keeps_finish (h : Recorded) (e : MetricListenerEntry) (id : UInt32) :
    Keeps h (h.finish e id) := by
  unfold Recorded.finish
  split
  · exact ⟨rfl, rfl⟩
  · exact ⟨rfl, rfl⟩

section step

variable {h' : Recorded}

/-- Nothing is appended. -/
theorem Inv.quiet (hi : Inv s h) (hids : Ids.Inv t) (hsound : Sound t) (he : Effect s a t)
    (hqueue : t.queue = s.queue) (hkeeps : Keeps h h')
    (hbatch : ∀ b, t.pc.batch = some b → Named (read s.queue) h' b.samples) : Inv t h' where
  ids := hids
  sound := hsound
  batches := by rw [hqueue, hkeeps.batches]; exact hi.batches
  duration := by rw [hqueue, hkeeps.announced]; exact hi.duration
  known := by
    intro name id hs
    rw [hqueue]
    rcases Naming.settled_back hi.sound he hs with hs | ⟨info, hinfo, -⟩
    · exact hi.known name id hs
    · rw [hqueue] at hinfo
      simp at hinfo
  samples := by
    intro b hb
    rw [hqueue]
    exact hbatch b hb

/-- A record other than an announcement is appended, and the thread works on no batch. -/
theorem Inv.append (hi : Inv s h) (hids : Ids.Inv t) (hsound : Sound t) (he : Effect s a t)
    {r : Record} (hqueue : t.queue = s.queue ++ [r])
    (hnames : ((read s.queue).take r).names = (read s.queue).names)
    (hbatches : ((read s.queue).take r).batches = h'.batches)
    (hannounced : h'.announced = h.announced) (hbatch : t.pc.batch = none) : Inv t h' where
  ids := hids
  sound := hsound
  batches := by rw [hqueue, read_concat]; exact hbatches
  duration := by rw [hqueue, read_concat, hnames, hannounced]; exact hi.duration
  known := by
    intro name id hs
    rw [hqueue, read_concat, hnames]
    rcases Naming.settled_back hi.sound he hs with hs | ⟨info, hinfo, hname, hid⟩
    · exact hi.known name id hs
    · rw [hqueue] at hinfo
      obtain ⟨-, hr⟩ := List.append_inj' hinfo rfl
      cases hr
      rw [← hnames, ← hid, ← hname]
      exact Function.update_self ..
  samples := by
    intro b hb
    rw [hbatch] at hb
    cases hb

/-- An announcement is appended, whose id no other name has. -/
theorem Inv.announce (hi : Inv s h) (hids : Ids.Inv t) (hsound : Sound t) (he : Effect s a t)
    {info : MetricInformation} (hqueue : t.queue = s.queue ++ [.metricInformation info])
    (hother : ∀ name id, Settled s name id → id = info.id → name = info.name)
    (hbatches : h'.batches = h.batches)
    (hduration : ((read s.queue).take (.metricInformation info)).names durationId =
      if h'.announced then some durationName else none)
    (hbatch : ∀ b, t.pc.batch = some b →
      Named ((read s.queue).take (.metricInformation info)) h' b.samples) : Inv t h' where
  ids := hids
  sound := hsound
  batches := by rw [hqueue, read_concat, hbatches]; exact hi.batches
  duration := by rw [hqueue, read_concat]; exact hduration
  known := by
    intro name id hs
    rw [hqueue, read_concat]
    show Function.update (read s.queue).names info.id (some info.name) id = some name
    rcases Naming.settled_back hi.sound he hs with hs | ⟨info', hinfo, hname, hid⟩
    · by_cases hid : id = info.id
      · rw [hid, Function.update_self, hother name id hs hid]
      · rw [Function.update_of_ne hid]
        exact hi.known name id hs
    · rw [hqueue] at hinfo
      obtain ⟨-, hr⟩ := List.append_inj' hinfo rfl
      cases hr
      rw [← hid, ← hname, Function.update_self]
  samples := by
    intro b hb
    rw [hqueue, read_concat]
    exact hbatch b hb

end step

/-! ## Steps and runs -/

/-- The samples of a batch have ids of settled names, none of them the one being pushed. -/
theorem Inv.ne_of_pending (hi : Inv s h) {poll : Bool} {time : Int} {e : MetricListenerEntry}
    (hpc : s.pc = .pushInformation poll time b e id) : ∀ x ∈ b.samples, x.id ≠ id := by
  intro x hx he
  have hb : s.pc.batch = some b := by rw [hpc]; rfl
  obtain ⟨name, hname⟩ := hi.sound.samples b hb x hx
  obtain ⟨-, hid⟩ := hi.sound.pending poll time b e id hpc
  have hsame := hi.ids.distinct.injective name e.name id (he ▸ hname.lookup) hid
  exact hname.pushed (by rw [hpc, hsame]; rfl)

theorem Inv.recordNext (hi : Inv s h) {poll : Bool} {time : Int}
    (hpc : s.pc = .recording poll time b) (hids : Ids.Inv (recordNext s poll time b))
    (hsound : Sound (recordNext s poll time b)) :
    Inv (recordNext s poll time b)
      (record h s.metricNameToId (.recording poll time b) .go) := by
  have hn : Named (read s.queue) h b.samples := hi.samples b (by rw [hpc]; rfl)
  have he := recordNext_effect hpc
  cases htodo : b.todo with
  | nil =>
    have hr : record h s.metricNameToId (.recording poll time b) .go = h := by
      simp [record, htodo]
    rw [recordNext_nil htodo] at hids hsound he ⊢
    rw [hr]
    refine hi.quiet hids hsound he rfl ⟨rfl, rfl⟩ fun b' hb' => ?_
    cases hb'
    exact hn
  | cons e todo =>
    have hr : record h s.metricNameToId (.recording poll time b) .go =
        h.finish e ((s.metricNameToId.lookup e.name).getD 0) := by
      simp [record, htodo]
    rw [hr]
    cases hid : s.metricNameToId.lookup e.name with
    | some id =>
      rw [recordNext_known htodo hid] at hids hsound he ⊢
      refine hi.quiet hids hsound he rfl (keeps_finish h e id) fun b' hb' => ?_
      cases hb'
      have hreader : e.name ≠ durationName :=
        hi.sound.entries b (by rw [hpc]; rfl) e (by rw [htodo]; simp)
      have hpushed : s.pc.newName ≠ some e.name := by
        intro hnew
        rw [hpc] at hnew
        cases hnew
      exact hn.finish fun _ => hi.known e.name id ⟨hreader, hpushed, hid⟩
    | none =>
      rw [recordNext_new htodo hid] at hids hsound he ⊢
      refine hi.quiet hids hsound he rfl (keeps_finish h e 0) fun b' hb' => ?_
      cases hb'
      exact hn

theorem Inv.finishNew (hi : Inv s h) {poll : Bool} {time : Int} {e : MetricListenerEntry}
    (hpc : s.pc = .pushInformation poll time b e id) {ok : Bool}
    (hids : Ids.Inv (finishNew s poll time b e id ok))
    (hsound : Sound (finishNew s poll time b e id ok))
    (he : Effect s (.pushed ok) (finishNew s poll time b e id ok)) :
    Inv (finishNew s poll time b e id ok)
      (record h s.metricNameToId (.pushInformation poll time b e id) (.pushed ok)) := by
  have hn : Named (read s.queue) h b.samples := hi.samples b (by rw [hpc]; rfl)
  obtain ⟨hreader, hid⟩ := hi.sound.pending poll time b e id hpc
  cases ok with
  | false =>
    refine hi.quiet hids hsound he rfl ⟨rfl, rfl⟩ fun b' hb' => ?_
    cases hb'
    exact hn
  | true =>
    have hkeeps := keeps_finish h e id
    refine @Inv.announce s _ h _ _ hi hids hsound he (e.information id) rfl
      (fun name id' hname hid' => ?_) hkeeps.batches ?_ fun b' hb' => ?_
    · obtain rfl : id' = id := hid'
      exact hi.ids.distinct.injective name e.name id' hname.lookup hid
    · have hne : durationId ≠ id := fun heq =>
        hreader (hi.ids.distinct.duration e.name (heq ▸ hid))
      show Function.update (read s.queue).names id (some e.name) durationId =
        if (h.finish e id).announced then some durationName else none
      rw [Function.update_of_ne hne, hkeeps.announced]
      exact hi.duration
    · cases hb'
      refine (hn.announce (hi.ne_of_pending hpc)).finish fun _ => ?_
      exact Function.update_self id (some e.name) (read s.queue).names

/-- The thread only moves along. -/
theorem Inv.move (hi : Inv s h) (hids : Ids.Inv t) (hsound : Sound t) (he : Effect s a t)
    (hqueue : t.queue = s.queue) (hbatch : t.pc.batch = none) : Inv t h := by
  refine hi.quiet hids hsound he hqueue ⟨rfl, rfl⟩ fun b hb => ?_
  rw [hbatch] at hb
  cases hb

theorem Inv.thread (hi : Inv s h) (hok : DurationFirst s (.thread a))
    (hs : threadStep s s.pc a = some t) : Inv t (record h s.metricNameToId s.pc a) := by
  have he := threadStep_effect hs
  have hids := hi.ids.effect hok he
  have hsound := hi.sound.effect he
  have hkeeps : Keeps h h := ⟨rfl, rfl⟩
  have hsamples := hi.samples
  generalize hpc : s.pc = pc at hs hsamples ⊢
  unfold threadStep at hs
  split at hs
  case h_7 poll entries time =>
    split at hs
    · cases hs
      refine hi.quiet hids hsound he rfl ⟨rfl, rfl⟩ fun b hb => ?_
      cases hb
      rfl
    · cases hs
  all_goals cases hs
  case h_4 ok =>
    cases ok with
    | false => exact hi
    | true =>
      refine hi.announce hids hsound he rfl (fun name id hname hid => ?_) rfl ?_ fun b hb => ?_
      · exact absurd hid (hi.ne_of_settled hname)
      · exact Function.update_self durationId (some durationName) (read s.queue).names
      · cases hb
  case h_9 poll time b => exact hi.recordNext hpc hids hsound
  case h_10 poll time b e id ok => exact hi.finishNew hpc hids hsound he
  case h_11 poll time b ok =>
    cases ok with
    | false => exact hi.quiet hids hsound he rfl hkeeps nofun
    | true =>
      refine hi.append hids hsound he rfl rfl ?_ rfl rfl
      have hn : b.samples.map (read s.queue).named = h.current.map underName := hsamples b rfl
      show (read s.queue).batches ++ [(time, b.samples.map (read s.queue).named)] = _
      rw [hi.batches, hn]
      rfl
  case h_12 ok =>
    cases ok with
    | false => exact hi.quiet hids hsound he rfl hkeeps nofun
    | true => exact hi.append hids hsound he rfl rfl hi.batches rfl rfl
  case h_20 time d ok =>
    cases ok with
    | false => exact hi.quiet hids hsound he rfl hkeeps nofun
    | true =>
      refine hi.append hids hsound he rfl rfl ?_ rfl rfl
      show (read s.queue).batches ++ [(time, [((read s.queue).names durationId, _)])] = _
      rw [hi.batches, hi.duration]
      rfl
  case h_8 poll emitted =>
    cases poll with
    | true => exact hi.move hids hsound he rfl rfl
    | false =>
      obtain ⟨pc, ht, hbatch⟩ := endSection_goto s emitted
      refine hi.move hids hsound he ?_ ?_
      · show (endSection s emitted).queue = s.queue
        rw [ht]
        rfl
      · show (endSection s emitted).pc.batch = none
        rw [ht]
        exact hbatch
  all_goals refine hi.move hids hsound he rfl ?_
  all_goals first
    | rfl
    | (show Pc.batch (if _ then _ else _) = none; split <;> rfl)

/-- What the processor does to the switches appends nothing. -/
theorem Inv.of_settled (hi : Inv s h) (hids : Ids.Inv t) (hsound : Sound t)
    (hqueue : t.queue = s.queue) (hpc : t.pc = s.pc)
    (hback : ∀ name id, Settled t name id → Settled s name id) : Inv t h where
  ids := hids
  sound := hsound
  batches := by rw [hqueue]; exact hi.batches
  duration := by rw [hqueue]; exact hi.duration
  known := by
    intro name id hs
    rw [hqueue]
    exact hi.known name id (hback name id hs)
  samples := by
    intro b hb
    rw [hpc] at hb
    rw [hqueue]
    exact hi.samples b hb

theorem Inv.next {a : Label} (hi : Inv s h) (hok : DurationFirst s a) (hs : step s a = some t) :
    Inv t (note h s a t) := by
  have hids := hi.ids.next hok hs
  cases a with
  | enable =>
    obtain ⟨-, hs⟩ := Option.ite_none_left_eq_some.mp hs
    cases hs
    refine hi.of_settled hids (Naming.enable_sound hi.sound) (enable_queue s) (enable_pc s)
      fun name id ht => ?_
    exact ⟨ht.reader, enable_pc s ▸ ht.pushed, enable_metricNameToId s ▸ ht.lookup⟩
  | disable =>
    obtain ⟨hlock, hs⟩ := Option.ite_none_left_eq_some.mp hs
    cases hs
    refine hi.of_settled hids (Naming.disable_sound hi.sound hlock) rfl rfl fun name id ht => ?_
    refine ⟨ht.reader, ht.pushed, ?_⟩
    have hlookup := ht.lookup
    rcases disable_metricNameToId s with hm | hm
    · rwa [hm] at hlookup
    · rw [hm, AList.lookup_empty] at hlookup
      cases hlookup
  | exit =>
    cases hs
    exact hi.of_settled hids (hi.sound.of_eq rfl rfl rfl) rfl rfl fun name id ht =>
      ⟨ht.reader, ht.pushed, ht.lookup⟩
  | thread a => exact hi.thread hok hs

/-- A collector that keeps the latest name of each id reads the batches as they were recorded. -/
def ReadsBack (x : State × Recorded) : Prop := (read x.1.queue).batches = x.2.batches

instance (x : State × Recorded) : Decidable (ReadsBack x) := inferInstanceAs (Decidable (_ = _))

/-- **Ids mean the names they were given for**, in every run in which the duration name is in
the map before the readers' names: whatever is refused, and however often metrics are switched
off and ids are given again, each sample that is pushed is read under the name that it was
recorded under. -/
theorem batches_read_back (labels : List Label) (h : Steps step DurationFirst init labels) :
    Along (recording step note) ReadsBack (init, .empty) labels := by
  have hstep : ∀ x a y, Inv x.1 x.2 → DurationFirst x.1 a → recording step note x a = some y →
      Inv y.1 y.2 := by
    intro x a y hx ha hr
    obtain ⟨hy, hnote⟩ := recording_eq_some.mp hr
    rw [hnote]
    exact hx.next ha hy
  refine (along_of_invariant (I := fun x => Inv x.1 x.2) hstep init_inv (steps_fst.mpr h)).mono ?_
  intro x hx
  exact hx.batches

/-- The id 2 means the number of cores, and another metric once metrics were switched off. -/
theorem id_given_again :
    Along (recording step note) ReadsBack (init, .empty)
      [.enable, .thread .go, .thread .go, .thread .go, .thread (.pushed true), .thread .go,
        .thread .go, .thread (.recordEntries [Ids.ncoresEntry] 0), .thread .go,
        .thread (.pushed true), .thread .go, .thread (.pushed true), .thread (.readersDone false),
        .disable, .enable, .thread .skip, .thread .go, .thread .go, .thread .go,
        .thread (.pushed true), .thread .go, .thread .go,
        .thread (.recordEntries [⟨"cpu.system.user", .variable, .milliseconds, ⟨.long, "", 40⟩⟩] 9),
        .thread .go, .thread (.pushed true), .thread .go, .thread (.pushed true)] := by
  refine batches_read_back _ ?_
  have quiet : ∀ {s : State}, s.pc.batch = none → DurationFirst s (.thread .go) := by
    intro s hs poll t b e todo hpc
    rw [hpc] at hs
    cases hs
  have done : ∀ {s : State} {poll : Bool} {t : Int} {b : Batch}, s.pc = .recording poll t b →
      b.todo = [] → DurationFirst s (.thread .go) := by
    intro s poll t b hs htodo poll' t' b' e todo hpc htodo'
    cases hs.symm.trans hpc
    cases htodo.symm.trans htodo'
  refine .cons rfl trivial ?_
  refine .cons rfl (quiet rfl) (.cons rfl (quiet rfl) (.cons rfl (quiet rfl) ?_))
  refine .cons rfl trivial (.cons rfl (quiet rfl) (.cons rfl (quiet rfl) (.cons rfl trivial ?_)))
  refine .cons rfl (fun _ _ _ _ _ _ _ _ _ => ⟨by decide, by decide⟩) (.cons rfl trivial ?_)
  refine .cons rfl (done rfl rfl) (.cons rfl trivial (.cons rfl trivial ?_))
  refine .cons rfl trivial (.cons rfl trivial (.cons rfl trivial ?_))
  refine .cons rfl (quiet rfl) (.cons rfl (quiet rfl) (.cons rfl (quiet rfl) ?_))
  refine .cons rfl trivial (.cons rfl (quiet rfl) (.cons rfl (quiet rfl) (.cons rfl trivial ?_)))
  refine .cons rfl (fun _ _ _ _ _ _ _ _ _ => ⟨by decide, by decide⟩) (.cons rfl trivial ?_)
  exact .cons rfl (done rfl rfl) (.cons rfl trivial trivial)

end Opsian.Metrics.Readback
