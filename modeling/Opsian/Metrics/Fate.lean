import Opsian.Lib.History
import Opsian.Metrics.Loop

/-! # What becomes of an entry

An entry that the readers hand over gets a sample in its batch. If its name could not be
announced there is none: a constant is kept for the next batch, anything else is dropped. A batch
that finds no room in the queue is dropped with all its samples, those of constants too. -/
namespace Opsian.Metrics.Fate
open Opsian.Lib Opsian.Lib.Runs Opsian.Lib.History Opsian.Metrics.Listener Opsian.Metrics.Loop

/-! ## The ledger -/

/-- The entries that were handed over, those whose batch found room, those whose batch found none,
those that got no name, and those with a sample in the batch that is worked on. -/
structure Ledger where
  handed : List MetricListenerEntry
  queued : List MetricListenerEntry
  dropped : List MetricListenerEntry
  unnamed : List MetricListenerEntry
  current : List MetricListenerEntry
  durations : List MetricSample
  deriving DecidableEq, Repr

def Ledger.empty : Ledger := ⟨[], [], [], [], [], []⟩

def Ledger.finish (h : Ledger) (e : MetricListenerEntry) (id : UInt32) : Ledger :=
  { h with
    unnamed := h.unnamed ++ if id = 0 ∧ e.variability ≠ .constant then [e] else []
    current := h.current ++ if id = 0 then [] else [e] }

def Ledger.push (h : Ledger) (ok : Bool) : Ledger :=
  { h with
    queued := h.queued ++ if ok then h.current else []
    dropped := h.dropped ++ if ok then [] else h.current
    current := [] }

def Ledger.duration (h : Ledger) (ok : Bool) (durationInMs : Int64) : Ledger :=
  { h with durations := h.durations ++ if ok then durationSamples durationInMs else [] }

def record (h : Ledger) (ids : Table String UInt32) : Pc → Action → Ledger
  | .reading _, .recordEntries entries _ => { h with handed := h.handed ++ entries }
  | .recording _ _ b, .go =>
    b.todo.head?.elim h fun e => (ids.lookup e.name).elim h fun id => h.finish e id
  | .pushInformation _ _ _ e id, .pushed ok => h.finish e (if ok then id else 0)
  | .pushSamples .., .pushed ok => h.push ok
  | .sendDuration _ d, .pushed ok => h.duration ok d
  | _, _ => h

def note (h : Ledger) (s : State) (a : Label) (_ : State) : Ledger :=
  match a with
  | .thread a => record h s.metricNameToId s.pc a
  | .enable | .disable | .exit => h

/-- The batch that is worked on; between two batches, what the next one begins with. -/
def working (s : State) : Batch := s.pc.batch.getD ⟨[], [], s.retryEntries⟩

/-- The entry whose name is being announced. -/
def inHand : Pc → List MetricListenerEntry
  | .pushInformation _ _ _ e _ => [e]
  | _ => []

def pending (s : State) : List MetricListenerEntry :=
  inHand s.pc ++ ((working s).todo ++ (working s).failed)

def samplesOf : Record → List MetricSample
  | .metricSamples _ samples => samples
  | _ => []

def queuedData (records : List Record) : List MetricData :=
  (records.flatMap samplesOf).map MetricSample.data

/-- No entry is missing and none is there twice, and nothing else is in the queue. -/
structure Accounted (x : State × Ledger) : Prop where
  conserved : ∀ e, x.2.handed.count e =
    x.2.queued.count e + x.2.dropped.count e + x.2.unnamed.count e + x.2.current.count e +
      (pending x.1).count e
  sent : ∀ d, (queuedData x.1.queue).count d =
    (x.2.queued.map MetricListenerEntry.data).count d +
      (x.2.durations.map MetricSample.data).count d
  unnamed : ∀ e ∈ x.2.unnamed, e.variability ≠ .constant
  retried : ∀ e ∈ (working x.1).failed, e.variability = .constant

/-! ## Runs -/

structure Inv (s : State) (h : Ledger) : Prop where
  accounted : Accounted (s, h)
  current : (working s).samples.map MetricSample.data = h.current.map MetricListenerEntry.data

variable {s t : State} {h : Ledger} {a : Action} {b : Batch} {e : MetricListenerEntry} {id : UInt32}

theorem init_inv : Inv init .empty := by
  refine ⟨⟨fun _ => rfl, fun _ => rfl, ?_, ?_⟩, rfl⟩
  · intro e he
    cases he
  · intro e he
    cases he

theorem working_of_none (h : s.pc.batch = none) : working s = ⟨[], [], s.retryEntries⟩ := by
  rw [working, h]
  rfl

theorem working_of_some (h : s.pc.batch = some b) : working s = b := by
  rw [working, h]
  rfl

theorem inHand_of_none {pc : Pc} (h : pc.batch = none) : inHand pc = [] := by
  cases pc with
  | pushInformation => cases h
  | _ => rfl

theorem pending_of_none (h : s.pc.batch = none) : pending s = s.retryEntries := by
  rw [pending, working_of_none h, inHand_of_none h]
  rfl

theorem queuedData_concat (records : List Record) (r : Record) :
    queuedData (records ++ [r]) =
      queuedData records ++ (samplesOf r).map MetricSample.data := by
  rw [queuedData, List.flatMap_append, List.map_append, List.flatMap_singleton]
  rfl

theorem queuedData_quiet (records : List Record) {r : Record} (hr : samplesOf r = []) :
    queuedData (records ++ [r]) = queuedData records := by
  rw [queuedData_concat, hr]
  exact List.append_nil _

/-- The ledger stays true of a state that works on the same and has the same samples queued. -/
theorem Inv.of_same (hi : Inv s h) (hqueue : queuedData t.queue = queuedData s.queue)
    (hworking : working t = working s) (hhand : inHand t.pc = inHand s.pc) : Inv t h := by
  obtain ⟨⟨hconserved, hsent, hunnamed, hretried⟩, hcurrent⟩ := hi
  refine ⟨⟨fun e => ?_, fun d => ?_, hunnamed, ?_⟩, ?_⟩
  · show _ = _ + (pending t).count e
    rw [pending, hworking, hhand]
    exact hconserved e
  · show (queuedData t.queue).count d = _
    rw [hqueue]
    exact hsent d
  · show ∀ e ∈ (working t).failed, _
    rw [hworking]
    exact hretried
  · rw [hworking]
    exact hcurrent

/-- Outside the batches the thread only moves along. -/
theorem Inv.move (hi : Inv s h) (hs : s.pc.batch = none) (ht : t.pc.batch = none)
    (hqueue : queuedData t.queue = queuedData s.queue) (hretry : t.retryEntries = s.retryEntries) :
    Inv t h := by
  refine hi.of_same hqueue ?_ ?_
  · rw [working_of_none hs, working_of_none ht, hretry]
  · rw [inHand_of_none hs, inHand_of_none ht]

/-! ## A batch -/

/-- An entry that is done has a sample, or is kept, or is dropped. -/
theorem finish_count (h : Ledger) (b : Batch) (e : MetricListenerEntry)
    (todo : List MetricListenerEntry) (id : UInt32) (x : MetricListenerEntry) :
    (h.finish e id).unnamed.count x + (h.finish e id).current.count x +
        (b.finish e todo id).failed.count x =
      h.unnamed.count x + h.current.count x + b.failed.count x + [e].count x := by
  unfold Ledger.finish Batch.finish
  by_cases hid : id = 0
  · by_cases hconstant : e.variability = .constant
    · have hkeep : ¬ (id = 0 ∧ e.variability ≠ .constant) := fun hdrop => hdrop.2 hconstant
      simp only [if_pos hid, if_neg hkeep, if_pos hconstant, List.append_nil, List.count_append]
      omega
    · simp only [if_pos hid, if_pos (And.intro hid hconstant), if_neg hconstant, List.append_nil,
        List.count_append]
      omega
  · have hnamed : ¬ (id = 0 ∧ e.variability ≠ .constant) := fun hdrop => hid hdrop.1
    simp only [if_neg hid, if_neg hnamed, List.append_nil, List.count_append]
    omega

theorem finish_todo (b : Batch) (e : MetricListenerEntry) (todo : List MetricListenerEntry)
    (id : UInt32) : (b.finish e todo id).todo = todo := by
  unfold Batch.finish
  split_ifs <;> rfl

theorem finish_samples (h : Ledger) (b : Batch) (e : MetricListenerEntry)
    (todo : List MetricListenerEntry) (id : UInt32)
    (hb : b.samples.map MetricSample.data = h.current.map MetricListenerEntry.data) :
    (b.finish e todo id).samples.map MetricSample.data =
      (h.finish e id).current.map MetricListenerEntry.data := by
  unfold Ledger.finish Batch.finish
  by_cases hid : id = 0
  · simp only [if_pos hid, List.append_nil]
    exact hb
  · simp only [if_neg hid, List.map_append, hb, List.map_singleton]

/-- Only what is not a constant is dropped for want of a name, and only a constant is kept. -/
theorem finish_sorted (h : Ledger) (b : Batch) (e : MetricListenerEntry)
    (todo : List MetricListenerEntry) (id : UInt32)
    (hunnamed : ∀ x ∈ h.unnamed, x.variability ≠ .constant)
    (hkept : ∀ x ∈ b.failed, x.variability = .constant) :
    (∀ x ∈ (h.finish e id).unnamed, x.variability ≠ .constant) ∧
      ∀ x ∈ (b.finish e todo id).failed, x.variability = .constant := by
  unfold Ledger.finish Batch.finish
  constructor
  · intro x hx
    rcases List.mem_append.mp hx with hx | hx
    · exact hunnamed x hx
    · split_ifs at hx with hdrop
      · rw [List.mem_singleton.mp hx]
        exact hdrop.2
      · cases hx
  · intro x hx
    split_ifs at hx with hid hconstant
    · rcases List.mem_append.mp hx with hx | hx
      · exact hkept x hx
      · rwa [List.mem_singleton.mp hx]
    · exact hkept x hx
    · exact hkept x hx

/-- The entry `e` was the next of the batch, or in hand. -/
theorem Inv.finish (hi : Inv s h) {todo : List MetricListenerEntry}
    (hs : s.pc.batch = some b)
    (hpending : ∀ x, (pending s).count x = [e].count x + todo.count x + b.failed.count x)
    (ht : t.pc.batch = some (b.finish e todo id)) (hhand : inHand t.pc = [])
    (hqueue : queuedData t.queue = queuedData s.queue) : Inv t (h.finish e id) := by
  have hworking := working_of_some hs
  have hworking' := working_of_some ht
  obtain ⟨hunnamed, hretried⟩ := finish_sorted h b e todo id hi.accounted.unnamed
    (fun x hx => hi.accounted.retried x (by rwa [hworking]))
  refine ⟨⟨fun x => ?_, fun d => ?_, hunnamed, ?_⟩, ?_⟩
  · have hbefore := hi.accounted.conserved x
    have hdone := finish_count h b e todo id x
    rw [hpending] at hbefore
    show h.handed.count x = h.queued.count x + h.dropped.count x +
      (h.finish e id).unnamed.count x + (h.finish e id).current.count x + (pending t).count x
    rw [pending, hhand, hworking', finish_todo, List.nil_append, List.count_append]
    simp only at hbefore
    omega
  · show (queuedData t.queue).count d = _
    rw [hqueue]
    exact hi.accounted.sent d
  · show ∀ x ∈ (working t).failed, _
    rwa [hworking']
  · rw [hworking']
    exact finish_samples h b e todo id (hworking ▸ hi.current)

/-- The samples of the batch are queued, or dropped. -/
theorem Inv.push (hi : Inv s h) {poll : Bool} {time : Int}
    (hpc : s.pc = .pushSamples poll time b) (htodo : b.todo = []) (ok : Bool) :
    Inv { s.push ok (.metricSamples time b.samples) with
      retryEntries := b.failed
      pc := .reading poll } (h.push ok) := by
  have hworking : working s = b := working_of_some (by rw [hpc]; rfl)
  have hpending : pending s = b.failed := by
    rw [pending, hworking, hpc, htodo]
    rfl
  have hdata : b.samples.map MetricSample.data = h.current.map MetricListenerEntry.data :=
    hworking ▸ hi.current
  refine ⟨⟨fun x => ?_, fun d => ?_, hi.accounted.unnamed, ?_⟩, rfl⟩
  · have hbefore := hi.accounted.conserved x
    rw [hpending] at hbefore
    simp only at hbefore
    cases ok with
    | false =>
      show h.handed.count x = (h.queued ++ []).count x + (h.dropped ++ h.current).count x +
        h.unnamed.count x + 0 + b.failed.count x
      rw [List.append_nil, List.count_append]
      omega
    | true =>
      show h.handed.count x = (h.queued ++ h.current).count x + (h.dropped ++ []).count x +
        h.unnamed.count x + 0 + b.failed.count x
      rw [List.append_nil, List.count_append]
      omega
  · have hbefore := hi.accounted.sent d
    simp only at hbefore
    cases ok with
    | false =>
      show (queuedData s.queue).count d = ((h.queued ++ []).map _).count d + _
      rw [List.append_nil]
      exact hbefore
    | true =>
      show (queuedData (s.queue ++ [_])).count d =
        ((h.queued ++ h.current).map _).count d + (h.durations.map _).count d
      rw [queuedData_concat, List.map_append, List.count_append, List.count_append]
      show _ + (b.samples.map _).count d = _
      rw [hdata, hbefore]
      omega
  · intro x hx
    exact hi.accounted.retried x (by rw [hworking]; exact hx)

/-! ## The steps -/

theorem Inv.begin (hi : Inv s h) {poll : Bool} (hpc : s.pc = .reading poll)
    (entries : List MetricListenerEntry) (time : Int) :
    Inv (s.goto (.recording poll time ⟨entries ++ s.retryEntries, [], []⟩))
      { h with handed := h.handed ++ entries } := by
  have hworking : working s = ⟨[], [], s.retryEntries⟩ := working_of_none (by rw [hpc]; rfl)
  have hpending : pending s = s.retryEntries := pending_of_none (by rw [hpc]; rfl)
  refine ⟨⟨fun x => ?_, hi.accounted.sent, hi.accounted.unnamed, ?_⟩, ?_⟩
  · have hbefore := hi.accounted.conserved x
    rw [hpending] at hbefore
    show (h.handed ++ entries).count x = h.queued.count x + h.dropped.count x +
      h.unnamed.count x + h.current.count x + (entries ++ s.retryEntries ++ []).count x
    rw [List.append_nil, List.count_append, List.count_append]
    simp only at hbefore
    omega
  · intro x hx
    cases hx
  · have hcurrent := hi.current
    rw [hworking] at hcurrent
    exact hcurrent

/-- The next entry of the batch is taken in hand. -/
theorem Inv.take (hi : Inv s h) {todo : List MetricListenerEntry} (hs : s.pc.batch = some b)
    (hpending : pending s = e :: (todo ++ b.failed))
    (ht : t.pc.batch = some { b with todo := todo }) (hhand : inHand t.pc = [e])
    (hqueue : t.queue = s.queue) : Inv t h := by
  have hworking := working_of_some hs
  have hworking' := working_of_some ht
  refine ⟨⟨fun x => ?_, fun d => ?_, hi.accounted.unnamed, fun x hx => ?_⟩, ?_⟩
  · have hbefore := hi.accounted.conserved x
    rw [hpending] at hbefore
    show _ = _ + (pending t).count x
    rw [pending, hhand, hworking']
    exact hbefore
  · show (queuedData t.queue).count d = _
    rw [hqueue]
    exact hi.accounted.sent d
  · refine hi.accounted.retried x ?_
    show x ∈ (working s).failed
    rw [hworking]
    exact (hworking' ▸ hx : x ∈ Batch.failed { b with todo := todo })
  · rw [hworking']
    exact hworking ▸ hi.current

theorem Inv.recordNext (hi : Inv s h) {poll : Bool} {time : Int}
    (hpc : s.pc = .recording poll time b) :
    Inv (recordNext s poll time b) (record h s.metricNameToId (.recording poll time b) .go) := by
  have hbatch : s.pc.batch = some b := by
    rw [hpc]
    rfl
  have hpending : pending s = b.todo ++ b.failed := by
    rw [pending, working_of_some hbatch, hpc]
    rfl
  cases htodo : b.todo with
  | nil =>
    have hr : record h s.metricNameToId (.recording poll time b) .go = h := by
      simp [record, htodo]
    rw [recordNext_nil htodo, hr]
    refine hi.of_same rfl (working_of_some hbatch).symm ?_
    rw [hpc]
    rfl
  | cons e todo =>
    have hr : record h s.metricNameToId (.recording poll time b) .go =
        (s.metricNameToId.lookup e.name).elim h fun id => h.finish e id := by
      simp [record, htodo]
    cases hid : s.metricNameToId.lookup e.name with
    | some id =>
      rw [recordNext_known htodo hid, hr, hid]
      refine hi.finish hbatch (fun x => ?_) rfl rfl rfl
      rw [hpending, htodo, ← List.singleton_append, List.count_append, List.count_append]
    | none =>
      rw [recordNext_new htodo hid, hr, hid]
      exact hi.take hbatch (by rw [hpending, htodo]; rfl) rfl rfl rfl

theorem Inv.finishNew (hi : Inv s h) {poll : Bool} {time : Int}
    (hpc : s.pc = .pushInformation poll time b e id) (ok : Bool) :
    Inv (finishNew s poll time b e id ok) (h.finish e (if ok then id else 0)) := by
  have hbatch : s.pc.batch = some b := by
    rw [hpc]
    rfl
  have hpending : ∀ x, (pending s).count x = [e].count x + b.todo.count x + b.failed.count x := by
    intro x
    rw [pending, working_of_some hbatch, hpc, inHand, List.count_append, List.count_append,
      Nat.add_assoc]
  cases ok with
  | false => exact hi.finish hbatch hpending rfl rfl rfl
  | true => exact hi.finish hbatch hpending rfl rfl (queuedData_quiet _ rfl)

theorem Inv.sendDuration (hi : Inv s h) {time : Int} {d : Int64}
    (hpc : s.pc = .sendDuration time d) (ok : Bool) :
    Inv ((s.push ok (.metricSamples time (durationSamples d))).goto .top) (h.duration ok d) := by
  have hs : s.pc.batch = none := by
    rw [hpc]
    rfl
  have ht : (((s.push ok (.metricSamples time (durationSamples d))).goto .top)).pc.batch = none :=
    rfl
  have hretry : ((s.push ok (.metricSamples time (durationSamples d))).goto .top).retryEntries =
      s.retryEntries := push_retryEntries ..
  have hworking := (working_of_none ht).trans ((congrArg _ hretry).trans (working_of_none hs).symm)
  refine ⟨⟨fun x => ?_, fun x => ?_, hi.accounted.unnamed, ?_⟩, ?_⟩
  · show _ = _ + (pending _).count x
    rw [pending_of_none ht, hretry, ← pending_of_none hs]
    exact hi.accounted.conserved x
  · have hbefore := hi.accounted.sent x
    cases ok with
    | false =>
      show _ = _ + ((h.durations ++ []).map _).count x
      rw [List.append_nil]
      exact hbefore
    | true =>
      show (queuedData (s.queue ++ [_])).count x =
        _ + ((h.durations ++ durationSamples d).map _).count x
      rw [queuedData_concat, List.map_append, List.count_append, List.count_append, hbefore,
        Nat.add_assoc]
      rfl
  · show ∀ x ∈ (working _).failed, _
    rw [hworking]
    exact hi.accounted.retried
  · rw [hworking]
    exact hi.current

theorem Inv.thread (hi : Inv s h) (hended : Ended s) (hs : threadStep s s.pc a = some t) :
    Inv t (record h s.metricNameToId s.pc a) := by
  generalize hpc : s.pc = pc at hs ⊢
  unfold threadStep at hs
  split at hs
  case h_7 poll entries time =>
    split at hs
    · cases hs
      exact hi.begin hpc entries time
    · cases hs
  all_goals cases hs
  case h_4 ok =>
    cases ok with
    | false => exact hi
    | true => exact hi.move (by rw [hpc]; rfl) rfl (queuedData_quiet _ rfl) rfl
  case h_8 poll emitted =>
    have hs : s.pc.batch = none := by
      rw [hpc]
      rfl
    cases poll with
    | true => exact hi.move hs rfl rfl rfl
    | false =>
      obtain ⟨pc, ht, hbatch⟩ := endSection_goto s emitted
      show Inv (endSection s emitted) h
      rw [ht]
      exact hi.move hs hbatch rfl rfl
  case h_9 poll time b => exact hi.recordNext hpc
  case h_10 poll time b e id ok => exact hi.finishNew hpc ok
  case h_11 poll time b ok => exact hi.push hpc (hended.tried poll time b hpc) ok
  case h_12 ok =>
    refine hi.move (by rw [hpc]; rfl) rfl ?_ (push_retryEntries ..)
    cases ok with
    | false => rfl
    | true => exact queuedData_quiet _ rfl
  case h_20 time d ok => exact hi.sendDuration hpc ok
  all_goals refine hi.move (by rw [hpc]; rfl) ?_ rfl rfl
  all_goals first
    | rfl
    | (show Pc.batch (if _ then _ else _) = none; split <;> rfl)

theorem Inv.next {a : Label} (hi : Inv s h) (hended : Ended s) (hs : step s a = some t) :
    Inv t (note h s a t) := by
  cases a with
  | enable =>
    obtain ⟨-, hs⟩ := Option.ite_none_left_eq_some.mp hs
    cases hs
    refine hi.of_same (by rw [enable_queue]) ?_ (by rw [enable_pc])
    rw [working, working, enable_pc, enable_retryEntries]
  | disable =>
    obtain ⟨-, hs⟩ := Option.ite_none_left_eq_some.mp hs
    cases hs
    exact hi.of_same rfl rfl rfl
  | exit =>
    cases hs
    exact hi.of_same rfl rfl rfl
  | thread a => exact hi.thread hended hs

theorem ended_next {a : Label} (hended : Ended s) (hs : step s a = some t) : Ended t := by
  cases a with
  | enable =>
    obtain ⟨-, hs⟩ := Option.ite_none_left_eq_some.mp hs
    cases hs
    refine ⟨fun poll time b hpc => ?_, fun hpc => ?_⟩
    · exact hended.tried poll time b (enable_pc s ▸ hpc)
    · rw [enable_retryEntries]
      exact hended.noRetry (enable_pc s ▸ hpc)
  | disable =>
    obtain ⟨-, hs⟩ := Option.ite_none_left_eq_some.mp hs
    cases hs
    exact ⟨hended.tried, hended.noRetry⟩
  | exit =>
    cases hs
    exact ⟨hended.tried, hended.noRetry⟩
  | thread a => exact threadStep_ended hs

/-- **Entries are accounted for**: in every run of the metrics thread beside the processor's
switches, whatever the readers hand over and whichever pushes are refused, each entry that was
handed over is queued, dropped with its batch, dropped for want of a name, or still on its way;
the queue has the data of the queued entries and of the durations and no other; and a constant is
never dropped for want of a name. -/
theorem entries_accounted (labels : List Label) :
    Along (recording step note) Accounted (init, .empty) labels := by
  have hrun : Along (recording step note) (fun x => Inv x.1 x.2 ∧ Ended x.1) (init, .empty)
      labels := by
    refine along_of_step (fun x a y hx hs => ?_) ⟨init_inv, .of_inner rfl⟩ labels
    refine next_of_step (I := fun x => Inv x.1 x.2 ∧ Ended x.1) (fun t ht => ?_) hs
    exact ⟨hx.1.next hx.2 ht, ended_next hx.2 ht⟩
  exact hrun.mono fun x hx => hx.1.accounted

end Opsian.Metrics.Fate
