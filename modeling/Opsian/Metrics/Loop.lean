import Opsian.Lib.Runs
import Opsian.Metrics.Listener

/-! # The metrics thread and the processor's switches

`Metrics::run` takes `readersMutex` around its readers but not around
`sendDurationMetricId`, because a push there is retried until the processor has
made room. `enable` and `disable` run under the mutex, so each is one step that
waits for it. Answers of the environment (whether a push finds room, what the
readers read, what the clock says) are part of the label. -/
namespace Opsian.Metrics.Loop
open Opsian.Lib Opsian.Metrics.Listener

/-- Where the metrics thread stands in `run`. `poll` tells the reads of the
elimination loop from the first one of a cycle. -/
inductive Pc where
  | top
  | loadFlag
  | insertDuration
  | pushDuration
  | storeFlag
  | lock
  | reading (poll : Bool)
  | recording (poll : Bool) (timestampInMs : Int) (batch : Batch)
  /-- In `findOrCreateMetricId`, behind the insertion of a new name. -/
  | pushInformation (poll : Bool) (timestampInMs : Int) (batch : Batch)
      (entry : MetricListenerEntry) (metricId : UInt32)
  | pushSamples (poll : Bool) (timestampInMs : Int) (batch : Batch)
  | pushComplete
  /-- Behind the locked section: the clock decides what is left of the cycle. -/
  | window
  | lockPoll
  | polling
  /-- The elimination loop found metrics disabled and broke off. -/
  | leaving
  | sendDuration (timestampInMs : Int) (durationInMs : Int64)
  | exited
  deriving DecidableEq, Repr

/-- The thread holds `readersMutex`. -/
def Pc.locked : Pc → Bool
  | .reading _ | .recording .. | .pushInformation .. | .pushSamples .. | .pushComplete => true
  | _ => false

/-- The fields of `Metrics`, the listener's `retryEntries_`, `running`, the main
queue (oldest record first) and the thread's place. -/
structure State where
  mustSendDurationMetric : Bool
  enabled : Bool
  metricNameToId : Table String UInt32
  needsToSendConstantMetrics : Bool
  retryEntries : List MetricListenerEntry
  running : Bool
  queue : List Record
  pc : Pc

def init : State where
  mustSendDurationMetric := false
  enabled := false
  metricNameToId := ∅
  needsToSendConstantMetrics := false
  retryEntries := []
  running := true
  queue := []
  pc := .top

def State.goto (s : State) (pc : Pc) : State := { s with pc := pc }

/-- A push to the main queue, with the answer whether there was room. -/
def State.push (s : State) (ok : Bool) (r : Record) : State :=
  if ok then { s with queue := s.queue ++ [r] } else s

/-! ## The processor's side -/

def enable (s : State) : State :=
  if s.enabled then s
  else { s with
    mustSendDurationMetric := true
    needsToSendConstantMetrics := true
    enabled := true }

def disable (s : State) : State :=
  { s with
    metricNameToId := if s.enabled then ∅ else s.metricNameToId
    mustSendDurationMetric := false
    enabled := false }

/-! ## The metrics thread -/

/-- One step of the thread, with what it learns from outside. -/
inductive Action where
  /-- A step that depends on the state only. -/
  | go
  /-- A push returns. -/
  | pushed (ok : Bool)
  /-- A reader calls `recordEntries`. None of its names is the duration
  metric's: they start with `cpu.`, `mem.` or `ocaml.`. -/
  | recordEntries (entries : List MetricListenerEntry) (timestampInMs : Int)
  /-- The readers return; whether both have emitted their constants. -/
  | readersDone (hasEmittedConstantMetrics : Bool)
  /-- No time is left in the cycle. -/
  | skip
  | poll
  | send (timestampInMs : Int) (durationInMs : Int64)
  deriving DecidableEq, Repr

/-- One iteration of `attemptRecordEntries`, up to the push of a new name. -/
def recordNext (s : State) (poll : Bool) (timestampInMs : Int) (b : Batch) : State :=
  match b.todo with
  | [] => s.goto (.pushSamples poll timestampInMs b)
  | e :: todo =>
    match s.metricNameToId.lookup e.name with
    | some id => s.goto (.recording poll timestampInMs (b.finish e todo id))
    | none =>
      let id := nextMetricId s.metricNameToId
      { s with
        metricNameToId := s.metricNameToId.insert e.name id
        pc := .pushInformation poll timestampInMs { b with todo := todo } e id }

/-- The rest of `findOrCreateMetricId`. -/
def finishNew (s : State) (poll : Bool) (timestampInMs : Int) (b : Batch)
    (e : MetricListenerEntry) (id : UInt32) (ok : Bool) : State :=
  if ok then
    (s.push true (.metricInformation (e.information id))).goto
      (.recording poll timestampInMs (b.finish e b.todo id))
  else
    { s with
      metricNameToId := s.metricNameToId.erase e.name
      pc := .recording poll timestampInMs (b.finish e b.todo 0) }

/-- The end of the first locked section of a cycle. -/
def endSection (s : State) (hasEmittedConstantMetrics : Bool) : State :=
  if s.needsToSendConstantMetrics && hasEmittedConstantMetrics && s.retryEntries.isEmpty then
    s.goto .pushComplete
  else s.goto .window

def threadStep (s : State) : Pc → Action → Option State
  | .top, .go => some (s.goto (if s.running then .loadFlag else .exited))
  | .loadFlag, .go =>
    some (s.goto (if s.mustSendDurationMetric then .insertDuration else .lock))
  | .insertDuration, .go =>
    some { s with
      metricNameToId := s.metricNameToId.emplace durationName durationId
      pc := .pushDuration }
  | .pushDuration, .pushed ok =>
    -- retried for ever
    some (if ok then (s.push true (.metricInformation durationInfo)).goto .storeFlag else s)
  | .storeFlag, .go => some { s with mustSendDurationMetric := false, pc := .lock }
  -- the lock and the test under it, and where metrics are off the unlock
  | .lock, .go => some (s.goto (if s.enabled then .reading false else .window))
  | .reading poll, .recordEntries entries t =>
    if ∀ e ∈ entries, e.name ≠ durationName then
      some (s.goto (.recording poll t ⟨entries ++ s.retryEntries, [], []⟩))
    else none
  | .reading poll, .readersDone emitted =>
    some (if poll then s.goto .polling else endSection s emitted)
  | .recording poll t b, .go => some (recordNext s poll t b)
  | .pushInformation poll t b e id, .pushed ok => some (finishNew s poll t b e id ok)
  | .pushSamples poll t b, .pushed ok =>
    some { s.push ok (.metricSamples t b.samples) with
      retryEntries := b.failed
      pc := .reading poll }
  | .pushComplete, .pushed ok =>
    some { s.push ok .constantMetricsComplete with
      needsToSendConstantMetrics := !ok
      pc := .window }
  | .window, .skip => some (s.goto .top)
  | .window, .poll => some (s.goto .lockPoll)
  | .window, .send t d => some (s.goto (.sendDuration t d))
  | .lockPoll, .go => some (s.goto (if s.enabled then .reading true else .leaving))
  | .polling, .poll => some (s.goto .lockPoll)
  | .polling, .send t d => some (s.goto (.sendDuration t d))
  | .leaving, .send t d => some (s.goto (.sendDuration t d))
  | .sendDuration t d, .pushed ok =>
    some ((s.push ok (.metricSamples t (durationSamples d))).goto .top)
  | _, _ => none

/-! ## What a step of the thread does -/

/-- The batch the thread works on. -/
def Pc.batch : Pc → Option Batch
  | .recording _ _ b | .pushInformation _ _ b _ _ | .pushSamples _ _ b => some b
  | _ => none

/-- The name whose `MetricInformation` is being pushed. -/
def Pc.newName : Pc → Option String
  | .pushInformation _ _ _ e _ => some e.name
  | _ => none

theorem Pc.newName_of_batch {pc : Pc} (h : pc.batch = none) : pc.newName = none := by
  cases pc <;> first | rfl | cases h

theorem Pc.batch_of_unlocked {pc : Pc} (h : ¬ pc.locked = true) : pc.batch = none := by
  cases pc <;> first | rfl | exact absurd rfl h

/-- The steps of the thread by their effect. Most only move it along. -/
inductive Effect (s : State) : Action → State → Prop where
  | move {a : Action} {pc : Pc} (hs : s.pc.batch = none) (h : pc.batch = none) :
      Effect s a (s.goto pc)
  | insertDuration (hs : s.pc.batch = none) :
      Effect s .go { s with
        metricNameToId := s.metricNameToId.emplace durationName durationId
        pc := .pushDuration }
  | retryDuration : Effect s (.pushed false) s
  | announceDuration (hs : s.pc.batch = none) :
      Effect s (.pushed true) ((s.push true (.metricInformation durationInfo)).goto .storeFlag)
  | storeFlag (hs : s.pc.batch = none) :
      Effect s .go { s with mustSendDurationMetric := false, pc := .lock }
  | beginBatch (poll : Bool) (t : Int) (entries : List MetricListenerEntry)
      (hs : s.pc.batch = none) (hentries : ∀ e ∈ entries, e.name ≠ durationName) :
      Effect s (.recordEntries entries t)
        (s.goto (.recording poll t ⟨entries ++ s.retryEntries, [], []⟩))
  | endBatch (poll : Bool) (t : Int) (b : Batch) (hs : s.pc = .recording poll t b) :
      Effect s .go (s.goto (.pushSamples poll t b))
  | found (poll : Bool) (t : Int) (b : Batch) (e : MetricListenerEntry)
      (todo : List MetricListenerEntry) (id : UInt32) (hs : s.pc = .recording poll t b)
      (htodo : b.todo = e :: todo) (hid : s.metricNameToId.lookup e.name = some id) :
      Effect s .go (s.goto (.recording poll t (b.finish e todo id)))
  | new (poll : Bool) (t : Int) (b : Batch) (e : MetricListenerEntry)
      (todo : List MetricListenerEntry) (hs : s.pc = .recording poll t b)
      (htodo : b.todo = e :: todo) (hnew : e.name ∉ s.metricNameToId) :
      Effect s .go { s with
        metricNameToId := s.metricNameToId.insert e.name (nextMetricId s.metricNameToId)
        pc := .pushInformation poll t { b with todo := todo } e
          (nextMetricId s.metricNameToId) }
  | announce (poll : Bool) (t : Int) (b : Batch) (e : MetricListenerEntry) (id : UInt32)
      (hs : s.pc = .pushInformation poll t b e id) :
      Effect s (.pushed true) ((s.push true (.metricInformation (e.information id))).goto
        (.recording poll t (b.finish e b.todo id)))
  | takeBack (poll : Bool) (t : Int) (b : Batch) (e : MetricListenerEntry) (id : UInt32)
      (hs : s.pc = .pushInformation poll t b e id) :
      Effect s (.pushed false) { s with
        metricNameToId := s.metricNameToId.erase e.name
        pc := .recording poll t (b.finish e b.todo 0) }
  | samples (poll : Bool) (t : Int) (b : Batch) (ok : Bool)
      (hs : s.pc = .pushSamples poll t b) :
      Effect s (.pushed ok) { s.push ok (.metricSamples t b.samples) with
        retryEntries := b.failed
        pc := .reading poll }
  | complete (ok : Bool) (hs : s.pc.batch = none) :
      Effect s (.pushed ok) { s.push ok .constantMetricsComplete with
        needsToSendConstantMetrics := !ok
        pc := .window }
  | duration (t : Int) (d : Int64) (ok : Bool) (hs : s.pc = .sendDuration t d) :
      Effect s (.pushed ok) ((s.push ok (.metricSamples t (durationSamples d))).goto .top)

theorem Effect.move_ite {s : State} {a : Action} (c : Bool) {pc pc' : Pc}
    (hs : s.pc.batch = none) (h : pc.batch = none) (h' : pc'.batch = none) :
    Effect s a (s.goto (if c then pc else pc')) := by
  cases c
  · exact .move hs h'
  · exact .move hs h

section recordNext

variable {s : State} {poll : Bool} {t : Int} {b : Batch} {e : MetricListenerEntry}
  {todo : List MetricListenerEntry}

theorem recordNext_nil (htodo : b.todo = []) :
    recordNext s poll t b = s.goto (.pushSamples poll t b) := by
  simp only [recordNext, htodo]

theorem recordNext_known {id : UInt32} (htodo : b.todo = e :: todo)
    (hid : s.metricNameToId.lookup e.name = some id) :
    recordNext s poll t b = s.goto (.recording poll t (b.finish e todo id)) := by
  simp only [recordNext, htodo, hid]

theorem recordNext_new (htodo : b.todo = e :: todo) (hid : s.metricNameToId.lookup e.name = none) :
    recordNext s poll t b = { s with
      metricNameToId := s.metricNameToId.insert e.name (nextMetricId s.metricNameToId)
      pc := .pushInformation poll t { b with todo := todo } e
        (nextMetricId s.metricNameToId) } := by
  simp only [recordNext, htodo, hid]

end recordNext

/-- A section that ends moves the thread along. -/
theorem endSection_goto (s : State) (emitted : Bool) :
    ∃ pc, endSection s emitted = s.goto pc ∧ pc.batch = none := by
  unfold endSection
  split
  · exact ⟨.pushComplete, rfl, rfl⟩
  · exact ⟨.window, rfl, rfl⟩

theorem recordNext_effect {s : State} {poll : Bool} {t : Int} {b : Batch}
    (hs : s.pc = .recording poll t b) : Effect s .go (recordNext s poll t b) := by
  unfold recordNext
  split
  · exact .endBatch poll t b hs
  · rename_i e todo htodo
    split
    · exact .found poll t b e todo _ hs htodo (by assumption)
    · exact .new poll t b e todo hs htodo (AList.lookup_eq_none.mp (by assumption))

theorem endSection_effect {s : State} (hs : s.pc.batch = none) (a : Action) (emitted : Bool) :
    Effect s a (endSection s emitted) := by
  unfold endSection
  split <;> exact .move hs rfl

theorem threadStep_effect {s t : State} {a : Action} (h : threadStep s s.pc a = some t) :
    Effect s a t := by
  generalize hpc : s.pc = pc at h
  unfold threadStep at h
  split at h
  -- recordEntries is the only arm with a guard
  case h_7 poll entries time =>
    split at h
    · rename_i hentries
      cases h
      exact .beginBatch poll time entries (by rw [hpc]; rfl) hentries
    · cases h
  all_goals cases h
  case h_9 poll time b => exact recordNext_effect hpc
  case h_10 poll time b e id ok =>
    cases ok with
    | true => exact .announce poll time b e id hpc
    | false => exact .takeBack poll time b e id hpc
  case h_11 poll time b ok => exact .samples poll time b ok hpc
  case h_20 time d ok => exact .duration time d ok hpc
  all_goals have hs : s.pc.batch = none := by rw [hpc]; rfl
  case h_3 => exact .insertDuration hs
  case h_4 ok =>
    cases ok with
    | true => exact .announceDuration hs
    | false => exact .retryDuration
  case h_5 => exact .storeFlag hs
  case h_8 poll emitted =>
    cases poll with
    | true => exact .move hs rfl
    | false => exact endSection_effect hs _ emitted
  case h_12 ok => exact .complete ok hs
  all_goals first
    | exact .move hs rfl
    | exact .move_ite _ hs rfl rfl

/-- A place where neither a batch nor a section has just ended. -/
def Pc.inner : Pc → Bool
  | .pushSamples .. | .pushComplete => false
  | _ => true

/-- Where a batch ends every entry has been tried, and where a section ends with
the completion no constant is to be retried. -/
structure Ended (s : State) : Prop where
  tried : ∀ poll t b, s.pc = .pushSamples poll t b → b.todo = []
  noRetry : s.pc = .pushComplete → s.retryEntries = []

theorem Ended.of_inner {s : State} (h : s.pc.inner = true) : Ended s := by
  constructor
  · intro poll t b hs
    rw [hs] at h
    cases h
  · intro hs
    rw [hs] at h
    cases h

theorem recordNext_ended (s : State) (poll : Bool) (t : Int) (b : Batch) :
    Ended (recordNext s poll t b) := by
  unfold recordNext
  split
  · rename_i htodo
    refine ⟨fun poll' t' b' hs => ?_, nofun⟩
    cases hs
    exact htodo
  · split <;> exact .of_inner rfl

theorem endSection_ended (s : State) (emitted : Bool) : Ended (endSection s emitted) := by
  unfold endSection
  split
  · rename_i hc
    refine ⟨nofun, fun _ => ?_⟩
    exact List.isEmpty_iff.mp (Bool.and_eq_true_iff.mp hc).2
  · exact .of_inner rfl

theorem threadStep_ended {s t : State} {a : Action} (h : threadStep s s.pc a = some t) :
    Ended t := by
  generalize hpc : s.pc = pc at h
  unfold threadStep at h
  split at h
  case h_7 =>
    split at h
    · cases h
      exact .of_inner rfl
    · cases h
  all_goals cases h
  case h_9 poll time b => exact recordNext_ended s poll time b
  case h_4 ok =>
    refine .of_inner ?_
    cases ok with
    | true => rfl
    | false => exact congrArg Pc.inner hpc
  case h_8 poll emitted =>
    cases poll with
    | true => exact .of_inner rfl
    | false => exact endSection_ended s emitted
  case h_10 ok => cases ok <;> exact .of_inner rfl
  all_goals refine .of_inner ?_
  all_goals first
    | rfl
    | (show Pc.inner (if _ then _ else _) = true; split <;> rfl)

@[simp] theorem push_enabled (s : State) (ok : Bool) (r : Record) :
    (s.push ok r).enabled = s.enabled := by
  cases ok <;> rfl

@[simp] theorem push_needs (s : State) (ok : Bool) (r : Record) :
    (s.push ok r).needsToSendConstantMetrics = s.needsToSendConstantMetrics := by
  cases ok <;> rfl

/-- Only the processor switches metrics on and off. -/
theorem Effect.enabled {s t : State} {a : Action} (h : Effect s a t) : t.enabled = s.enabled := by
  cases h <;> simp [State.goto]

/-- The completion is owed as before, and not about to be pushed, behind any step
but its push and the end of a section. -/
theorem threadStep_owes {s t : State} {a : Action} (h : threadStep s s.pc a = some t)
    (ha : ∀ emitted, a ≠ .readersDone emitted) (hs : s.pc ≠ .pushComplete) :
    t.needsToSendConstantMetrics = s.needsToSendConstantMetrics ∧ t.pc ≠ .pushComplete := by
  generalize hpc : s.pc = pc at h
  unfold threadStep at h
  split at h
  case h_7 =>
    split at h
    · cases h
      exact ⟨rfl, nofun⟩
    · cases h
  all_goals cases h
  case h_4 ok =>
    cases ok with
    | true => exact ⟨rfl, nofun⟩
    | false => exact ⟨rfl, hs⟩
  case h_8 poll emitted => exact absurd rfl (ha emitted)
  case h_9 poll time b =>
    unfold recordNext
    split
    · exact ⟨rfl, nofun⟩
    · split <;> exact ⟨rfl, nofun⟩
  case h_10 poll time b e id ok => cases ok <;> exact ⟨rfl, nofun⟩
  case h_11 poll time b ok => exact ⟨push_needs s ok _, nofun⟩
  case h_12 ok => exact absurd hpc hs
  case h_20 time d ok => exact ⟨push_needs s ok _, nofun⟩
  all_goals refine ⟨rfl, ?_⟩
  all_goals first
    | (show (if _ then _ else _) ≠ Pc.pushComplete; split <;> nofun)
    | nofun

theorem push_queue (s : State) (ok : Bool) (r : Record) :
    ∃ rs, (s.push ok r).queue = s.queue ++ rs := by
  cases ok
  · exact ⟨[], (List.append_nil _).symm⟩
  · exact ⟨[r], rfl⟩

/-- The thread only appends to the queue. -/
theorem Effect.queue {s t : State} {a : Action} (h : Effect s a t) :
    ∃ rs, t.queue = s.queue ++ rs := by
  cases h with
  | announceDuration => exact push_queue ..
  | announce => exact push_queue ..
  | samples => exact push_queue ..
  | complete => exact push_queue ..
  | duration => exact push_queue ..
  | _ => exact ⟨[], (List.append_nil _).symm⟩

/-! ## The whole machine -/

inductive Label where
  | enable
  | disable
  /-- `onMetricsExit`. -/
  | exit
  | thread (a : Action)
  deriving DecidableEq, Repr

def step (s : State) : Label → Option State
  | .enable => if s.pc.locked then none else some (enable s)
  | .disable => if s.pc.locked then none else some (disable s)
  | .exit => some { s with running := false }
  | .thread a => threadStep s s.pc a

@[simp] theorem push_metricNameToId (s : State) (ok : Bool) (r : Record) :
    (s.push ok r).metricNameToId = s.metricNameToId := by
  cases ok <;> rfl

@[simp] theorem push_retryEntries (s : State) (ok : Bool) (r : Record) :
    (s.push ok r).retryEntries = s.retryEntries := by
  cases ok <;> rfl

@[simp] theorem push_pc (s : State) (ok : Bool) (r : Record) : (s.push ok r).pc = s.pc := by
  cases ok <;> rfl

theorem enable_metricNameToId (s : State) : (enable s).metricNameToId = s.metricNameToId := by
  unfold enable; split <;> rfl

theorem enable_pc (s : State) : (enable s).pc = s.pc := by
  unfold enable; split <;> rfl

theorem enable_retryEntries (s : State) : (enable s).retryEntries = s.retryEntries := by
  unfold enable; split <;> rfl

theorem enable_queue (s : State) : (enable s).queue = s.queue := by
  unfold enable; split <;> rfl

theorem disable_metricNameToId (s : State) :
    (disable s).metricNameToId = s.metricNameToId ∨ (disable s).metricNameToId = ∅ := by
  unfold disable
  cases s.enabled
  · exact .inl rfl
  · exact .inr rfl

end Opsian.Metrics.Loop
