import Opsian.Lib.Paths
import Opsian.Metrics.Loop

/-! # Joining the metrics thread

`onMetricsExit` clears `running` and waits for the thread, which looks at `running` at the
head of its cycle only. What else keeps it in a cycle is what the environment answers. -/
namespace Opsian.Metrics.Joining
open Opsian.Lib.Runs Opsian.Lib.Paths Opsian.Metrics.Listener Opsian.Metrics.Loop

/-- A step of the metrics thread. -/
def Busy (_ : State) (a : Label) : Prop := ∃ b, a = .thread b

/-- `run` has returned. -/
def Returned (s : State) : Prop := s.pc = .exited

/-- The queue has no room for `DURATION_INFO`, which is pushed again. -/
def Refused (s : State) (a : Label) : Prop := s.pc = .pushDuration ∧ a = .thread (.pushed false)

/-- A reader has something to record. -/
def Recorded (_ : State) (a : Label) : Prop :=
  ∃ entries t, a = .thread (.recordEntries entries t)

variable {s t : State} {a : Label}

@[simp] theorem finish_todo (b : Batch) (e : MetricListenerEntry)
    (todo : List MetricListenerEntry) (id : UInt32) : (b.finish e todo id).todo = todo := by
  unfold Batch.finish
  split <;> rfl

theorem threadStep_running {b : Action} (h : threadStep s s.pc b = some t) :
    t.running = s.running := by
  cases threadStep_effect h with
  | announceDuration => rfl
  | announce => rfl
  | samples poll time b ok _ => cases ok <;> rfl
  | complete ok _ => cases ok <;> rfl
  | duration time d ok _ => cases ok <;> rfl
  | _ => rfl

/-- The thread is told to return, which nothing takes back. -/
def Told (s : State) : Prop := s.running = false

theorem Told.next (h : Told s) (hs : step s a = some t) : Told t := by
  cases a with
  | enable =>
    obtain ⟨-, ht⟩ := Option.ite_none_left_eq_some.mp hs
    cases ht
    unfold Told enable
    split <;> exact h
  | disable =>
    obtain ⟨-, ht⟩ := Option.ite_none_left_eq_some.mp hs
    cases ht
    exact h
  | exit =>
    cases hs
    rfl
  | thread b => exact (threadStep_running hs).trans h

/-- The processor's steps leave the thread where it is. -/
theorem step_pc (hs : step s a = some t) (ha : ¬ Busy s a) : t.pc = s.pc := by
  cases a with
  | enable =>
    obtain ⟨-, ht⟩ := Option.ite_none_left_eq_some.mp hs
    cases ht
    exact enable_pc s
  | disable =>
    obtain ⟨-, ht⟩ := Option.ite_none_left_eq_some.mp hs
    cases ht
    rfl
  | exit =>
    cases hs
    rfl
  | thread b => exact absurd ⟨b, rfl⟩ ha

theorem not_busy_of_returned (h : Returned s) (hs : step s a = some t) : ¬ Busy s a := by
  rintro ⟨b, rfl⟩
  unfold step at hs
  simp only at hs
  rw [show s.pc = .exited from h] at hs
  cases hs

theorem Returned.next (h : Returned s) (hs : step s a = some t) : Returned t :=
  (step_pc hs (not_busy_of_returned h hs)).trans h

/-- The thread is never stuck: some answer takes it on. -/
theorem thread_goes_on (h : ¬ Returned s) : ∃ b t, step s (.thread b) = some t := by
  unfold Returned at h
  show ∃ b t, threadStep s s.pc b = some t
  generalize s.pc = pc at h
  cases pc with
  | exited => exact absurd rfl h
  | pushDuration | pushInformation | pushSamples | pushComplete | sendDuration =>
    exact ⟨.pushed true, _, rfl⟩
  | reading => exact ⟨.readersDone true, _, rfl⟩
  | window | polling | leaving => exact ⟨.send 0 0, _, rfl⟩
  | _ => exact ⟨.go, _, rfl⟩

/-- The thread as it is when it is told while it pushes `DURATION_INFO`. -/
def pushing : State :=
  { enable init with
    metricNameToId := init.metricNameToId.emplace durationName durationId
    running := false
    pc := .pushDuration }

/-- The push is refused once; then the readers record a batch and emit their constants, and the
elimination loop reads twice. -/
def lastCycle : List Label :=
  [.thread (.pushed false), .thread (.pushed true), .thread .go, .thread .go,
    .thread (.recordEntries [] 5), .thread .go, .thread (.pushed true),
    .thread (.readersDone true), .thread (.pushed true), .thread .poll, .thread .go,
    .thread (.readersDone true), .thread .poll, .thread .go, .thread (.readersDone true),
    .thread (.send 6 1000), .thread (.pushed true), .thread .go]

def joinedState : State :=
  { pushing with
    mustSendDurationMetric := false
    needsToSendConstantMetrics := false
    queue := [.metricInformation durationInfo, .metricSamples 5 [], .constantMetricsComplete,
      .metricSamples 6 (durationSamples 1000)]
    pc := .exited }

theorem lastCycle_run : run step pushing lastCycle = some joinedState := rfl

def joined : Path step := .ofRun lastCycle .exit lastCycle_run rfl

end Opsian.Metrics.Joining
