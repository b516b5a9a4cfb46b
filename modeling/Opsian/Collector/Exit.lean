import Opsian.Lib.Runs
import Opsian.Metrics.Cursor

/-! # The exit of the process

The thread that exits owns OCaml's master lock, and joins first the metrics thread and then
the processor thread, which run on until they find that they are not to. Both of these take
`readersMutex`, and under it the processor thread may ask for the master lock, to start, pause
or resume the runtime events. `onDisconnect` looks whether the metrics thread is running
before it does so; the handler of a sample rate does not, nor does the processor thread when it
starts, which OCaml registers under the master lock. -/
namespace Opsian.Collector.Exit
open Opsian.Lib.Runs Opsian.Metrics
open Opsian.Metrics.Completion (Events eventRingName isPrefixDisabled)

/-- The calls of the processor thread that take `readersMutex`. -/
inductive Call where
  | enable (disabledPrefixes : List String)
  | disable
  deriving DecidableEq, Repr

/-- The call comes to a `caml_acquire_runtime_system`. -/
def Call.takesMaster (events : Events) (s : Cursor.State) (call : Call) : Bool :=
  let wasEnabled := s.enabled && s.reader == some true
  match events, call with
  | .disabled, _ => false
  | .enabled, .enable disabledPrefixes =>
    let enable := !isPrefixDisabled eventRingName disabledPrefixes
    (!wasEnabled && enable) || (wasEnabled && !enable && s.calledStart)
  | .enabled, .disable => wasEnabled && s.calledStart

def Call.run (events : Events) (s : Cursor.State) (created : Bool) : Call → Option Cursor.State
  | .enable disabledPrefixes => Cursor.enable events s disabledPrefixes created
  | .disable => Cursor.disable events s

/-- `loop` is wherever the thread holds no lock and asks for none, be it in `run`, or in the
`close` of an `onDisconnect`, which drains what is left to be handled. -/
inductive ProcessorPlace where
  /-- At `caml_c_thread_register`, and in it. -/
  | registering
  | registered
  | loop
  | locking (call : Call)
  | locked (call : Call)
  /-- At `caml_acquire_runtime_system`. -/
  | acquiring (call : Call)
  | acquired (call : Call)
  | ended
  deriving DecidableEq, Repr

inductive MetricsPlace where
  | loop
  | locking
  | locked
  | ended
  deriving DecidableEq, Repr

/-- The thread that exits: `exit` runs `onMetricsExit`, which was registered last, and then
`onProcessorExit`. -/
inductive MainPlace where
  | running
  | joiningMetrics
  | joiningProcessor
  | exited
  deriving DecidableEq, Repr

/-- The owner of `readersMutex`. -/
inductive Reader where
  | processor
  | metrics
  deriving DecidableEq, Repr

/-- The owner of the master lock. -/
inductive Owner where
  | application
  | processor
  deriving DecidableEq, Repr

structure State where
  processor : ProcessorPlace
  metrics : MetricsPlace
  main : MainPlace
  readersMutex : Option Reader
  masterLock : Option Owner
  running : Bool
  processorRunning : Bool
  on : Bool
  metricsOn : Bool
  /-- The processor thread is in `onEnd`. -/
  ending : Bool
  cursor : Cursor.State
  deriving DecidableEq, Repr

/-- Behind `Profiler::start`, which the application has called. -/
def init (on : Bool) : State where
  processor := .registering
  metrics := .loop
  main := .running
  readersMutex := none
  masterLock := some .application
  running := true
  processorRunning := true
  on := on
  metricsOn := false
  ending := false
  cursor := Cursor.init

namespace State

/-- The part of `onDisconnect` that has to do with the metrics. -/
def onDisconnect (s : State) : State :=
  { s with
    processor := if s.metricsOn && s.running then .locking .disable else .loop
    metricsOn := false }

def onSampleRate (s : State) (switchMetricsOn : Bool) (disabledMetricPrefixes : List String) :
    State :=
  { s with
    processor := .locking (if switchMetricsOn then .enable disabledMetricPrefixes else .disable)
    metricsOn := switchMetricsOn }

end State

inductive Label where
  | register
  | registered
  | onSampleRate (switchMetricsOn : Bool) (disabledMetricPrefixes : List String)
  | onDisconnect
  | onTerminate
  /-- The loop of the processor thread ends, and then the drain of its `onEnd`. -/
  | leave
  | closed
  | lock
  | acquire
  | acquired
  | finish (created : Bool)
  | metricsLock
  | metricsLocked
  | metricsUnlock
  /-- The head of the loop of the metrics thread, as far as the locks let it get there. -/
  | metricsTop
  /-- A thread of the application enters OCaml, or leaves it. -/
  | enterOcaml
  | leaveOcaml
  | exit
  | joinMetrics
  | joinProcessor
  deriving DecidableEq, Repr

def step (events : Events) (s : State) : Label → Option State
  | .register =>
    if s.processor = .registering ∧ s.masterLock = none then
      some { s with processor := .registered, masterLock := some .processor }
    else none
  | .registered =>
    if s.processor = .registered then some { s with processor := .loop, masterLock := none }
    else none
  | .onSampleRate switchMetricsOn disabledMetricPrefixes =>
    if s.processor = .loop then some (s.onSampleRate switchMetricsOn disabledMetricPrefixes)
    else none
  | .onDisconnect => if s.processor = .loop then some s.onDisconnect else none
  | .onTerminate => if s.processor = .loop then some { s with on := false } else none
  | .leave =>
    if s.processor = .loop ∧ s.ending = false ∧ ¬ (s.on = true ∧ s.processorRunning = true) then
      some { s with ending := true }.onDisconnect
    else none
  | .closed =>
    if s.processor = .loop ∧ s.ending = true then some { s with processor := .ended } else none
  | .lock =>
    match s.processor with
    | .locking call =>
      if s.readersMutex = none then
        some { s with processor := .locked call, readersMutex := some .processor }
      else none
    | _ => none
  | .acquire =>
    match s.processor with
    | .locked call =>
      if call.takesMaster events s.cursor then some { s with processor := .acquiring call }
      else none
    | _ => none
  | .acquired =>
    match s.processor with
    | .acquiring call =>
      if s.masterLock = none then
        some { s with processor := .acquired call, masterLock := some .processor }
      else none
    | _ => none
  | .finish created =>
    match s.processor with
    | .locked call =>
      if call.takesMaster events s.cursor then none
      else (call.run events s.cursor created).map fun cursor =>
        { s with processor := .loop, readersMutex := none, cursor := cursor }
    | .acquired call =>
      (call.run events s.cursor created).map fun cursor =>
        { s with processor := .loop, readersMutex := none, masterLock := none, cursor := cursor }
    | _ => none
  | .metricsLock => if s.metrics = .loop then some { s with metrics := .locking } else none
  | .metricsLocked =>
    if s.metrics = .locking ∧ s.readersMutex = none then
      some { s with metrics := .locked, readersMutex := some .metrics }
    else none
  | .metricsUnlock =>
    if s.metrics = .locked then some { s with metrics := .loop, readersMutex := none } else none
  | .metricsTop =>
    if s.metrics = .loop then some { s with metrics := if s.running then .loop else .ended }
    else none
  | .enterOcaml =>
    if s.main = .running ∧ s.masterLock = none then
      some { s with masterLock := some .application }
    else none
  | .leaveOcaml =>
    if s.main = .running ∧ s.masterLock = some .application then
      some { s with masterLock := none }
    else none
  | .exit =>
    if s.main = .running ∧ s.masterLock = some .application then
      some { s with main := .joiningMetrics, running := false }
    else none
  | .joinMetrics =>
    if s.main = .joiningMetrics ∧ s.metrics = .ended then
      some { s with main := .joiningProcessor, processorRunning := false }
    else none
  | .joinProcessor =>
    if s.main = .joiningProcessor ∧ s.processor = .ended then some { s with main := .exited }
    else none

/-- The exit can still be completed. -/
def CanExit (events : Events) (s : State) : Prop :=
  ∃ t, Leads (step events) s t ∧ t.main = .exited

/-- The processor thread is on its way to the master lock. -/
def Doomed (events : Events) (s : State) : Prop :=
  s.processor = .registering ∨
    ∃ call : Call, (s.processor = .locking call ∨ s.processor = .locked call ∨
      s.processor = .acquiring call) ∧ call.takesMaster events s.cursor = true

/-- Once it has begun, an exit can be completed as long as the processor thread is not on its
way to the master lock, which nothing but a sample rate sends it on. -/
structure Ends (events : Events) (s : State) : Prop where
  completes : s.main ≠ .running → (CanExit events s ↔ ¬ Doomed events s)
  dooms : s.main ≠ .running → ∀ a t, step events s a = some t → Doomed events t →
    Doomed events s ∨
      ∃ switchMetricsOn disabledMetricPrefixes,
        a = .onSampleRate switchMetricsOn disabledMetricPrefixes

/-! ## The invariant -/

def ProcessorPlace.reads : ProcessorPlace → Bool
  | .locked _ | .acquiring _ | .acquired _ => true
  | _ => false

def ProcessorPlace.owns : ProcessorPlace → Bool
  | .registered | .acquired _ => true
  | _ => false

/-- Each lock belongs to the thread that is where it has taken it, and once the exit has begun
the master lock is the exiting thread's. -/
structure Inv (events : Events) (s : State) : Prop where
  cursor : ∃ orphans, Cursor.Inv events s.cursor orphans
  processorReads : s.readersMutex = some .processor ↔ s.processor.reads = true
  metricsReads : s.readersMutex = some .metrics ↔ s.metrics = .locked
  owns : s.masterLock = some .processor ↔ s.processor.owns = true
  acquiring : ∀ call, s.processor = .acquiring call → call.takesMaster events s.cursor = true
  exiting : s.main ≠ .running → s.masterLock = some .application ∧ s.running = false
  joined : s.main = .joiningProcessor → s.metrics = .ended ∧ s.processorRunning = false
  exited : s.main = .exited → s.processor = .ended

variable {events : Events} {s t : State} {a : Label} {call : Call}

theorem init_inv (events : Events) (on : Bool) : Inv events (init on) where
  cursor := ⟨0, Cursor.init_inv events⟩
  processorReads := by simp [init, ProcessorPlace.reads]
  metricsReads := by simp [init]
  owns := by simp [init, ProcessorPlace.owns]
  acquiring call h := by cases h
  exiting h := absurd rfl h
  joined h := by cases h
  exited h := by cases h

theorem Call.run_inv {orphans : Nat} {u : Cursor.State} (h : Cursor.Inv events u orphans)
    (created : Bool) (call : Call) :
    ∃ v, call.run events u created = some v ∧ Cursor.Inv events v orphans := by
  cases call with
  | enable disabledPrefixes => exact h.enable disabledPrefixes created
  | disable => exact h.disable

/-- The processor thread moves where it has no lock. -/
theorem Inv.away (h : Inv events s) (hloop : s.processor = .loop) {place : ProcessorPlace}
    (hreads : place.reads = false) (howns : place.owns = false)
    (hne : ∀ call, place ≠ .acquiring call) (metricsOn on ending : Bool) :
    Inv events { s with
      processor := place, metricsOn := metricsOn, on := on, ending := ending } := by
  have hno : s.readersMutex ≠ some .processor := by
    rw [Ne, h.processorReads, hloop]
    exact Bool.false_ne_true
  have hnot : s.masterLock ≠ some .processor := by
    rw [Ne, h.owns, hloop]
    exact Bool.false_ne_true
  refine { h with
    processorReads := iff_of_false hno (by simp [hreads])
    owns := iff_of_false hnot (by simp [howns])
    acquiring := fun call hc => absurd hc (hne call)
    exited := fun hm => ?_ }
  have hended := h.exited hm
  rw [hloop] at hended
  cases hended

theorem Inv.disconnect (h : Inv events s) (hloop : s.processor = .loop) (ending : Bool) :
    Inv events { s with ending := ending }.onDisconnect := by
  refine h.away hloop ?_ ?_ (fun call => ?_) false s.on ending
  · split <;> rfl
  · split <;> rfl
  · split <;> simp

/-- The readers are free for the one or the other. -/
theorem Inv.free (h : Inv events s) (hfree : s.readersMutex = none) :
    s.processor.reads = false ∧ s.metrics ≠ .locked := by
  refine ⟨Bool.eq_false_iff.mpr fun hr => ?_, fun hl => ?_⟩
  · rw [h.processorReads.mpr hr] at hfree
    cases hfree
  · rw [h.metricsReads.mpr hl] at hfree
    cases hfree

theorem Inv.finish (h : Inv events s) (hreads : s.processor.reads = true) {created : Bool}
    {u : Cursor.State} (hrun : call.run events s.cursor created = some u) {m : Option Owner}
    (hm : m ≠ some .processor) (hexiting : s.main ≠ .running → m = some .application) :
    Inv events { s with
      processor := .loop, readersMutex := none, masterLock := m, cursor := u } := by
  obtain ⟨orphans, hcursor⟩ := h.cursor
  obtain ⟨v, hv, hinv⟩ := call.run_inv hcursor created
  cases hrun.symm.trans hv
  have hlocked : s.metrics ≠ .locked := by
    intro hl
    cases (h.processorReads.mpr hreads).symm.trans (h.metricsReads.mpr hl)
  exact
    { cursor := ⟨orphans, hinv⟩
      processorReads := iff_of_false (by simp) Bool.false_ne_true
      metricsReads := iff_of_false (by simp) hlocked
      owns := iff_of_false hm Bool.false_ne_true
      acquiring := by simp
      exiting := fun hmain => ⟨hexiting hmain, (h.exiting hmain).2⟩
      joined := h.joined
      exited := fun hmain => by
        have hended := h.exited hmain
        rw [hended] at hreads
        cases hreads }

/-- The processor thread comes to own the master lock, which nobody owned. -/
theorem Inv.takesMaster (h : Inv events s) (hfree : s.masterLock = none) (hne : s.processor ≠ .ended)
    {place : ProcessorPlace} (hreads : s.processor.reads = place.reads) (howns : place.owns = true)
    (hplace : ∀ call, place ≠ .acquiring call) :
    Inv events { s with processor := place, masterLock := some .processor } :=
  { h with
    processorReads := hreads ▸ h.processorReads
    owns := iff_of_true rfl howns
    acquiring := fun call hc => absurd hc (hplace call)
    exiting := fun hm => by cases hfree.symm.trans (h.exiting hm).1
    exited := fun hm => absurd (h.exited hm) hne }

/-- The metrics thread moves where it has no lock. -/
theorem Inv.metricsAway (h : Inv events s) (hloop : s.metrics = .loop) {place : MetricsPlace}
    (hplace : place ≠ .locked) : Inv events { s with metrics := place } :=
  { h with
    metricsReads := iff_of_false (mt h.metricsReads.mp (by rw [hloop]; simp)) hplace
    joined := fun hm => by cases hloop.symm.trans (h.joined hm).1 }

/-- The application takes the master lock or leaves it. -/
theorem Inv.application (h : Inv events s) (hmain : s.main = .running)
    (hnot : s.masterLock ≠ some .processor) {m : Option Owner} (hm : m ≠ some .processor) :
    Inv events { s with masterLock := m } :=
  { h with
    owns := iff_of_false hm (mt h.owns.mpr hnot)
    exiting := fun hne => absurd hmain hne }

/-! ## The steps -/

theorem step_lock (hs : step events s .lock = some t) :
    ∃ call, s.processor = .locking call ∧ s.readersMutex = none ∧
      t = { s with processor := .locked call, readersMutex := some .processor } := by
  unfold step at hs
  simp only at hs
  split at hs
  · obtain ⟨hfree, rfl⟩ := Option.ite_some_none_eq_some.mp hs
    exact ⟨_, by assumption, hfree, rfl⟩
  · cases hs

theorem step_acquire (hs : step events s .acquire = some t) :
    ∃ call, s.processor = .locked call ∧ call.takesMaster events s.cursor = true ∧
      t = { s with processor := .acquiring call } := by
  unfold step at hs
  simp only at hs
  split at hs
  · obtain ⟨htakes, rfl⟩ := Option.ite_some_none_eq_some.mp hs
    exact ⟨_, by assumption, htakes, rfl⟩
  · cases hs

theorem step_acquired (hs : step events s .acquired = some t) :
    ∃ call, s.processor = .acquiring call ∧ s.masterLock = none ∧
      t = { s with processor := .acquired call, masterLock := some .processor } := by
  unfold step at hs
  simp only at hs
  split at hs
  · obtain ⟨hfree, rfl⟩ := Option.ite_some_none_eq_some.mp hs
    exact ⟨_, by assumption, hfree, rfl⟩
  · cases hs

theorem step_finish {created : Bool} (hs : step events s (.finish created) = some t) :
    ∃ call u, call.run events s.cursor created = some u ∧
      ((s.processor = .locked call ∧ ¬ call.takesMaster events s.cursor = true ∧
        t = { s with processor := .loop, readersMutex := none, cursor := u }) ∨
      (s.processor = .acquired call ∧
        t = { s with
          processor := .loop, readersMutex := none, masterLock := none, cursor := u })) := by
  unfold step at hs
  simp only at hs
  split at hs
  · obtain ⟨htakes, hs⟩ := Option.ite_none_left_eq_some.mp hs
    obtain ⟨u, hu, rfl⟩ := Option.map_eq_some_iff.mp hs
    exact ⟨_, u, hu, .inl ⟨by assumption, htakes, rfl⟩⟩
  · obtain ⟨u, hu, rfl⟩ := Option.map_eq_some_iff.mp hs
    exact ⟨_, u, hu, .inr ⟨by assumption, rfl⟩⟩
  · cases hs

theorem Inv.next (h : Inv events s) (hs : step events s a = some t) : Inv events t := by
  cases a with
  | register =>
    obtain ⟨⟨hplace, hfree⟩, rfl⟩ := Option.ite_some_none_eq_some.mp hs
    exact h.takesMaster hfree (by simp [hplace]) (by rw [hplace]; rfl) rfl (by simp)
  | registered =>
    obtain ⟨hplace, rfl⟩ := Option.ite_some_none_eq_some.mp hs
    have hreads := h.processorReads
    have howner : s.masterLock = some .processor := h.owns.mpr (by rw [hplace]; rfl)
    rw [hplace] at hreads
    exact { h with
      processorReads := hreads
      owns := iff_of_false (by simp) Bool.false_ne_true
      acquiring := by simp
      exiting := fun hm => by cases howner.symm.trans (h.exiting hm).1
      exited := fun hm => by cases hplace.symm.trans (h.exited hm) }
  | onSampleRate switchMetricsOn disabledMetricPrefixes =>
    obtain ⟨hloop, rfl⟩ := Option.ite_some_none_eq_some.mp hs
    exact h.away hloop rfl rfl (by simp) switchMetricsOn s.on s.ending
  | onDisconnect =>
    obtain ⟨hloop, rfl⟩ := Option.ite_some_none_eq_some.mp hs
    exact h.disconnect hloop s.ending
  | onTerminate =>
    obtain ⟨hloop, rfl⟩ := Option.ite_some_none_eq_some.mp hs
    exact { h with }
  | leave =>
    obtain ⟨⟨hloop, -⟩, rfl⟩ := Option.ite_some_none_eq_some.mp hs
    exact h.disconnect hloop true
  | closed =>
    obtain ⟨⟨hloop, -⟩, rfl⟩ := Option.ite_some_none_eq_some.mp hs
    exact h.away hloop rfl rfl (by simp) s.metricsOn s.on s.ending
  | lock =>
    obtain ⟨call, hplace, hfree, rfl⟩ := step_lock hs
    have howns : s.masterLock ≠ some .processor := by
      rw [Ne, h.owns, hplace]
      exact Bool.false_ne_true
    exact { h with
      processorReads := iff_of_true rfl rfl
      metricsReads := iff_of_false (by simp) (h.free hfree).2
      owns := iff_of_false howns Bool.false_ne_true
      acquiring := by simp
      exited := fun hm => by cases hplace.symm.trans (h.exited hm) }
  | acquire =>
    obtain ⟨call, hplace, htakes, rfl⟩ := step_acquire hs
    have hreads := h.processorReads
    have howns := h.owns
    rw [hplace] at hreads howns
    exact { h with
      processorReads := hreads
      owns := howns
      acquiring := fun call hc => by
        cases hc
        exact htakes
      exited := fun hm => by cases hplace.symm.trans (h.exited hm) }
  | acquired =>
    obtain ⟨call, hplace, hfree, rfl⟩ := step_acquired hs
    exact h.takesMaster hfree (by simp [hplace]) (by rw [hplace]; rfl) rfl (by simp)
  | finish created =>
    obtain ⟨call, u, hu, ⟨hplace, -, rfl⟩ | ⟨hplace, rfl⟩⟩ := step_finish hs
    · refine h.finish (by rw [hplace]; rfl) hu ?_ fun hm => (h.exiting hm).1
      rw [Ne, h.owns, hplace]
      exact Bool.false_ne_true
    · have howner : s.masterLock = some .processor := h.owns.mpr (by rw [hplace]; rfl)
      refine h.finish (by rw [hplace]; rfl) hu (by simp) fun hm => ?_
      cases howner.symm.trans (h.exiting hm).1
  | metricsLock =>
    obtain ⟨hloop, rfl⟩ := Option.ite_some_none_eq_some.mp hs
    exact h.metricsAway hloop (by simp)
  | metricsLocked =>
    obtain ⟨⟨hlocking, hfree⟩, rfl⟩ := Option.ite_some_none_eq_some.mp hs
    exact { h with
      processorReads := iff_of_false (by simp) (by simp [(h.free hfree).1])
      metricsReads := iff_of_true rfl rfl
      joined := fun hm => by cases hlocking.symm.trans (h.joined hm).1 }
  | metricsUnlock =>
    obtain ⟨hlocked, rfl⟩ := Option.ite_some_none_eq_some.mp hs
    have hmetrics := h.metricsReads.mpr hlocked
    have hno : ¬ s.processor.reads = true := by
      rw [← h.processorReads, hmetrics]
      simp
    exact { h with
      processorReads := iff_of_false (by simp) hno
      metricsReads := iff_of_false (by simp) (by simp)
      joined := fun hm => by cases hlocked.symm.trans (h.joined hm).1 }
  | metricsTop =>
    obtain ⟨hloop, rfl⟩ := Option.ite_some_none_eq_some.mp hs
    exact h.metricsAway hloop (by split <;> simp)
  | enterOcaml =>
    obtain ⟨⟨hmain, hfree⟩, rfl⟩ := Option.ite_some_none_eq_some.mp hs
    exact h.application hmain (by simp [hfree]) (by simp)
  | leaveOcaml =>
    obtain ⟨⟨hmain, howner⟩, rfl⟩ := Option.ite_some_none_eq_some.mp hs
    exact h.application hmain (by simp [howner]) (by simp)
  | exit =>
    obtain ⟨⟨-, howner⟩, rfl⟩ := Option.ite_some_none_eq_some.mp hs
    exact { h with
      exiting := fun _ => ⟨howner, rfl⟩
      joined := by simp
      exited := by simp }
  | joinMetrics =>
    obtain ⟨⟨hmain, hended⟩, rfl⟩ := Option.ite_some_none_eq_some.mp hs
    exact { h with
      exiting := fun _ => h.exiting (by rw [hmain]; simp)
      joined := fun _ => ⟨hended, rfl⟩
      exited := by simp }
  | joinProcessor =>
    obtain ⟨⟨hmain, hended⟩, rfl⟩ := Option.ite_some_none_eq_some.mp hs
    exact { h with
      exiting := fun _ => h.exiting (by rw [hmain]; simp)
      joined := by simp
      exited := fun _ => hended }

/-! ## On the way to the master lock -/

theorem Doomed.congr (h : Doomed events s) (hp : t.processor = s.processor)
    (hc : t.cursor = s.cursor) : Doomed events t := by
  unfold Doomed
  rw [hp, hc]
  exact h

theorem not_doomed_of_loop (h : s.processor = .loop) : ¬ Doomed events s := by
  rintro (hplace | ⟨call, hplace, -⟩) <;> rw [h] at hplace <;> simp at hplace

/-- The one way in: the check of `onDisconnect` fails once the exit has begun. -/
theorem Inv.dooms (h : Inv events s) (hmain : s.main ≠ .running)
    (hs : step events s a = some t) (hd : Doomed events t) :
    Doomed events s ∨
      ∃ switchMetricsOn disabledMetricPrefixes,
        a = .onSampleRate switchMetricsOn disabledMetricPrefixes := by
  have hrunning := (h.exiting hmain).2
  cases a with
  | onSampleRate switchMetricsOn disabledMetricPrefixes => exact .inr ⟨_, _, rfl⟩
  | onDisconnect | leave =>
    obtain ⟨-, rfl⟩ := Option.ite_some_none_eq_some.mp hs
    refine absurd hd (not_doomed_of_loop ?_)
    simp [State.onDisconnect, hrunning]
  | register | registered | closed =>
    obtain ⟨-, rfl⟩ := Option.ite_some_none_eq_some.mp hs
    rcases hd with hplace | ⟨call, hplace, -⟩ <;> simp at hplace
  | lock =>
    obtain ⟨call, hplace, -, rfl⟩ := step_lock hs
    rcases hd with hd | ⟨other, hother, htakes⟩
    · cases hd
    · cases show call = other by simpa using hother
      exact .inl (.inr ⟨call, .inl hplace, htakes⟩)
  | acquire =>
    obtain ⟨call, hplace, htakes, rfl⟩ := step_acquire hs
    exact .inl (.inr ⟨call, .inr (.inl hplace), htakes⟩)
  | acquired =>
    obtain ⟨call, -, -, rfl⟩ := step_acquired hs
    rcases hd with hd | ⟨other, hother, -⟩
    · cases hd
    · simp at hother
  | finish created =>
    obtain ⟨call, u, -, ⟨-, -, rfl⟩ | ⟨-, rfl⟩⟩ := step_finish hs
    · exact absurd hd (not_doomed_of_loop rfl)
    · exact absurd hd (not_doomed_of_loop rfl)
  | onTerminate | metricsLock | metricsLocked | metricsUnlock | metricsTop | enterOcaml
  | leaveOcaml | exit | joinMetrics | joinProcessor =>
    obtain ⟨-, rfl⟩ := Option.ite_some_none_eq_some.mp hs
    exact .inl (hd.congr rfl rfl)

theorem Doomed.not_loop (h : Doomed events s) : s.processor ≠ .loop :=
  fun hloop => not_doomed_of_loop hloop h

/-- The call that the processor thread is in, if it is in one. -/
theorem Doomed.takesMaster (h : Doomed events s) (hplace : s.processor = .locking call ∨
    s.processor = .locked call ∨ s.processor = .acquiring call) :
    call.takesMaster events s.cursor = true := by
  rcases h with h | ⟨other, hother, htakes⟩
  · rw [h] at hplace
    simp at hplace
  · have heq : other = call := by
      rcases hother with hp | hp | hp <;> rw [hp] at hplace <;> simpa using hplace
    exact heq ▸ htakes

/-- There is no way out: the lock is not given up before the thread is joined. -/
theorem Inv.doomed (h : Inv events s) (hmain : s.main ≠ .running) (hd : Doomed events s)
    (hs : step events s a = some t) : Doomed events t ∧ t.main ≠ .running := by
  have howner := (h.exiting hmain).1
  have hloop := hd.not_loop
  cases a with
  | register =>
    obtain ⟨⟨-, hfree⟩, -⟩ := Option.ite_some_none_eq_some.mp hs
    cases hfree.symm.trans howner
  | registered =>
    obtain ⟨hplace, -⟩ := Option.ite_some_none_eq_some.mp hs
    cases (h.owns.mpr (by rw [hplace]; rfl)).symm.trans howner
  | onSampleRate | onDisconnect | onTerminate =>
    obtain ⟨hl, -⟩ := Option.ite_some_none_eq_some.mp hs
    exact absurd hl hloop
  | leave | closed =>
    obtain ⟨⟨hl, -⟩, -⟩ := Option.ite_some_none_eq_some.mp hs
    exact absurd hl hloop
  | lock =>
    obtain ⟨call, hp, -, rfl⟩ := step_lock hs
    exact ⟨.inr ⟨call, .inr (.inl rfl), hd.takesMaster (.inl hp)⟩, hmain⟩
  | acquire =>
    obtain ⟨call, hp, htakes, rfl⟩ := step_acquire hs
    exact ⟨.inr ⟨call, .inr (.inr rfl), htakes⟩, hmain⟩
  | acquired =>
    obtain ⟨call, -, hfree, -⟩ := step_acquired hs
    cases hfree.symm.trans howner
  | finish created =>
    obtain ⟨call, u, -, ⟨hp, hnot, -⟩ | ⟨hp, -⟩⟩ := step_finish hs
    · exact absurd (hd.takesMaster (.inr (.inl hp))) hnot
    · rcases hd with hd | ⟨other, hother, -⟩
      · cases hp.symm.trans hd
      · rw [hp] at hother
        simp at hother
  | metricsLock | metricsLocked | metricsUnlock | metricsTop | joinProcessor =>
    obtain ⟨-, rfl⟩ := Option.ite_some_none_eq_some.mp hs
    exact ⟨hd.congr rfl rfl, by first | exact hmain | simp⟩
  | enterOcaml | leaveOcaml | exit =>
    obtain ⟨⟨hm, -⟩, -⟩ := Option.ite_some_none_eq_some.mp hs
    exact absurd hm hmain
  | joinMetrics =>
    obtain ⟨-, rfl⟩ := Option.ite_some_none_eq_some.mp hs
    exact ⟨hd.congr rfl rfl, by simp⟩

theorem Inv.not_canExit (h : Inv events s) (hmain : s.main ≠ .running) (hd : Doomed events s) :
    ¬ CanExit events s := by
  rintro ⟨t, hleads, ht⟩
  have hkept : Inv events t ∧ Doomed events t ∧ t.main ≠ .running := by
    refine hleads.invariant (I := fun s => Inv events s ∧ Doomed events s ∧ s.main ≠ .running)
      (fun s a t hs ha => ?_) ⟨h, hd, hmain⟩
    obtain ⟨hinv, hd, hmain⟩ := hs
    exact ⟨hinv.next ha, hinv.doomed hmain hd ha⟩
  obtain ⟨hinv, hplace | ⟨call, hplace, -⟩, -⟩ := hkept <;> rw [hinv.exited ht] at hplace <;>
    simp at hplace

/-! ## The way out -/

theorem leads_inv (h : Inv events s) (hleads : Leads (step events) s t) : Inv events t :=
  hleads.invariant (fun _ _ _ h hs => h.next hs) h

/-- The metrics thread gives the readers back. -/
theorem leads_readers (h : Inv events s) (hreads : s.processor.reads = false) :
    ∃ t, Leads (step events) s t ∧ t.readersMutex = none ∧ t.processor = s.processor ∧
      t.main = s.main ∧ t.cursor = s.cursor := by
  cases hmutex : s.readersMutex with
  | none => exact ⟨s, .refl s, hmutex, rfl, rfl, rfl⟩
  | some reader =>
    cases reader with
    | processor =>
      rw [h.processorReads.mp hmutex] at hreads
      cases hreads
    | metrics =>
      have hstep : step events s .metricsUnlock =
          some { s with metrics := .loop, readersMutex := none } :=
        if_pos (h.metricsReads.mp hmutex)
      exact ⟨_, .of_step hstep, rfl, rfl, rfl, rfl⟩

/-- A call that does without the master lock is finished. -/
theorem leads_finish (h : Inv events s) (hplace : s.processor = .locked call)
    (hnot : ¬ call.takesMaster events s.cursor = true) :
    ∃ t, Leads (step events) s t ∧ t.processor = .loop ∧ t.main = s.main := by
  obtain ⟨orphans, hcursor⟩ := h.cursor
  obtain ⟨u, hu, -⟩ := call.run_inv hcursor false
  have hstep : step events s (.finish false) =
      some { s with processor := .loop, readersMutex := none, cursor := u } := by
    simp only [step, hplace, hnot, hu]
    rfl
  exact ⟨_, .of_step hstep, rfl, rfl⟩

/-- The processor thread comes back to its loop, or to its end. -/
theorem leads_back (h : Inv events s) (hmain : s.main ≠ .running) (hd : ¬ Doomed events s) :
    ∃ t, Leads (step events) s t ∧ (t.processor = .loop ∨ t.processor = .ended) ∧
      t.main = s.main := by
  cases hplace : s.processor with
  | loop => exact ⟨s, .refl s, .inl hplace, rfl⟩
  | ended => exact ⟨s, .refl s, .inr hplace, rfl⟩
  | registering => exact absurd (.inl hplace) hd
  | registered =>
    have howner := h.owns.mpr (by rw [hplace]; rfl)
    cases howner.symm.trans (h.exiting hmain).1
  | locking call =>
    have hnot : ¬ call.takesMaster events s.cursor = true :=
      fun htakes => hd (.inr ⟨call, .inl hplace, htakes⟩)
    obtain ⟨t, hleads, hfree, hprocessor, hm, hcursor⟩ :=
      leads_readers h (by rw [hplace]; rfl)
    rw [hplace] at hprocessor
    have hlock : step events t .lock =
        some { t with processor := .locked call, readersMutex := some .processor } := by
      simp only [step, hprocessor, hfree, if_true]
    have hlocked := hleads.trans (.of_step hlock)
    obtain ⟨u, hu, hback, hmu⟩ := leads_finish (leads_inv h hlocked) rfl (hcursor ▸ hnot)
    exact ⟨u, hlocked.trans hu, .inl hback, hmu.trans hm⟩
  | locked call =>
    have hnot : ¬ call.takesMaster events s.cursor = true :=
      fun htakes => hd (.inr ⟨call, .inr (.inl hplace), htakes⟩)
    obtain ⟨u, hu, hback, hm⟩ := leads_finish h hplace hnot
    exact ⟨u, hu, .inl hback, hm⟩
  | acquiring call =>
    exact absurd (.inr ⟨call, .inr (.inr hplace), h.acquiring call hplace⟩) hd
  | acquired call =>
    have howner := h.owns.mpr (by rw [hplace]; rfl)
    cases howner.symm.trans (h.exiting hmain).1

/-- The metrics thread comes to its end. -/
theorem leads_ended (h : Inv events s) (hmain : s.main ≠ .running)
    (hidle : s.processor = .loop ∨ s.processor = .ended) :
    ∃ t, Leads (step events) s t ∧ t.metrics = .ended ∧ t.processor = s.processor ∧
      t.main = s.main := by
  have hreads : s.processor.reads = false := by rcases hidle with hp | hp <;> rw [hp] <;> rfl
  have htop : ∀ u, Inv events u → u.main ≠ .running → u.metrics = .loop →
      ∃ t, Leads (step events) u t ∧ t.metrics = .ended ∧ t.processor = u.processor ∧
        t.main = u.main := by
    intro u hu hm hloop
    have hstep : step events u .metricsTop = some { u with metrics := .ended } := by
      simp only [step, hloop, (hu.exiting hm).2, if_true, Bool.false_eq_true, if_false]
    exact ⟨_, .of_step hstep, rfl, rfl, rfl⟩
  have hunlock : ∀ u, Inv events u → u.main ≠ .running → u.metrics = .locked →
      ∃ t, Leads (step events) u t ∧ t.metrics = .ended ∧ t.processor = u.processor ∧
        t.main = u.main := by
    intro u hu hm hlocked
    have hstep : step events u .metricsUnlock =
        some { u with metrics := .loop, readersMutex := none } := if_pos hlocked
    obtain ⟨t, ht, hended, hprocessor, hmt⟩ := htop _ (hu.next hstep) hm rfl
    exact ⟨t, (Leads.of_step hstep).trans ht, hended, hprocessor, hmt⟩
  cases hplace : s.metrics with
  | ended => exact ⟨s, .refl s, hplace, rfl, rfl⟩
  | loop => exact htop s h hmain hplace
  | locked => exact hunlock s h hmain hplace
  | locking =>
    have hfree : s.readersMutex = none := by
      cases hmutex : s.readersMutex with
      | none => rfl
      | some reader =>
        cases reader with
        | processor =>
          rw [h.processorReads.mp hmutex] at hreads
          cases hreads
        | metrics => cases hplace.symm.trans (h.metricsReads.mp hmutex)
    have hstep : step events s .metricsLocked =
        some { s with metrics := .locked, readersMutex := some .metrics } :=
      if_pos ⟨hplace, hfree⟩
    obtain ⟨t, ht, hended, hprocessor, hm⟩ := hunlock _ (h.next hstep) hmain rfl
    exact ⟨t, (Leads.of_step hstep).trans ht, hended, hprocessor, hm⟩

/-- The processor thread is joined. -/
theorem canExit_of_joining (h : Inv events s) (hmain : s.main = .joiningProcessor)
    (hidle : s.processor = .loop ∨ s.processor = .ended) : CanExit events s := by
  have hjoin : ∀ u : State, u.main = .joiningProcessor → u.processor = .ended →
      CanExit events u := by
    intro u hm hended
    have hstep : step events u .joinProcessor = some { u with main := .exited } :=
      if_pos ⟨hm, hended⟩
    exact ⟨_, .of_step hstep, rfl⟩
  have hclose : ∀ u : State, u.main = .joiningProcessor → u.processor = .loop →
      u.ending = true → CanExit events u := by
    intro u hm hloop hending
    have hstep : step events u .closed = some { u with processor := .ended } :=
      if_pos ⟨hloop, hending⟩
    obtain ⟨t, ht, hexited⟩ := hjoin { u with processor := .ended } hm rfl
    exact ⟨t, (Leads.of_step hstep).trans ht, hexited⟩
  rcases hidle with hloop | hended
  · by_cases hending : s.ending = true
    · exact hclose s hmain hloop hending
    · have hrunning := (h.exiting (by rw [hmain]; simp)).2
      have hover : ¬ (s.on = true ∧ s.processorRunning = true) := by
        rw [(h.joined hmain).2]
        exact fun hon => Bool.false_ne_true hon.2
      have hstep : step events s .leave = some { s with ending := true }.onDisconnect :=
        if_pos ⟨hloop, Bool.not_eq_true _ ▸ hending, hover⟩
      have hplace : ({ s with ending := true } : State).onDisconnect.processor = .loop := by
        simp [State.onDisconnect, hrunning]
      obtain ⟨t, ht, hexited⟩ := hclose { s with ending := true }.onDisconnect hmain hplace rfl
      exact ⟨t, (Leads.of_step hstep).trans ht, hexited⟩
  · exact hjoin s hmain hended

theorem CanExit.of_leads (hleads : Leads (step events) s t) (h : CanExit events t) :
    CanExit events s := by
  obtain ⟨u, hu, hexited⟩ := h
  exact ⟨u, hleads.trans hu, hexited⟩

theorem Inv.canExit (h : Inv events s) (hmain : s.main ≠ .running) (hd : ¬ Doomed events s) :
    CanExit events s := by
  obtain ⟨t, hback, hidle, hm⟩ := leads_back h hmain hd
  have ht := leads_inv h hback
  refine .of_leads hback ?_
  cases hplace : s.main with
  | running => exact absurd hplace hmain
  | exited => exact ⟨t, .refl t, hm.trans hplace⟩
  | joiningProcessor => exact canExit_of_joining ht (hm.trans hplace) hidle
  | joiningMetrics =>
    obtain ⟨u, hended, hmetrics, hprocessor, hmu⟩ := leads_ended ht (hm ▸ hmain) hidle
    have hstep : step events u .joinMetrics =
        some { u with main := .joiningProcessor, processorRunning := false } :=
      if_pos ⟨hmu.trans (hm.trans hplace), hmetrics⟩
    rw [← hprocessor] at hidle
    refine .of_leads (hended.trans (.of_step hstep)) ?_
    exact canExit_of_joining ((leads_inv ht hended).next hstep) rfl hidle

/-- **When an exit can be completed**: in every order of the steps of the three threads, an exit
that has begun can be completed exactly as long as the processor thread is not on its way to
the master lock. The check of `onDisconnect` keeps it from there; only a sample rate that is
handled during the exit, if it is in the drain of `onEnd`, or what was under way when the exit
began, be it the start of the thread, leads there. -/
theorem exit_completes_iff (events : Events) (on : Bool) (labels : List Label) :
    Along (step events) (Ends events) (init on) labels := by
  refine (along_of_step (fun _ _ _ h hs => h.next hs) (init_inv events on) labels).mono ?_
  intro s h
  refine ⟨fun hmain => ⟨fun hcan hd => h.not_canExit hmain hd hcan, h.canExit hmain⟩, ?_⟩
  exact fun hmain a t hs hd => h.dooms hmain hs hd

/-- The check of `onDisconnect` was before the exit, and what it has found is out of date. -/
example : ((run (step .enabled) (init true) [.leaveOcaml, .register, .registered,
    .onSampleRate true [], .lock, .acquire, .acquired, .finish true, .onDisconnect, .enterOcaml,
    .exit, .lock, .acquire]).map fun s => (s.main, s.processor)) =
      some (.joiningMetrics, .acquiring .disable) := rfl

/-- A sample rate is handled when the socket is drained at the end. -/
example : ((run (step .enabled) (init true) [.leaveOcaml, .register, .registered, .enterOcaml,
    .exit, .metricsTop, .joinMetrics, .leave, .onSampleRate true [], .lock, .acquire]).map
      fun s => (s.main, s.processor)) = some (.joiningProcessor, .acquiring (.enable [])) := rfl

end Opsian.Collector.Exit
