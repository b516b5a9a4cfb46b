import Opsian.Lib.History
import Opsian.Lib.RingQueue
import Opsian.Queue.FrameCells

/-! # Samples and refusals are accounted for

A sample that finds the stack queue full is dropped in the signal handler and counted by its
signal, and so are the metrics and the allocations that their queues refuse. A hello starts the
counters over, and the statistics send them. So whatever was sampled is handed over, still
queued, or in a number that a collector is told. -/
namespace Opsian.Queue.Accounting
open Opsian.Lib Opsian.Lib.Runs Opsian.Lib.History Opsian.Lib.RingQueue
open Opsian.Prometheus.Exporter (sigprof)
open Opsian.Queue.CircularQueue hiding State step
open Opsian.Queue.FrameCells (Capture IsSampling pushError userError)
open Opsian.Queue.HandOver (StackElementType)
open Opsian.Queue.InternalQueue (capacity)
open Opsian.Writer.LogWriter (maxFrames sigalrm)

/-- The queue with the counters of `Profiler::handle`; the other two are the queue's. -/
structure State where
  queue : CircularQueue.State
  cputimeFailures : UInt32
  wallclockFailures : UInt32

def init (maxFrameSize : Nat) (symbol timeTsc : UInt64) : State :=
  ⟨CircularQueue.init maxFrameSize symbol timeTsc, 0, 0⟩

/-- What `handle` pushes its trace to: a capture that failed has pushed its error. -/
def reported (q : CircularQueue.State) (c : Capture) : CircularQueue.State :=
  if c.outcome.isError then pushError q c.outcome.type c.errorName else q

/-- `Profiler::handle`. -/
def handle (s : State) (signum : Int) (c : Capture) : State :=
  if IsSampling signum then
    let x := pushStackTrace (reported s.queue c) c.ts c.trace signum 0 c.timeTsc
    if x.1 then { s with queue := x.2 }
    else if signum = sigprof then
      { s with queue := x.2, cputimeFailures := s.cputimeFailures + 1 }
    else { s with queue := x.2, wallclockFailures := s.wallclockFailures + 1 }
  else
    { s with queue := (pushNotification s.queue userError "Signal number out of range: " signum).2 }

/-- `resetAgentStatisticsCounters`, of these four. -/
def resetAgentStatisticsCounters (s : State) : State where
  queue := { s.queue with allocationFailures := 0, metricFailures := 0 }
  cputimeFailures := 0
  wallclockFailures := 0

inductive Label where
  | handle (signum : Int) (c : Capture)
  /-- The other pushes; nothing but `handle` pushes a stack trace. -/
  | push (p : Push)
  | pop
  | onSentHello
  deriving DecidableEq, Repr

def step (s : State) : Label → Option State
  | .handle signum c =>
    if c.outcome.frames.length ≤ maxFrames then some (handle s signum c) else none
  | .push (.stackTrace ..) => none
  | .push p => some { s with queue := (push s.queue p).2 }
  | .pop => (pop s.queue).map fun x => { s with queue := x.2 }
  | .onSentHello => some (resetAgentStatisticsCounters s)

/-! ## The ledger -/

/-- The signals of the samples that were taken, of those the listener was called with and of
those that were lost, and what was refused since the latest hello. -/
structure Ledger where
  handled : List Int
  delivered : List Int
  lost : List Int
  recent : List Int
  metrics : Nat
  allocations : Nat
  deriving DecidableEq, Repr

def Ledger.empty : Ledger := ⟨[], [], [], [], 0, 0⟩

def signalOf : Call → Option Int
  | .recordStackTrace _ _ signum _ _ => some signum
  | _ => none

/-- The signal of a queued trace; a thread has none. -/
def entry (holder : StackHolder) : Option Int :=
  match holder.elementType with
  | .stackTrace => some holder.signum
  | .thread => none

/-- What waits in the stack queue, the oldest first. -/
def queued (q : CircularQueue.State) : List (Option Int) :=
  (Ring.window (capacity stackQueueSize) q.stackQueue.output q.stackQueue.input).map fun slot =>
    entry (q.stackQueue.buffer slot)

/-- A notification is refused silently. -/
def isMetric : Push → Bool
  | .metricInformation _ | .metricSamples .. | .constantMetricsComplete => true
  | _ => false

def isAllocation : Push → Bool
  | .allocation .. => true
  | _ => false

def note (h : Ledger) (s : State) (a : Label) (_ : State) : Ledger :=
  match a with
  | .handle signum c =>
    if IsSampling signum then
      if (pushStackTrace (reported s.queue c) c.ts c.trace signum 0 c.timeTsc).1 then
        { h with handled := signum :: h.handled }
      else { h with
        handled := signum :: h.handled
        lost := signum :: h.lost
        recent := signum :: h.recent }
    else h
  | .push p =>
    if (push s.queue p).1 then h
    else { h with
      metrics := h.metrics + if isMetric p then 1 else 0
      allocations := h.allocations + if isAllocation p then 1 else 0 }
  | .pop =>
    { h with
      delivered := ((pop s.queue).elim [] fun x => x.1.calls.filterMap signalOf) ++ h.delivered }
  | .onSentHello => { h with recent := [], metrics := 0, allocations := 0 }

/-- Nothing that was sampled is missing, and the counters have what was refused since the
hello, as far as 32 bits do. -/
structure Accounted (x : State × Ledger) : Prop where
  conserved : ∀ signum, x.2.handled.count signum =
    x.2.delivered.count signum + (queued x.1.queue).count (some signum) + x.2.lost.count signum
  cputime : x.1.cputimeFailures = UInt32.ofNat (x.2.recent.count sigprof)
  wallclock : x.1.wallclockFailures = UInt32.ofNat (x.2.recent.count sigalrm)
  metrics : x.1.queue.metricFailures = UInt32.ofNat x.2.metrics
  allocations : x.1.queue.allocationFailures = UInt32.ofNat x.2.allocations

/-! ## The stack lane -/

section lane

variable {q q' : CircularQueue.InternalQueue StackHolder} {l : List (Option Int)} {o : Nat}

def Lane (q : CircularQueue.InternalQueue StackHolder) (l : List (Option Int)) : Prop :=
  Stores (capacity stackQueueSize) (fun slot w => entry (q.buffer slot) = w) q.output q.input l

theorem Lane.queued {q : CircularQueue.State} (h : Lane q.stackQueue l) :
    Accounting.queued q = l :=
  h.map_window fun _ _ hw => hw

theorem Lane.push (h : Lane q l) {x : Nat × CircularQueue.InternalQueue StackHolder}
    (hx : q.acquireWrite stackQueueSize = some x) (holder : StackHolder) :
    Lane (x.2.commitWrite x.1 holder) (l ++ [entry holder]) := by
  obtain ⟨hroom, hx⟩ := Option.ite_none_left_eq_some.mp hx
  cases hx
  refine Stores.push h hroom (fun slot w hslot hw => ?_) ?_
  · show entry (Function.update q.buffer q.input holder slot) = w
    rwa [Function.update_of_ne hslot]
  · show entry (Function.update q.buffer q.input holder q.input) = entry holder
    rw [Function.update_self]

theorem Lane.pop (h : Lane q l) (hr : q.acquireRead = .record o) :
    ∃ l', l = entry (q.buffer o) :: l' ∧ Lane (q.commitRead stackQueueSize o) l' := by
  unfold CircularQueue.InternalQueue.acquireRead at hr
  split at hr
  · cases hr
  · rename_i hne
    split at hr
    · cases hr
      cases l with
      | nil => exact absurd (h.empty_iff.mpr rfl) hne
      | cons w l =>
        refine ⟨l, ?_, Stores.pop h fun _ _ _ hw => hw⟩
        rw [← Stores.head h]
    · cases hr

end lane

/-! ## The operations -/

section operations

variable {q : CircularQueue.State} {l : List (Option Int)}

/-- What a push does but for the lanes of the main queue and of the allocations. -/
structure Pushed (q : CircularQueue.State) (l : List (Option Int)) (metrics allocations : Nat)
    (x : Bool × CircularQueue.State) (l' : List (Option Int)) : Prop where
  lane : Lane x.2.stackQueue l'
  metrics : x.2.metricFailures = q.metricFailures + UInt32.ofNat (if x.1 then 0 else metrics)
  allocations :
    x.2.allocationFailures = q.allocationFailures + UInt32.ofNat (if x.1 then 0 else allocations)

theorem pushMain_pushed (h : Lane q.stackQueue l) {failures : UInt32} {n : Nat}
    (hn : failures = UInt32.ofNat n) (fill : Holder → Holder) :
    Pushed q l n 0 (pushMain q failures fill) l := by
  subst hn
  unfold pushMain
  cases q.mainQueue.acquireWrite mainQueueSize with
  | none => exact ⟨h, rfl, (UInt32.add_zero _).symm⟩
  | some x => exact ⟨h, (UInt32.add_zero _).symm, (UInt32.add_zero _).symm⟩

theorem pushAllocation_pushed (h : Lane q.stackQueue l) (allocationSize : UInt64)
    (outsideTlab : Bool) (symbol : UInt64) :
    Pushed q l 0 1 (pushAllocation q allocationSize outsideTlab symbol) l := by
  unfold pushAllocation
  cases q.allocationQueue.acquireWrite allocationQueueSize with
  | none => exact ⟨h, (UInt32.add_zero _).symm, rfl⟩
  | some x => exact ⟨h, (UInt32.add_zero _).symm, (UInt32.add_zero _).symm⟩

theorem pushStackTrace_pushed (h : Lane q.stackQueue l) (ts : Opsian.Globals.Timespec)
    (item : CallTrace) (signum threadState : Int) (timeTsc : UInt64) :
    let x := pushStackTrace q ts item signum threadState timeTsc
    Pushed q l 0 0 x (if x.1 then l ++ [some signum] else l) := by
  unfold pushStackTrace
  cases hx : q.stackQueue.acquireWrite stackQueueSize with
  | none => exact ⟨h, (UInt32.add_zero _).symm, (UInt32.add_zero _).symm⟩
  | some x => exact ⟨h.push hx _, (UInt32.add_zero _).symm, (UInt32.add_zero _).symm⟩

theorem pushThread_pushed (h : Lane q.stackQueue l) (name : String) (threadId : Int) :
    let x := pushThread q name threadId
    Pushed q l 0 0 x (if x.1 then l ++ [none] else l) := by
  unfold pushThread
  cases hx : q.stackQueue.acquireWrite stackQueueSize with
  | none => exact ⟨h, (UInt32.add_zero _).symm, (UInt32.add_zero _).symm⟩
  | some x => exact ⟨h.push hx _, (UInt32.add_zero _).symm, (UInt32.add_zero _).symm⟩

/-- A push other than a trace's adds no signal to the lane. -/
theorem push_pushed (h : Lane q.stackQueue l) {p : Push}
    (hp : ∀ ts item signum threadState timeTsc,
      p ≠ .stackTrace ts item signum threadState timeTsc) :
    ∃ l', (∀ signum, l'.count (some signum) = l.count (some signum)) ∧
      Pushed q l (if isMetric p then 1 else 0) (if isAllocation p then 1 else 0) (push q p) l' := by
  cases p with
  | stackTrace ts item signum threadState timeTsc => exact absurd rfl (hp _ _ _ _ _)
  | thread name threadId =>
    refine ⟨_, fun signum => ?_, pushThread_pushed h name threadId⟩
    split
    · simp
    · rfl
  | allocation allocationSize outsideTlab symbol =>
    exact ⟨l, fun _ => rfl, pushAllocation_pushed h allocationSize outsideTlab symbol⟩
  | notification category payload value =>
    refine ⟨l, fun _ => rfl, ?_⟩
    show Pushed q l 0 0 (pushNotification q category payload value) l
    exact pushMain_pushed h rfl _
  | metricInformation info =>
    refine ⟨l, fun _ => rfl, ?_⟩
    show Pushed q l 1 0 (pushMetricInformation q info) l
    exact pushMain_pushed h rfl _
  | metricSamples samples timeEpochMillis =>
    refine ⟨l, fun _ => rfl, ?_⟩
    show Pushed q l 1 0 (pushMetricSamples q samples timeEpochMillis) l
    exact pushMain_pushed h rfl _
  | constantMetricsComplete =>
    refine ⟨l, fun _ => rfl, ?_⟩
    show Pushed q l 1 0 (pushConstantMetricsComplete q) l
    exact pushMain_pushed h rfl _

/-- A notification is refused silently. -/
theorem pushNotification_pushed (h : Lane q.stackQueue l) (category : Nat) (payload : String)
    (value : Int) :
    let t := (pushNotification q category payload value).2
    Lane t.stackQueue l ∧ t.metricFailures = q.metricFailures ∧
      t.allocationFailures = q.allocationFailures := by
  have hpush : Pushed q l 0 0 (pushNotification q category payload value) l :=
    pushMain_pushed h rfl _
  refine ⟨hpush.lane, hpush.metrics.trans ?_, hpush.allocations.trans ?_⟩
  · simp
  · simp

/-- The error of a capture is a notification, which is not counted. -/
theorem reported_pushed (h : Lane q.stackQueue l) (c : Capture) :
    Lane (reported q c).stackQueue l ∧ (reported q c).metricFailures = q.metricFailures ∧
      (reported q c).allocationFailures = q.allocationFailures := by
  unfold reported
  split
  · exact pushNotification_pushed h userError _ 0
  · exact ⟨h, rfl, rfl⟩

/-- The calls that a pop of a lane makes have no signal, and the other lanes stay. -/
structure Aside (q : CircularQueue.State) (x : Option Call × CircularQueue.State) : Prop where
  silent : x.1.toList.filterMap signalOf = []
  stackQueue : x.2.stackQueue = q.stackQueue
  metrics : x.2.metricFailures = q.metricFailures
  allocations : x.2.allocationFailures = q.allocationFailures

theorem signalOf_call (holder : Holder) : signalOf holder.call = none := by
  unfold Holder.call
  cases holder.elementType <;> rfl

theorem popMain_aside {x : Option Call × CircularQueue.State} (hx : popMain q = some x) :
    Aside q x := by
  unfold popMain at hx
  cases hr : q.mainQueue.acquireRead with
  | empty =>
    rw [hr] at hx
    cases hx
    exact ⟨rfl, rfl, rfl, rfl⟩
  | waiting =>
    rw [hr] at hx
    cases hx
  | record o =>
    rw [hr] at hx
    cases hx
    exact ⟨by simp [signalOf_call], rfl, rfl, rfl⟩

theorem popAllocation_aside {x : Option Call × CircularQueue.State}
    (hx : popAllocation q = some x) : Aside q x := by
  unfold popAllocation at hx
  cases hr : q.allocationQueue.acquireRead with
  | empty =>
    rw [hr] at hx
    cases hx
    exact ⟨rfl, rfl, rfl, rfl⟩
  | waiting =>
    rw [hr] at hx
    cases hx
  | record o =>
    rw [hr] at hx
    cases hx
    exact ⟨rfl, rfl, rfl, rfl⟩

/-- The signal that the listener hears is that of the entry. -/
theorem count_call (holder : StackHolder) (frameBuffer : Nat → List _) (signum : Int)
    (l : List (Option Int)) :
    (entry holder :: l).count (some signum) =
      ([holder.call frameBuffer].filterMap signalOf).count signum + l.count (some signum) := by
  unfold entry StackHolder.call
  cases holder.elementType with
  | stackTrace => simp [signalOf, List.count_cons, Nat.add_comm]
  | thread => exact (List.count_cons_of_ne (by simp)).trans (Nat.zero_add _).symm

theorem popStack_lane (h : Lane q.stackQueue l) {x : Option Call × CircularQueue.State}
    (hx : popStack q = some x) :
    ∃ l', Lane x.2.stackQueue l' ∧
      (∀ signum, l.count (some signum) =
        (x.1.toList.filterMap signalOf).count signum + l'.count (some signum)) ∧
      x.2.metricFailures = q.metricFailures ∧ x.2.allocationFailures = q.allocationFailures := by
  unfold popStack at hx
  cases hr : q.stackQueue.acquireRead with
  | empty =>
    rw [hr] at hx
    cases hx
    exact ⟨l, h, fun _ => (Nat.zero_add _).symm, rfl, rfl⟩
  | waiting =>
    rw [hr] at hx
    cases hx
  | record o =>
    rw [hr] at hx
    cases hx
    obtain ⟨l', rfl, hl'⟩ := h.pop hr
    exact ⟨l', hl', fun signum => count_call _ q.frameBuffer signum l', rfl, rfl⟩

/-- A pop hands over the signal of the trace that waited longest, if it is one. -/
theorem pop_lane (h : Lane q.stackQueue l) {x : Answer × CircularQueue.State}
    (hx : pop q = some x) :
    ∃ l', Lane x.2.stackQueue l' ∧
      (∀ signum, l.count (some signum) =
        (x.1.calls.filterMap signalOf).count signum + l'.count (some signum)) ∧
      x.2.metricFailures = q.metricFailures ∧ x.2.allocationFailures = q.allocationFailures := by
  unfold pop at hx
  obtain ⟨main, hmain, hx⟩ := Option.bind_eq_some_iff.mp hx
  obtain ⟨allocation, hallocation, hx⟩ := Option.bind_eq_some_iff.mp hx
  obtain ⟨stack, hstack, rfl⟩ := Option.map_eq_some_iff.mp hx
  have hmain := popMain_aside hmain
  have hallocation := popAllocation_aside hallocation
  have hlane : Lane allocation.2.stackQueue l := by
    rw [hallocation.stackQueue, hmain.stackQueue]
    exact h
  obtain ⟨l', hl', hcount, hmetrics, hallocations⟩ := popStack_lane hlane hstack
  refine ⟨l', hl', fun signum => ?_, ?_, ?_⟩
  · rw [hcount]
    simp [Answer.ofPops, List.filterMap_append, hmain.silent, hallocation.silent]
  · exact hmetrics.trans (hallocation.metrics.trans hmain.metrics)
  · exact hallocations.trans (hallocation.allocations.trans hmain.allocations)

end operations

/-! ## Runs -/

/-- The ledger agrees with what the stack lane holds. -/
structure Inv (x : State × Ledger) (l : List (Option Int)) : Prop where
  lane : Lane x.1.queue.stackQueue l
  conserved : ∀ signum, x.2.handled.count signum =
    x.2.delivered.count signum + l.count (some signum) + x.2.lost.count signum
  cputime : x.1.cputimeFailures = UInt32.ofNat (x.2.recent.count sigprof)
  wallclock : x.1.wallclockFailures = UInt32.ofNat (x.2.recent.count sigalrm)
  metrics : x.1.queue.metricFailures = UInt32.ofNat x.2.metrics
  allocations : x.1.queue.allocationFailures = UInt32.ofNat x.2.allocations

variable {x y : State × Ledger} {s t : State} {h : Ledger} {l : List (Option Int)} {a : Label}

theorem Inv.accounted (hi : Inv x l) : Accounted x where
  conserved := by
    intro signum
    rw [hi.lane.queued]
    exact hi.conserved signum
  cputime := hi.cputime
  wallclock := hi.wallclock
  metrics := hi.metrics
  allocations := hi.allocations

/-- One more is refused; the counter may wrap. -/
theorem ofNat_count_cons (signum : Int) (recent : List Int) :
    UInt32.ofNat ((signum :: recent).count signum) = UInt32.ofNat (recent.count signum) + 1 := by
  rw [List.count_cons_self, UInt32.ofNat_add]
  rfl

/-- What is sampled goes to the lane if there is room. -/
theorem count_taken {signum v : Int} (hc : h.handled.count v =
    h.delivered.count v + l.count (some v) + h.lost.count v) :
    (signum :: h.handled).count v =
      h.delivered.count v + (l ++ [some signum]).count (some v) + h.lost.count v := by
  rw [List.count_append, List.count_singleton, List.count_cons]
  by_cases he : signum = v
  · simp only [he, beq_self_eq_true, if_true]
    omega
  · simp only [beq_iff_eq, Option.some.injEq, he, if_false]
    omega

/-- Else it is lost. -/
theorem count_lost {signum v : Int} (hc : h.handled.count v =
    h.delivered.count v + l.count (some v) + h.lost.count v) :
    (signum :: h.handled).count v =
      h.delivered.count v + l.count (some v) + (signum :: h.lost).count v := by
  rw [List.count_cons, List.count_cons]
  omega

/-- The counter of the one signal is not that of the other. -/
theorem sigalrm_ne_sigprof : sigalrm ≠ sigprof := by decide

theorem Inv.handle (hi : Inv (s, h) l) (signum : Int) (c : Capture) :
    ∃ l', Inv (handle s signum c, note h s (.handle signum c) (handle s signum c)) l' := by
  by_cases hs : IsSampling signum
  · obtain ⟨hlane, hmetrics, hallocations⟩ := reported_pushed hi.lane c
    have hpush := pushStackTrace_pushed hlane c.ts c.trace signum 0 c.timeTsc
    simp only [Accounting.handle, note, if_pos hs]
    generalize pushStackTrace (reported s.queue c) c.ts c.trace signum 0 c.timeTsc = x at hpush ⊢
    have hm : x.2.metricFailures = UInt32.ofNat h.metrics := by
      rw [hpush.metrics, hmetrics, hi.metrics]
      simp
    have ha : x.2.allocationFailures = UInt32.ofNat h.allocations := by
      rw [hpush.allocations, hallocations, hi.allocations]
      simp
    have hl := hpush.lane
    cases hx : x.1 with
    | true =>
      rw [hx] at hl
      simp only [if_true]
      exact ⟨_, hl, fun v => count_taken (hi.conserved v), hi.cputime, hi.wallclock, hm, ha⟩
    | false =>
      rw [hx] at hl
      simp only [Bool.false_eq_true, if_false]
      have hkept := fun signum v => @count_lost h l signum v (hi.conserved v)
      rcases hs with rfl | rfl
      · have hcputime := (congrArg (· + 1) hi.cputime).trans (ofNat_count_cons _ _).symm
        have hwallclock : s.wallclockFailures =
            UInt32.ofNat ((sigprof :: h.recent).count sigalrm) := by
          rw [List.count_cons_of_ne sigalrm_ne_sigprof.symm]
          exact hi.wallclock
        rw [if_pos rfl]
        exact ⟨l, hl, hkept _, hcputime, hwallclock, hm, ha⟩
      · have hwallclock := (congrArg (· + 1) hi.wallclock).trans (ofNat_count_cons _ _).symm
        have hcputime : s.cputimeFailures =
            UInt32.ofNat ((sigalrm :: h.recent).count sigprof) := by
          rw [List.count_cons_of_ne sigalrm_ne_sigprof]
          exact hi.cputime
        rw [if_neg sigalrm_ne_sigprof]
        exact ⟨l, hl, hkept _, hcputime, hwallclock, hm, ha⟩
  · obtain ⟨hlane, hmetrics, hallocations⟩ := pushNotification_pushed hi.lane userError
      "Signal number out of range: " signum
    simp only [Accounting.handle, note, if_neg hs]
    exact ⟨l, hlane, hi.conserved, hi.cputime, hi.wallclock, hmetrics.trans hi.metrics,
      hallocations.trans hi.allocations⟩

theorem Inv.push (hi : Inv (s, h) l) {p : Push}
    (hp : ∀ ts item signum threadState timeTsc,
      p ≠ .stackTrace ts item signum threadState timeTsc) :
    ∃ l', Inv ({ s with queue := (push s.queue p).2 },
      note h s (.push p) { s with queue := (push s.queue p).2 }) l' := by
  obtain ⟨l', hcount, hpush⟩ := push_pushed hi.lane hp
  refine ⟨l', ?_⟩
  simp only [note]
  generalize CircularQueue.push s.queue p = x at hpush ⊢
  have hconserved : ∀ v, h.handled.count v =
      h.delivered.count v + l'.count (some v) + h.lost.count v := by
    intro v
    rw [hcount]
    exact hi.conserved v
  have hm := hpush.metrics
  have ha := hpush.allocations
  rw [hi.metrics, ← UInt32.ofNat_add] at hm
  rw [hi.allocations, ← UInt32.ofNat_add] at ha
  cases hx : x.1 with
  | true =>
    rw [hx] at hm ha
    exact ⟨hpush.lane, hconserved, hi.cputime, hi.wallclock, hm, ha⟩
  | false =>
    rw [hx] at hm ha
    exact ⟨hpush.lane, hconserved, hi.cputime, hi.wallclock, hm, ha⟩

theorem Inv.pop (hi : Inv (s, h) l) {x : Answer × CircularQueue.State}
    (hx : pop s.queue = some x) :
    ∃ l', Inv ({ s with queue := x.2 }, note h s .pop { s with queue := x.2 }) l' := by
  obtain ⟨l', hl', hcount, hmetrics, hallocations⟩ := pop_lane hi.lane hx
  refine ⟨l', hl', fun v => ?_, hi.cputime, hi.wallclock, hmetrics.trans hi.metrics,
    hallocations.trans hi.allocations⟩
  have hc : h.handled.count v =
      h.delivered.count v + l.count (some v) + h.lost.count v := hi.conserved v
  rw [hcount v] at hc
  simp only [note, hx, Option.elim_some, List.count_append]
  omega

theorem Inv.next (hi : ∃ l, Inv x l) (hs : recording step note x a = some y) :
    ∃ l, Inv y l := by
  obtain ⟨s, h⟩ := x
  obtain ⟨l, hi⟩ := hi
  refine next_of_step (I := fun y => ∃ l, Inv y l) (fun t ht => ?_) hs
  cases a with
  | handle signum c =>
    obtain ⟨_, ht⟩ := Option.ite_none_right_eq_some.mp ht
    cases ht
    exact hi.handle signum c
  | push p =>
    cases p with
    | stackTrace ts item signum threadState timeTsc => cases ht
    | _ =>
      cases ht
      exact hi.push (by simp)
  | pop =>
    obtain ⟨x, hx, rfl⟩ := Option.map_eq_some_iff.mp ht
    exact hi.pop hx
  | onSentHello =>
    cases ht
    exact ⟨l, hi.lane, hi.conserved, rfl, rfl, rfl, rfl⟩

/-- In every order of signals, pushes, pops and hellos, a sample is handed over, still queued
or lost, and those that were lost since the latest hello are counted by their signal. -/
theorem samples_accounted (maxFrameSize : Nat) (symbol timeTsc : UInt64) (labels : List Label) :
    Along (recording step note) Accounted (init maxFrameSize symbol timeTsc, .empty) labels := by
  have hinit : Inv (init maxFrameSize symbol timeTsc, .empty) [] :=
    ⟨stores_nil (Nat.succ_pos _), fun _ => rfl, rfl, rfl, rfl, rfl⟩
  exact (along_of_step (fun _ _ _ hi ha => Inv.next hi ha) ⟨[], hinit⟩ labels).mono
    fun _ ⟨_, hi⟩ => hi.accounted

end Opsian.Queue.Accounting
