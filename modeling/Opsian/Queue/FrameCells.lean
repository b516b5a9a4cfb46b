import Opsian.Queue.CircularQueue
import Opsian.Startup.Grammar

/-! # The cells of a frame buffer

How many frames a capture holds is a constant of the build, how many cells a
buffer has is an option, and the loops over a buffer are bounded by the trace. -/
namespace Opsian.Queue.FrameCells
open Opsian.Globals Opsian.Lib.Runs Opsian.Queue.CircularQueue Opsian.Startup.Arguments
open Opsian.Prometheus.Exporter (sigprof)
open Opsian.Queue.HandOver (ErrorType Outcome)
open Opsian.Startup.Grammar (parseArguments_last)
open Opsian.Writer.LogWriter (maxFrames sigalrm)

/-- The queue of a profiler, and the `maxFrameSize` it was constructed with. -/
structure Profiler where
  maxFrameSize : Nat
  buffer : State

/-- The queue's part of `Profiler::configure`, in memory that held `symbol` and `timeTsc`.
Where the parser has thrown, or `new` is asked for a negative number of frames, the agent
does not start. -/
def configure (options : List Char) (onPremHostDefault : Bool) (symbol timeTsc : UInt64) :
    Option Profiler :=
  let parsed := parseArguments options (.init onPremHostDefault)
  let maxFramesToCapture := parsed.configuration.maxFramesToCapture.toInt
  if parsed.thrown = true ∨ maxFramesToCapture < 0 then none
  else some ⟨maxFramesToCapture.toNat, init maxFramesToCapture.toNat symbol timeTsc⟩

/-- What `Profiler::handle` gets from `linkable_handle` and the system. -/
structure Capture where
  outcome : Outcome
  /-- What `unw_strerror` says of the error code. -/
  errorName : String
  ts : Timespec
  threadId : UInt64
  timeTsc : UInt64
  deriving DecidableEq, Repr

/-- The number of `NotificationCategory::USER_ERROR`. -/
def userError : Nat := 1

def functionName : ErrorType → String
  | .getContextFail => "unw_getcontext"
  | .initLocalFail => "unw_init_local"
  | .stepFail => "unw_step"
  | .success => "Unknown"

def pushError (s : State) (type : ErrorType) (errorName : String) : State :=
  (pushNotification s userError
    ("in linkable_handle for " ++ functionName type ++ ": " ++ errorName) 0).2

def Capture.trace (c : Capture) : CallTrace := ⟨c.outcome.numFrames, c.threadId, c.outcome.frames⟩

def IsSampling (signum : Int) : Prop := signum = sigprof ∨ signum = sigalrm

instance (signum : Int) : Decidable (IsSampling signum) := inferInstanceAs (Decidable (_ ∨ _))

/-- `Profiler::handle`. -/
def handle (s : State) (signum : Int) (c : Capture) : State :=
  if IsSampling signum then
    let s := if c.outcome.isError then pushError s c.outcome.type c.errorName else s
    (pushStackTrace s c.ts c.trace signum 0 c.timeTsc).2
  else (pushNotification s userError "Signal number out of range: " signum).2

inductive Label where
  | handle (signum : Int) (c : Capture)
  /-- The other pushes; nothing but `handle` pushes a stack trace. -/
  | push (p : Push)
  | pop
  deriving DecidableEq, Repr

def queueStep (s : State) : Label → Option State
  | .handle signum c =>
    if c.outcome.frames.length ≤ maxFrames then some (handle s signum c) else none
  | .push (.stackTrace ..) => none
  | .push p => some (push s p).2
  | .pop => (pop s).map Prod.snd

def step (p : Profiler) (a : Label) : Option Profiler :=
  (queueStep p.buffer a).map fun t => { p with buffer := t }

/-- The stack queue has a slot for a trace. -/
def Vacant (s : State) : Prop := (s.stackQueue.acquireWrite stackQueueSize).isSome = true

instance (s : State) : Decidable (Vacant s) := inferInstanceAs (Decidable (_ = _))

/-- The loop that zeroes the frames behind a pop. -/
def cleanedCells (holder : StackHolder) : List Nat :=
  match holder.elementType with
  | .stackTrace => List.range holder.trace.numFrames.toNat
  | .thread => []

/-- The cells of its slot's buffer that a step stores to, in the loop of `write` or in that
behind a pop. -/
def touched (s : State) : Label → List Nat
  | .handle signum c =>
    if IsSampling signum ∧ Vacant s then List.range c.trace.numFrames.toNat else []
  | .push _ => []
  | .pop =>
    match s.stackQueue.acquireRead with
    | .record currentOutput => cleanedCells (s.stackQueue.buffer currentOutput)
    | _ => []

/-- The cells exist. -/
def InBuffer (p : Profiler) (a : Label) : Prop := ∀ i ∈ touched p.buffer a, i < p.maxFrameSize

instance (p : Profiler) (a : Label) : Decidable (InBuffer p a) :=
  inferInstanceAs (Decidable (∀ i ∈ touched p.buffer a, i < p.maxFrameSize))

/-- A capture that has not failed, and that finds a slot, fits the buffer. -/
def Short (p : Profiler) : Label → Prop
  | .handle signum c =>
    IsSampling signum → Vacant p.buffer → c.outcome.isError = false →
      c.outcome.frames.length ≤ p.maxFrameSize
  | _ => True

variable {size : Nat} {p q : Profiler} {s t : State} {a : Label}

theorem forall_mem_range (n size : Nat) : (∀ i ∈ List.range n, i < size) ↔ n ≤ size := by
  simp only [List.mem_range]
  constructor
  · intro h
    by_contra hlt
    exact Nat.lt_irrefl _ (h size (Nat.lt_of_not_le hlt))
  · intro h i hi
    exact Nat.lt_of_lt_of_le hi h

theorem trace_le_iff (c : Capture) :
    c.trace.numFrames.toNat ≤ size ↔
      (c.outcome.isError = false → c.outcome.frames.length ≤ size) := by
  rw [Capture.trace, HandOver.toNat_numFrames]
  cases c.outcome.isError <;> simp

theorem handle_inBuffer_iff (signum : Int) (c : Capture) :
    InBuffer p (.handle signum c) ↔ Short p (.handle signum c) := by
  have hle : _ ≤ p.maxFrameSize ↔ _ := trace_le_iff c
  unfold InBuffer touched Short
  simp only [← hle]
  by_cases hs : IsSampling signum ∧ Vacant p.buffer
  · rw [if_pos hs, forall_mem_range]
    simp [hs]
  · rw [if_neg hs]
    exact iff_of_true (List.forall_mem_nil _) fun hsig hv => absurd ⟨hsig, hv⟩ hs

/-! ## Every held trace fits -/

def Fitting (size : Nat) (s : State) : Prop :=
  ∀ i, (s.stackQueue.buffer i).trace.numFrames ≤ size

theorem fitting_init (size : Nat) (symbol timeTsc : UInt64) :
    Fitting size (init size symbol timeTsc) := fun _ => Int.natCast_nonneg size

theorem pushMain_stackQueue (s : State) (failures : UInt32) (fill : Holder → Holder) :
    (pushMain s failures fill).2.stackQueue = s.stackQueue := by
  unfold pushMain
  split <;> rfl

theorem acquireWrite_eq_some {q : CircularQueue.InternalQueue StackHolder}
    {x : Nat × CircularQueue.InternalQueue StackHolder}
    (h : q.acquireWrite stackQueueSize = some x) : x.2.buffer = q.buffer := by
  obtain ⟨-, hx⟩ := Option.ite_none_left_eq_some.mp h
  cases hx
  rfl

/-- A holder is written whose trace fits. -/
theorem Fitting.commit (h : Fitting size s) {x : Nat × CircularQueue.InternalQueue StackHolder}
    (hx : s.stackQueue.acquireWrite stackQueueSize = some x) {holder : StackHolder}
    (hfits : holder.trace.numFrames ≤ size) (i : Nat) :
    ((x.2.commitWrite x.1 holder).buffer i).trace.numFrames ≤ size := by
  unfold InternalQueue.commitWrite
  by_cases hi : i = x.1
  · simpa [hi] using hfits
  · simpa [hi, acquireWrite_eq_some hx] using h i

theorem Fitting.pushStackTrace (h : Fitting size s) (ts : Timespec) {item : CallTrace}
    (signum threadState : Int) (timeTsc : UInt64) (hfits : Vacant s → item.numFrames ≤ size) :
    Fitting size (pushStackTrace s ts item signum threadState timeTsc).2 := by
  unfold CircularQueue.pushStackTrace
  split
  · exact h
  · rename_i hx
    exact h.commit hx (hfits (by rw [Vacant, hx]; rfl))

/-- A thread leaves the trace in its holder as it was. -/
theorem Fitting.pushThread (h : Fitting size s) (name : String) (threadId : Int) :
    Fitting size (pushThread s name threadId).2 := by
  unfold CircularQueue.pushThread
  split
  · exact h
  · rename_i currentInput stackQueue hx
    refine h.commit hx ?_
    have hbuffer : stackQueue.buffer = s.stackQueue.buffer := acquireWrite_eq_some hx
    rw [hbuffer]
    exact h currentInput

theorem Fitting.of_eq (h : Fitting size s) (ht : t.stackQueue = s.stackQueue) :
    Fitting size t := by
  unfold Fitting
  rw [ht]
  exact h

theorem Fitting.push (h : Fitting size s) {r : Push} (hs : queueStep s (.push r) = some t) :
    Fitting size t := by
  cases r with
  | stackTrace => cases hs
  | thread name threadId =>
    cases hs
    exact h.pushThread name threadId
  | allocation allocationSize outsideTlab symbol =>
    cases hs
    refine h.of_eq ?_
    unfold CircularQueue.push pushAllocation
    simp only
    split <;> rfl
  | _ =>
    cases hs
    exact h.of_eq (pushMain_stackQueue ..)

theorem Fitting.handle (h : Fitting size s) {signum : Int} {c : Capture}
    (hok : Short ⟨size, s⟩ (.handle signum c)) : Fitting size (handle s signum c) := by
  unfold FrameCells.handle
  split
  · rename_i hsig
    have herror : ∀ u : State, u.stackQueue = s.stackQueue →
        Fitting size (CircularQueue.pushStackTrace u c.ts c.trace signum 0 c.timeTsc).2 := by
      intro u hu
      refine (h.of_eq hu).pushStackTrace c.ts signum 0 c.timeTsc fun hv => ?_
      have hle : c.trace.numFrames.toNat ≤ size :=
        (trace_le_iff c).mpr (hok hsig (by rwa [Vacant, ← hu]))
      exact Int.toNat_le.mp hle
    split
    · exact herror _ (pushMain_stackQueue ..)
    · exact herror s rfl
  · exact h.of_eq (pushMain_stackQueue ..)

theorem popMain_stackQueue {x : Option Call × State} (h : popMain s = some x) :
    x.2.stackQueue = s.stackQueue := by
  unfold popMain at h
  split at h
  all_goals cases h
  all_goals rfl

theorem popAllocation_stackQueue {x : Option Call × State} (h : popAllocation s = some x) :
    x.2.stackQueue = s.stackQueue := by
  unfold popAllocation at h
  split at h
  all_goals cases h
  all_goals rfl

theorem popStack_buffer {x : Option Call × State} (h : popStack s = some x) :
    x.2.stackQueue.buffer = s.stackQueue.buffer := by
  unfold popStack at h
  split at h
  all_goals cases h
  all_goals rfl

/-- A pop writes no holder of the stack queue. -/
theorem Fitting.pop (h : Fitting size s) (hs : queueStep s .pop = some t) : Fitting size t := by
  obtain ⟨x, hx, rfl⟩ := Option.map_eq_some_iff.mp hs
  obtain ⟨main, hmain, hx⟩ := Option.bind_eq_some_iff.mp hx
  obtain ⟨allocation, hallocation, hx⟩ := Option.bind_eq_some_iff.mp hx
  obtain ⟨stack, hstack, rfl⟩ := Option.map_eq_some_iff.mp hx
  have hbuffer : stack.2.stackQueue.buffer = s.stackQueue.buffer := by
    rw [popStack_buffer hstack, popAllocation_stackQueue hallocation, popMain_stackQueue hmain]
  intro i
  show (stack.2.stackQueue.buffer i).trace.numFrames ≤ size
  rw [hbuffer]
  exact h i

theorem Fitting.next (h : Fitting size s) (hok : Short ⟨size, s⟩ a)
    (hs : queueStep s a = some t) : Fitting size t := by
  cases a with
  | handle signum c =>
    obtain ⟨-, rfl⟩ := Option.ite_some_none_eq_some.mp hs
    exact h.handle hok
  | push r => exact h.push hs
  | pop => exact h.pop hs

theorem Fitting.inBuffer (h : Fitting size s) (hok : Short ⟨size, s⟩ a) :
    InBuffer ⟨size, s⟩ a := by
  cases a with
  | handle signum c => exact (handle_inBuffer_iff signum c).mpr hok
  | push r => exact List.forall_mem_nil _
  | pop =>
    unfold InBuffer touched cleanedCells
    simp only
    split
    · rename_i currentOutput _
      have hle := h currentOutput
      split
      · rw [forall_mem_range]
        omega
      · exact List.forall_mem_nil _
    · exact List.forall_mem_nil _

theorem short_of_inBuffer (h : InBuffer p a) : Short p a := by
  cases a with
  | handle signum c => exact (handle_inBuffer_iff signum c).mp h
  | _ => trivial

/-- **Copying a trace fits its slot**, and so does cleaning it, for whatever options the
agent has started with, if and only if every capture that is stored has no more frames than
the option gives a buffer. -/
theorem inBuffer_iff_short (options : List Char) (onPremHostDefault : Bool)
    (symbol timeTsc : UInt64) (p : Profiler)
    (h : configure options onPremHostDefault symbol timeTsc = some p) (labels : List Label) :
    Steps step InBuffer p labels ↔ Steps step Short p labels := by
  obtain ⟨-, hp⟩ := Option.ite_none_left_eq_some.mp h
  obtain rfl := Option.some.inj hp
  constructor
  · exact Steps.transfer (I := fun _ => True) (fun _ _ _ _ _ _ => trivial)
      (fun _ _ _ hin => short_of_inBuffer hin) trivial
  · refine Steps.transfer (I := fun p => Fitting p.maxFrameSize p.buffer) ?_
      (fun _ _ hfit hok => hfit.inBuffer hok) (fitting_init _ symbol timeTsc)
    intro p a q hfit hok hs
    obtain ⟨t, ht, rfl⟩ := Option.map_eq_some_iff.mp hs
    exact hfit.next hok ht

/-- Two frames, captured at a profiling signal. -/
def twoFrames : Capture := ⟨⟨.success, [⟨true, 1⟩, ⟨true, 2⟩]⟩, "", ⟨0, 0⟩, 0, 0⟩

theorem configure_oneFrame :
    configure "__maxFrames=1".toList false 0 0 = some ⟨1, init 1 0 0⟩ := by
  unfold configure
  rw [parseArguments_last (by decide)]
  rfl

/-- A buffer of one cell, into which two frames are copied. -/
theorem beyond_the_buffer : ∃ p, configure "__maxFrames=1".toList false 0 0 = some p ∧
    (∀ a ∈ [Label.handle sigprof twoFrames], ∃ q, step p a = some q) ∧
    ¬ Steps step InBuffer p [.handle sigprof twoFrames] := by
  refine ⟨_, configure_oneFrame, ?_, ?_⟩
  · rintro a (_ | ⟨_, ⟨⟩⟩)
    exact ⟨_, rfl⟩
  · intro h
    have hin : InBuffer ⟨1, init 1 0 0⟩ (.handle sigprof twoFrames) := (h _ rfl).1
    exact absurd hin (by decide)

theorem one_frame_fits : Steps step InBuffer ⟨1, init 1 0 0⟩
    [.handle sigprof ⟨⟨.success, [⟨true, 1⟩]⟩, "", ⟨0, 0⟩, 0, 0⟩, .pop] := by
  refine (inBuffer_iff_short _ false 0 0 _ configure_oneFrame _).mpr ?_
  exact .cons rfl (fun _ _ _ => le_rfl) (.cons rfl trivial trivial)

end Opsian.Queue.FrameCells
