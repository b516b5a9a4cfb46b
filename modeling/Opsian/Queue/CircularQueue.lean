import Opsian.Globals
import Opsian.Metrics.Listener
import Opsian.Queue.HandOver

/-! # The circular queue

Three `InternalQueue`s of holders that are written over again and again, and a
buffer of frames for each slot of the stack queue. Operations are whole steps
here, each of them completed before the next begins: the compare-exchange of a
push succeeds at once, and a pop that finds its record uncommitted never returns. -/
namespace Opsian.Queue.CircularQueue
open Opsian.Globals Opsian.Lib
open Opsian.Metrics.Listener (MetricInformation MetricSample)
open Opsian.Prometheus.Exporter (CallFrame)
open Opsian.Queue.InternalQueue (capacity)
open Opsian.Queue.HandOver (StackElementType blank clear write)

/-! ## One lane -/

structure InternalQueue (T : Type) where
  input : Nat
  output : Nat
  isCommitted : Nat → Bool
  buffer : Nat → T

/-- How `acquireRead` ends: `waiting` is the loop for a record that is not committed. -/
inductive Acquired where
  | empty
  | waiting
  | record (currentOutput : Nat)
  deriving DecidableEq, Repr

namespace InternalQueue

variable {T : Type}

def init (holder : T) : InternalQueue T := ⟨0, 0, fun _ => false, fun _ => holder⟩

def acquireWrite (size : Nat) (q : InternalQueue T) : Option (Nat × InternalQueue T) :=
  if q.output = Ring.advance (capacity size) q.input then none
  else some (q.input, { q with input := Ring.advance (capacity size) q.input })

/-- The stores to the record's fields, and the flag behind them. -/
def commitWrite (q : InternalQueue T) (position : Nat) (holder : T) : InternalQueue T :=
  { q with
    buffer := Function.update q.buffer position holder
    isCommitted := Function.update q.isCommitted position true }

def acquireRead (q : InternalQueue T) : Acquired :=
  if q.output = q.input then .empty
  else if q.isCommitted q.output then .record q.output
  else .waiting

def commitRead (size : Nat) (q : InternalQueue T) (position : Nat) : InternalQueue T :=
  { q with
    isCommitted := Function.update q.isCommitted position false
    output := Ring.advance (capacity size) position }

end InternalQueue

/-! ## The holders -/

inductive ElementType where
  | notification
  | metricInformation
  | metricSamples
  | constantMetricsComplete
  deriving DecidableEq, Repr

structure Holder where
  elementType : ElementType
  category : Nat
  payload : String
  value : Int
  metricInformation : MetricInformation
  timeEpochMillis : Int
  metricSamples : List MetricSample
  deriving DecidableEq, Repr

structure AllocationHolder where
  /-- A `VMSymbol*`, 0 where it is null. -/
  symbol : UInt64
  allocationSize : UInt64
  outsideTlab : Bool
  deriving DecidableEq, Repr

/-- A `CallTrace` with the array that its `frames` points to. -/
structure CallTrace where
  numFrames : Int
  threadId : UInt64
  frames : List CallFrame
  deriving DecidableEq, Repr

/-- The `CallTrace` of a holder, whose `frames` is null or points to the buffer of a slot. -/
structure HeldTrace where
  numFrames : Int
  threadId : UInt64
  frames : Option Nat
  deriving DecidableEq, Repr

structure StackHolder where
  elementType : StackElementType
  tspec : Timespec
  trace : HeldTrace
  signum : Int
  threadState : Int
  timeTsc : UInt64
  threadId : Int
  name : String
  deriving DecidableEq, Repr

/-- The calls of a `QueueListener`. -/
inductive Call where
  | recordStackTrace (ts : Timespec) (item : CallTrace) (signum threadState : Int)
      (timeTsc : UInt64)
  | recordThread (threadId : Int) (name : String)
  | recordAllocation (allocationSize : UInt64) (outsideTlab : Bool) (symbol : UInt64)
  | recordNotification (category : Nat) (payload : String) (value : Int)
  | recordMetricInformation (metricInformation : MetricInformation)
  | recordMetricSamples (timeEpochMillis : Int) (metricSamples : List MetricSample)
  | recordConstantMetricsComplete
  deriving DecidableEq, Repr

structure State where
  mainQueue : InternalQueue Holder
  allocationQueue : InternalQueue AllocationHolder
  stackQueue : InternalQueue StackHolder
  frameBuffer : Nat → List CallFrame
  allocationFailures : UInt32
  metricFailures : UInt32

def mainQueueSize : Nat := 2048

def allocationQueueSize : Nat := 32768

def stackQueueSize : Nat := 2048

def Holder.init : Holder where
  elementType := .notification
  category := 0
  payload := ""
  value := 0
  metricInformation := ⟨"", 0, .invalid, .invalid, .invalid⟩
  timeEpochMillis := 0
  metricSamples := []

/-- The constructor leaves `symbol` as it is. -/
def AllocationHolder.init (symbol : UInt64) : AllocationHolder := ⟨symbol, 0, false⟩

/-- The constructor leaves `time_tsc` as it is. -/
def StackHolder.init (timeTsc : UInt64) : StackHolder where
  elementType := .stackTrace
  tspec := ⟨0, 0⟩
  trace := ⟨0, 0, none⟩
  signum := 0
  threadState := 0
  timeTsc := timeTsc
  threadId := 0
  name := ""

/-- A queue as it is constructed, in memory that held `symbol` and `timeTsc`. -/
def init (maxFrameSize : Nat) (symbol timeTsc : UInt64) : State where
  mainQueue := .init .init
  allocationQueue := .init (.init symbol)
  stackQueue := .init (.init timeTsc)
  frameBuffer := fun _ => blank maxFrameSize
  allocationFailures := 0
  metricFailures := 0

/-! ## The pushes -/

def pushStackTrace (s : State) (ts : Timespec) (item : CallTrace) (signum threadState : Int)
    (timeTsc : UInt64) : Bool × State :=
  match s.stackQueue.acquireWrite stackQueueSize with
  | none => (false, s)
  | some (currentInput, stackQueue) =>
    let holder := { stackQueue.buffer currentInput with
      trace := ⟨item.numFrames, item.threadId, some currentInput⟩
      elementType := .stackTrace
      tspec := ts
      signum := signum
      threadState := threadState
      timeTsc := timeTsc }
    (true, { s with
      stackQueue := stackQueue.commitWrite currentInput holder
      frameBuffer := Function.update s.frameBuffer currentInput
        (write (s.frameBuffer currentInput) item.numFrames item.frames) })

def pushThread (s : State) (name : String) (threadId : Int) : Bool × State :=
  match s.stackQueue.acquireWrite stackQueueSize with
  | none => (false, s)
  | some (currentInput, stackQueue) =>
    let holder := { stackQueue.buffer currentInput with
      elementType := .thread
      name := name
      threadId := threadId }
    (true, { s with stackQueue := stackQueue.commitWrite currentInput holder })

def pushAllocation (s : State) (allocationSize : UInt64) (outsideTlab : Bool) (symbol : UInt64) :
    Bool × State :=
  match s.allocationQueue.acquireWrite allocationQueueSize with
  | none => (false, { s with allocationFailures := s.allocationFailures + 1 })
  | some (currentInput, allocationQueue) =>
    (true, { s with
      allocationQueue := allocationQueue.commitWrite currentInput
        ⟨symbol, allocationSize, outsideTlab⟩ })

/-- The pushes to the main queue: `fill` stores the fields of the record, and a refusal
is counted for those of the metrics. -/
def pushMain (s : State) (failures : UInt32) (fill : Holder → Holder) : Bool × State :=
  match s.mainQueue.acquireWrite mainQueueSize with
  | none => (false, { s with metricFailures := s.metricFailures + failures })
  | some (currentInput, mainQueue) =>
    (true, { s with
      mainQueue := mainQueue.commitWrite currentInput (fill (mainQueue.buffer currentInput)) })

/-- Without a `value` it is 0. -/
def pushNotification (s : State) (category : Nat) (payload : String) (value : Int) :
    Bool × State :=
  pushMain s 0 fun holder => { holder with
    elementType := .notification
    category := category
    payload := payload
    value := value }

def pushMetricInformation (s : State) (info : MetricInformation) : Bool × State :=
  pushMain s 1 fun holder => { holder with
    elementType := .metricInformation
    metricInformation := info }

def pushMetricSamples (s : State) (metricSamples : List MetricSample) (timeEpochMillis : Int) :
    Bool × State :=
  pushMain s 1 fun holder => { holder with
    elementType := .metricSamples
    metricSamples := metricSamples
    timeEpochMillis := timeEpochMillis }

def pushConstantMetricsComplete (s : State) : Bool × State :=
  pushMain s 1 fun holder => { holder with elementType := .constantMetricsComplete }

/-! ## The pop -/

def Holder.call (holder : Holder) : Call :=
  match holder.elementType with
  | .notification => .recordNotification holder.category holder.payload holder.value
  | .metricInformation => .recordMetricInformation holder.metricInformation
  | .metricSamples => .recordMetricSamples holder.timeEpochMillis holder.metricSamples
  | .constantMetricsComplete => .recordConstantMetricsComplete

def popMain (s : State) : Option (Option Call × State) :=
  match s.mainQueue.acquireRead with
  | .empty => some (none, s)
  | .waiting => none
  | .record currentOutput =>
    some (some (s.mainQueue.buffer currentOutput).call,
      { s with mainQueue := s.mainQueue.commitRead mainQueueSize currentOutput })

def AllocationHolder.call (holder : AllocationHolder) : Call :=
  .recordAllocation holder.allocationSize holder.outsideTlab holder.symbol

def popAllocation (s : State) : Option (Option Call × State) :=
  match s.allocationQueue.acquireRead with
  | .empty => some (none, s)
  | .waiting => none
  | .record currentOutput =>
    let holder := s.allocationQueue.buffer currentOutput
    let allocationQueue := { s.allocationQueue with
      buffer := Function.update s.allocationQueue.buffer currentOutput { holder with symbol := 0 } }
    some (some holder.call,
      { s with allocationQueue := allocationQueue.commitRead allocationQueueSize currentOutput })

/-- The trace as the listener sees it, through the pointer. -/
def HeldTrace.read (trace : HeldTrace) (frameBuffer : Nat → List CallFrame) : CallTrace where
  numFrames := trace.numFrames
  threadId := trace.threadId
  frames := trace.frames.elim [] frameBuffer

def StackHolder.call (holder : StackHolder) (frameBuffer : Nat → List CallFrame) : Call :=
  match holder.elementType with
  | .stackTrace => .recordStackTrace holder.tspec (holder.trace.read frameBuffer) holder.signum
      holder.threadState holder.timeTsc
  | .thread => .recordThread holder.threadId holder.name

/-- Behind a trace its frames are zeroed, so that the next write is clean. -/
def StackHolder.cleaned (holder : StackHolder) (fb : List CallFrame) : List CallFrame :=
  match holder.elementType with
  | .stackTrace => clear fb holder.trace.numFrames
  | .thread => fb

def popStack (s : State) : Option (Option Call × State) :=
  match s.stackQueue.acquireRead with
  | .empty => some (none, s)
  | .waiting => none
  | .record currentOutput =>
    let holder := s.stackQueue.buffer currentOutput
    some (some (holder.call s.frameBuffer),
      { s with
        stackQueue := s.stackQueue.commitRead stackQueueSize currentOutput
        frameBuffer := Function.update s.frameBuffer currentOutput
          (holder.cleaned (s.frameBuffer currentOutput)) })

/-! ## The operations -/

/-- What an operation returns, and the calls it makes to the listener. -/
structure Answer where
  returned : Bool
  calls : List Call
  deriving DecidableEq, Repr

/-- `read` is true once a queue was not empty. -/
def Answer.ofPops (main allocation stack : Option Call) : Answer where
  returned := main.isSome || allocation.isSome || stack.isSome
  calls := main.toList ++ allocation.toList ++ stack.toList

def pop (s : State) : Option (Answer × State) :=
  (popMain s).bind fun main =>
    (popAllocation main.2).bind fun allocation =>
      (popStack allocation.2).map fun stack =>
        (.ofPops main.1 allocation.1 stack.1, stack.2)

/-- The pushes with their arguments; the clock of a stack trace is among them. -/
inductive Push where
  | stackTrace (ts : Timespec) (item : CallTrace) (signum threadState : Int) (timeTsc : UInt64)
  | thread (name : String) (threadId : Int)
  | allocation (allocationSize : UInt64) (outsideTlab : Bool) (symbol : UInt64)
  | notification (category : Nat) (payload : String) (value : Int)
  | metricInformation (info : MetricInformation)
  | metricSamples (metricSamples : List MetricSample) (timeEpochMillis : Int)
  | constantMetricsComplete
  deriving DecidableEq, Repr

inductive Op where
  | push (p : Push)
  | pop
  deriving DecidableEq, Repr

def push (s : State) : Push → Bool × State
  | .stackTrace ts item signum threadState timeTsc =>
    pushStackTrace s ts item signum threadState timeTsc
  | .thread name threadId => pushThread s name threadId
  | .allocation allocationSize outsideTlab symbol =>
    pushAllocation s allocationSize outsideTlab symbol
  | .notification category payload value => pushNotification s category payload value
  | .metricInformation info => pushMetricInformation s info
  | .metricSamples metricSamples timeEpochMillis =>
    pushMetricSamples s metricSamples timeEpochMillis
  | .constantMetricsComplete => pushConstantMetricsComplete s

def step (s : State) : Op → Option (Answer × State)
  | .push p => some (⟨(push s p).1, []⟩, (push s p).2)
  | .pop => pop s

end Opsian.Queue.CircularQueue
