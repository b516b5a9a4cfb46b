import Opsian.Prometheus.Exporter

/-! # The log writer

The queue listener of the collector's side turns a stack trace into a
`StackSample`, whose frames name methods by their ids. The time and the thread
of a sample are left out. -/
namespace Opsian.Writer.LogWriter
open Opsian.Prometheus.Exporter (CallFrame CallTrace numberOfSignalHandlerFrames sigprof)
open Opsian.Symbols.SymbolTable (Location)

inductive SampleTimeType where
  | processTime
  | elapsedTime
  | allocation
  deriving DecidableEq, Repr

structure CompressedFrameEntry where
  methodId : Int64
  line : UInt32
  deriving DecidableEq, Repr

structure StackSample where
  type : SampleTimeType
  sampleRateMillis : UInt64
  threadState : Int
  compressedFrames : List CompressedFrameEntry
  errorCode : Int
  hasMaxFrames : Bool
  deriving DecidableEq, Repr

/-- What the controller tells of the sampling in force. -/
structure Intervals where
  processTimeStackSampleIntervalMillis : UInt64
  elapsedTimeStackSampleIntervalMillis : UInt64
  deriving DecidableEq, Repr

def maxFrames : Nat := 256

def sigalrm : Int := 14

def setSampleType (controller : Intervals) (signum : Int) : SampleTimeType × UInt64 :=
  if signum = sigprof then
    (.processTime, controller.processTimeStackSampleIntervalMillis)
  else if signum = sigalrm then
    (.elapsedTime, controller.elapsedTimeStackSampleIntervalMillis)
  else (.allocation, 0)

def entry (location : Location) : CompressedFrameEntry :=
  ⟨location.methodId.toInt64, UInt32.ofInt location.lineNumber⟩

/-- The entries of one frame. A trace with an error is only logged. -/
def addFrames (isError : Bool) (locations : List Location) : List CompressedFrameEntry :=
  if isError then [] else locations.map entry

/-- The frames the walk of a trace reads, from the innermost out. -/
def readFrames (trace : CallTrace) : List CallFrame :=
  (trace.frames.take trace.numFrames.natAbs).drop numberOfSignalHandlerFrames

/-- The sample a trace becomes, where `locationsOf` is what `lookup_locations` answers. -/
def recordStackTrace (locationsOf : CallFrame → List Location) (controller : Intervals)
    (trace : CallTrace) (signum threadState : Int) : StackSample :=
  let isError := decide (trace.numFrames < 0)
  { type := (setSampleType controller signum).1
    sampleRateMillis := (setSampleType controller signum).2
    threadState
    compressedFrames :=
      (readFrames trace).flatMap fun frame => addFrames isError (locationsOf frame)
    errorCode := if isError then trace.numFrames else 0
    hasMaxFrames := decide (maxFrames ≤ trace.numFrames.natAbs) }

/-- The locations whose method ids are sent. -/
def sentLocations (locationsOf : CallFrame → List Location) (trace : CallTrace) : List Location :=
  if trace.numFrames < 0 then [] else (readFrames trace).flatMap locationsOf

theorem recordStackTrace_frames (locationsOf : CallFrame → List Location) (controller : Intervals)
    (trace : CallTrace) (signum threadState : Int) :
    (recordStackTrace locationsOf controller trace signum threadState).compressedFrames =
      (sentLocations locationsOf trace).map entry := by
  unfold recordStackTrace sentLocations addFrames
  by_cases h : trace.numFrames < 0
  · simp [h]
  · simp [h, List.map_flatMap]

end Opsian.Writer.LogWriter
