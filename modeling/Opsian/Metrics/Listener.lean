import Opsian.Lib.Table

/-! # Metric entries and what becomes of them

The readers hand entries to `InternalDataListener::recordEntries`. Each entry
gets the id of its name, a new name with a `MetricInformation` record, and the
samples of all of them go to the main queue as one record. -/
namespace Opsian.Metrics.Listener
open Opsian.Lib

inductive MetricVariability where
  | invalid
  | constant
  | monotonic
  | variable
  deriving DecidableEq, Repr

inductive MetricDataType where
  | invalid
  | long
  | string
  deriving DecidableEq, Repr

inductive MetricUnit where
  | invalid
  | none
  | bytes
  | ticks
  | events
  | string
  | hertz
  | milliseconds
  | nanoseconds
  deriving DecidableEq, Repr

structure MetricData where
  type : MetricDataType
  valueString : String
  valueLong : Int64
  deriving DecidableEq, Repr

structure MetricListenerEntry where
  name : String
  variability : MetricVariability
  unit : MetricUnit
  data : MetricData
  deriving DecidableEq, Repr

structure MetricSample where
  id : UInt32
  data : MetricData
  deriving DecidableEq, Repr

structure MetricInformation where
  name : String
  id : UInt32
  variability : MetricVariability
  dataType : MetricDataType
  unit : MetricUnit
  deriving DecidableEq, Repr

/-- The kinds of record in the main queue. -/
inductive Record where
  | notification (category : Nat) (payload : String) (value : Int)
  | metricInformation (info : MetricInformation)
  | metricSamples (timeEpochMillis : Int) (samples : List MetricSample)
  | constantMetricsComplete
  deriving DecidableEq, Repr

def durationName : String := "opsian.metrics.read_duration"

def durationId : UInt32 := 1

def durationInfo : MetricInformation where
  name := durationName
  id := durationId
  variability := .variable
  dataType := .long
  unit := .nanoseconds

/-- The samples of `sendDuration`. -/
def durationSamples (durationInMs : Int64) : List MetricSample :=
  [⟨durationId, ⟨.long, "", durationInMs⟩⟩]

/-- The id `findOrCreateMetricId` gives to a name that is not in the map. -/
def nextMetricId (ids : Table String UInt32) : UInt32 := UInt32.ofNat ids.size + 1

def MetricListenerEntry.information (e : MetricListenerEntry) (id : UInt32) :
    MetricInformation where
  name := e.name
  id := id
  variability := e.variability
  dataType := e.data.type
  unit := e.unit

/-- The loop of `attemptRecordEntries` over the new entries and then the ones to
retry: what is left, the samples so far and the constants that failed. -/
structure Batch where
  todo : List MetricListenerEntry
  samples : List MetricSample
  failed : List MetricListenerEntry
  deriving DecidableEq, Repr

/-- One entry is done, with the id it got; 0 stands for a failed push. -/
def Batch.finish (b : Batch) (e : MetricListenerEntry) (todo : List MetricListenerEntry)
    (id : UInt32) : Batch :=
  if id = 0 then
    { b with
      todo := todo
      failed := if e.variability = .constant then b.failed ++ [e] else b.failed }
  else { b with todo := todo, samples := b.samples ++ [⟨id, e.data⟩] }

end Opsian.Metrics.Listener
