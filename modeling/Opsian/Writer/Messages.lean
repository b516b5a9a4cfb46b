import Opsian.Writer.LogWriter

/-! # The messages of the agent

The part of `data.proto` that the agent's writers fill in while they run, with what
protobuf generates for it. A new message has all fields at their defaults, and `mutable_`
of a member of the `oneof` keeps the message that is there already, and replaces another. -/
namespace Opsian.Writer.Messages
open Opsian.Writer.LogWriter (CompressedFrameEntry SampleTimeType)

structure FrameEntry where
  module : String
  line : UInt32
  method : String
  filename : String
  deriving DecidableEq, Repr

structure StackSample where
  type : SampleTimeType
  sampleRateMillis : UInt64
  frames : List FrameEntry
  timeEpochMillis : UInt64
  threadId : Int32
  threadName : String
  hasMaxFrames : Bool
  errorCode : Int
  compressedFrames : List CompressedFrameEntry
  threadState : Int
  wallclockScanId : Int32
  originalTimeEpochMillis : UInt64
  symbol : UInt64
  deriving DecidableEq, Repr

structure MethodInformation where
  methodId : Int64
  moduleId : Int64
  methodName : String
  deriving DecidableEq, Repr

structure ModuleInformation where
  moduleId : Int64
  moduleName : String
  filename : String
  deriving DecidableEq, Repr

inductive MetricVariability where
  | unknownVariability
  | constant
  | variable
  | counter
  deriving DecidableEq, Repr

inductive MetricDataType where
  | unknownType
  | string
  | long
  deriving DecidableEq, Repr

inductive MetricUnit where
  | unknownUnit
  | none
  | bytes
  | ticks
  | events
  | unitString
  | hertz
  | milliseconds
  | nanoseconds
  deriving DecidableEq, Repr

structure MetricInformation where
  metricId : UInt32
  name : String
  variability : MetricVariability
  dataType : MetricDataType
  unit : MetricUnit
  deriving DecidableEq, Repr

inductive MetricValue where
  | notSet
  | longValue (value : Int64)
  | stringValue (value : String)
  deriving DecidableEq, Repr

structure MetricSample where
  metricId : UInt32
  value : MetricValue
  deriving DecidableEq, Repr

structure MetricSamples where
  timeEpochMillis : UInt64
  samples : List MetricSample
  deriving DecidableEq, Repr

structure AllocationRow where
  symbol : UInt64
  numberOfAllocations : UInt32
  totalBytesAllocated : UInt64
  outsideTlab : Bool
  deriving DecidableEq, Repr

structure AllocationTable where
  timeEpochMillis : UInt64
  rows : List AllocationRow
  deriving DecidableEq, Repr

structure AgentStatistics where
  allocationEnqueueFailures : UInt32
  cputimeEnqueueFailures : UInt32
  wallclockEnqueueFailures : UInt32
  threadIdDenials : UInt32
  hsPerfErrors : UInt32
  hsPerfWarnings : UInt32
  cpuMetricErrors : UInt32
  cpuMetricWarnings : UInt32
  metricEnqueueFailures : UInt32
  allocationStackTraceEnqueueFailures : UInt32
  deriving DecidableEq, Repr

inductive NotificationCategory where
  | userWarning
  | userError
  | infoLogging
  deriving DecidableEq, Repr

structure Notification where
  payload : String
  category : NotificationCategory
  deriving DecidableEq, Repr

/-- An `AgentEnvelope` by the active case of its `oneof`. -/
inductive AgentEnvelope where
  | notSet
  | stackSample (message : StackSample)
  | heartbeat (time : UInt64)
  | methodInformation (message : MethodInformation)
  | moduleInformation (message : ModuleInformation)
  | allocationTable (message : AllocationTable)
  | agentStatistics (message : AgentStatistics)
  | notification (message : Notification)
  | metricInformation (message : MetricInformation)
  | metricSamples (message : MetricSamples)
  | constantMetricsComplete
  deriving DecidableEq, Repr

namespace AgentEnvelope

def mutableStackSample : AgentEnvelope → StackSample
  | .stackSample message => message
  | _ => ⟨.elapsedTime, 0, [], 0, 0, "", false, 0, [], 0, 0, 0, 0⟩

def mutableMethodInformation : AgentEnvelope → MethodInformation
  | .methodInformation message => message
  | _ => ⟨0, 0, ""⟩

def mutableModuleInformation : AgentEnvelope → ModuleInformation
  | .moduleInformation message => message
  | _ => ⟨0, "", ""⟩

def mutableAllocationTable : AgentEnvelope → AllocationTable
  | .allocationTable message => message
  | _ => ⟨0, []⟩

def mutableAgentStatistics : AgentEnvelope → AgentStatistics
  | .agentStatistics message => message
  | _ => ⟨0, 0, 0, 0, 0, 0, 0, 0, 0, 0⟩

def mutableNotification : AgentEnvelope → Notification
  | .notification message => message
  | _ => ⟨"", .userWarning⟩

def mutableMetricInformation : AgentEnvelope → MetricInformation
  | .metricInformation message => message
  | _ => ⟨0, "", .unknownVariability, .unknownType, .unknownUnit⟩

def mutableMetricSamples : AgentEnvelope → MetricSamples
  | .metricSamples message => message
  | _ => ⟨0, []⟩

end AgentEnvelope

end Opsian.Writer.Messages
