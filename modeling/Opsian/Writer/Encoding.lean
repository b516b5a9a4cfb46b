import Opsian.Lib.WireFormat
import Opsian.Protocol.Handler
import Opsian.Writer.Envelopes

/-! # The bytes the agent sends

`data.proto` as a schema, and what `sendWithSize` makes of an envelope: its length and
then its bytes, in a buffer with room for the longest header. The log file is a sequence of
the same frames. A reader of the schema takes such a sequence apart again, whichever
envelopes got lost on the way. -/
namespace Opsian.Writer.Encoding
open Opsian.Lib Opsian.Lib.Simulation Opsian.Lib.WireFormat
open Opsian.Protocol.Handler (maxHeaderSize)
open Opsian.Writer.Envelopes Opsian.Writer.Messages
open Opsian.Writer.LogWriter (CompressedFrameEntry SampleTimeType)

/-! ## Enumerations and integers -/

/-- The enumerators of a type, by their numbers. -/
def enumeration {α : Type} [DecidableEq α] (values : List α)
    (h : ∀ a, values[(UInt64.ofNat (values.idxOf a)).toNat]? = some a) : Codec α :=
  Codec.number (fun a => UInt64.ofNat (values.idxOf a)) (fun n => values[n.toNat]?) h

/-- The value of an `int`. -/
def IsInt (n : Int) : Prop := -2 ^ 31 ≤ n ∧ n < 2 ^ 31

instance (n : Int) : Decidable (IsInt n) := inferInstanceAs (Decidable (_ ∧ _))

theorem isInt_zero : IsInt 0 := by decide

/-- An `int32` member that the model keeps as an integer. -/
def int : Codec Int where
  valid := IsInt
  accepted _ := true
  toValue n := Codec.int32.toValue (Int32.ofInt n)
  ofValue v := (Codec.int32.ofValue v).map Int32.toInt
  ofValue_toValue n h := by
    have hread : Codec.int32.ofValue (Codec.int32.toValue (Int32.ofInt n)) =
        some (Int32.ofInt n) := Codec.int32.ofValue_toValue _ trivial
    rw [hread, Option.map_some, if_pos rfl,
      Int32.toInt_ofInt_of_le h.1 (by have := h.2; omega)]

def sampleTimeType : Codec SampleTimeType :=
  enumeration [.elapsedTime, .processTime, .allocation] fun a => by cases a <;> rfl

def metricVariability : Codec MetricVariability :=
  enumeration [.unknownVariability, .constant, .variable, .counter] fun a => by cases a <;> rfl

def metricDataType : Codec MetricDataType :=
  enumeration [.unknownType, .string, .long] fun a => by cases a <;> rfl

def metricUnit : Codec MetricUnit :=
  enumeration [.unknownUnit, .none, .bytes, .ticks, .events, .unitString, .hertz, .milliseconds,
    .nanoseconds] fun a => by cases a <;> rfl

def notificationCategory : Codec NotificationCategory :=
  enumeration [.userWarning, .userError, .infoLogging] fun a => by cases a <;> rfl

/-! ## The hello -/

inductive AgentType where
  | unknown
  | python
  | ruby
  | java
  | csharp
  | node
  | ocaml
  | haskell
  | go
  deriving DecidableEq, Repr

inductive PersonalityType where
  | jvm
  | ocaml
  deriving DecidableEq, Repr

structure Context where
  agentId : String
  hostName : String
  platformVersion : String
  applicationVersion : String
  agentVersion : UInt32
  agentType : AgentType
  hardwareThreadCount : UInt32
  agentGitString : String
  buildType : String
  id : Int64
  timezoneName : String
  timezoneOffsetSeconds : Int64
  personality : PersonalityType
  deriving DecidableEq, Repr

structure Hello where
  apiKey : String
  processId : Int32
  context : Option Context
  deriving DecidableEq, Repr

/-- What the controller and the process know of themselves. -/
structure Agent where
  apiKey : String
  processId : Int32
  agentId : String
  agentVersion : UInt32
  hostname : String
  ocamlVersion : String
  processorCount : UInt32
  applicationVersion : String
  gitStr : String
  buildType : String
  timezoneName : String
  timezoneOffsetSeconds : Int64
  deriving DecidableEq, Repr

/-- The message that `sendHello` fills in. -/
def sendHello (a : Agent) : Hello where
  apiKey := a.apiKey
  processId := a.processId
  context := some {
    agentId := if a.agentId = "" then "" else a.agentId
    hostName := a.hostname
    platformVersion := a.ocamlVersion
    applicationVersion := if a.applicationVersion = "" then "" else a.applicationVersion
    agentVersion := a.agentVersion
    agentType := .ocaml
    hardwareThreadCount := a.processorCount
    agentGitString := a.gitStr
    buildType := a.buildType
    id := 0
    timezoneName := a.timezoneName
    timezoneOffsetSeconds := a.timezoneOffsetSeconds
    personality := .ocaml }

def agentType : Codec AgentType :=
  enumeration [.unknown, .python, .ruby, .java, .csharp, .node, .ocaml, .haskell, .go]
    fun a => by cases a <;> rfl

def personalityType : Codec PersonalityType :=
  enumeration [.jvm, .ocaml] fun a => by cases a <;> rfl

/-! ## The schema -/

def context : Message Context where
  empty := ⟨"", "", "", "", 0, .unknown, 0, "", "", 0, "", 0, .jvm⟩
  members := [
    .singular .string "" 2 (·.agentId) (fun s a => { s with agentId := a }) fun _ => rfl,
    .singular .string "" 3 (·.hostName) (fun s a => { s with hostName := a }) fun _ => rfl,
    .singular .string "" 4 (·.platformVersion) (fun s a => { s with platformVersion := a })
      fun _ => rfl,
    .singular .string "" 5 (·.applicationVersion) (fun s a => { s with applicationVersion := a })
      fun _ => rfl,
    .singular .uint32 0 6 (·.agentVersion) (fun s a => { s with agentVersion := a })
      fun _ => rfl,
    .singular agentType .unknown 7 (·.agentType) (fun s a => { s with agentType := a })
      fun _ => rfl,
    .singular .uint32 0 8 (·.hardwareThreadCount) (fun s a => { s with hardwareThreadCount := a })
      fun _ => rfl,
    .singular .string "" 9 (·.agentGitString) (fun s a => { s with agentGitString := a })
      fun _ => rfl,
    .singular .string "" 10 (·.buildType) (fun s a => { s with buildType := a }) fun _ => rfl,
    .singular .int64 0 11 (·.id) (fun s a => { s with id := a }) fun _ => rfl,
    .singular .string "" 12 (·.timezoneName) (fun s a => { s with timezoneName := a })
      fun _ => rfl,
    .singular .int64 0 13 (·.timezoneOffsetSeconds)
      (fun s a => { s with timezoneOffsetSeconds := a }) fun _ => rfl,
    .singular personalityType .jvm 14 (·.personality) (fun s a => { s with personality := a })
      fun _ => rfl]
  nodup := by decide
  ready _ := by simp only [Ready, Member.singular]; trivial

def hello : Message Hello where
  empty := ⟨"", 0, none⟩
  members := [
    .singular .string "" 3 (·.apiKey) (fun s a => { s with apiKey := a }) fun _ => rfl,
    .singular .int32 0 4 (·.processId) (fun s a => { s with processId := a }) fun _ => rfl,
    .optional context.codec 9 (·.context) (fun s a => { s with context := a }) fun _ => rfl]
  nodup := by decide
  ready _ := by simp only [Ready, Member.singular, Member.optional]; trivial

def frameEntry : Message FrameEntry where
  empty := ⟨"", 0, "", ""⟩
  members := [
    .singular .string "" 1 (·.module) (fun s a => { s with module := a }) fun _ => rfl,
    .singular .uint32 0 2 (·.line) (fun s a => { s with line := a }) fun _ => rfl,
    .singular .string "" 3 (·.method) (fun s a => { s with method := a }) fun _ => rfl,
    .singular .string "" 4 (·.filename) (fun s a => { s with filename := a }) fun _ => rfl]
  nodup := by decide
  ready _ := by simp only [Ready, Member.singular]; trivial

def compressedFrameEntry : Message CompressedFrameEntry where
  empty := ⟨0, 0⟩
  members := [
    .singular .int64 0 1 (·.methodId) (fun s a => { s with methodId := a }) fun _ => rfl,
    .singular .uint32 0 2 (·.line) (fun s a => { s with line := a }) fun _ => rfl]
  nodup := by decide
  ready _ := by simp only [Ready, Member.singular]; trivial

def stackSample : Message StackSample where
  empty := AgentEnvelope.notSet.mutableStackSample
  members := [
    .singular sampleTimeType .elapsedTime 1 (·.type) (fun s a => { s with type := a })
      fun _ => rfl,
    .singular .uint64 0 2 (·.sampleRateMillis) (fun s a => { s with sampleRateMillis := a })
      fun _ => rfl,
    .repeated frameEntry.codec 3 (·.frames) (fun s a => { s with frames := a })
      (fun _ _ => rfl) (fun _ => rfl) fun _ _ _ => rfl,
    .singular .uint64 0 4 (·.timeEpochMillis) (fun s a => { s with timeEpochMillis := a })
      fun _ => rfl,
    .singular .int32 0 5 (·.threadId) (fun s a => { s with threadId := a }) fun _ => rfl,
    .singular .string "" 6 (·.threadName) (fun s a => { s with threadName := a }) fun _ => rfl,
    .singular .bool false 7 (·.hasMaxFrames) (fun s a => { s with hasMaxFrames := a })
      fun _ => rfl,
    .singular int 0 8 (·.errorCode) (fun s a => { s with errorCode := a }) fun _ => rfl,
    .repeated compressedFrameEntry.codec 9 (·.compressedFrames)
      (fun s a => { s with compressedFrames := a }) (fun _ _ => rfl) (fun _ => rfl)
      fun _ _ _ => rfl,
    .singular int 0 10 (·.threadState) (fun s a => { s with threadState := a }) fun _ => rfl,
    .singular .int32 0 11 (·.wallclockScanId) (fun s a => { s with wallclockScanId := a })
      fun _ => rfl,
    .singular .uint64 0 12 (·.originalTimeEpochMillis)
      (fun s a => { s with originalTimeEpochMillis := a }) fun _ => rfl,
    .singular .uint64 0 13 (·.symbol) (fun s a => { s with symbol := a }) fun _ => rfl]
  nodup := by decide
  ready _ := by simp only [Ready, Member.singular, Member.repeated]; trivial

def methodInformation : Message MethodInformation where
  empty := AgentEnvelope.notSet.mutableMethodInformation
  members := [
    .singular .int64 0 1 (·.methodId) (fun s a => { s with methodId := a }) fun _ => rfl,
    .singular .int64 0 2 (·.moduleId) (fun s a => { s with moduleId := a }) fun _ => rfl,
    .singular .string "" 3 (·.methodName) (fun s a => { s with methodName := a }) fun _ => rfl]
  nodup := by decide
  ready _ := by simp only [Ready, Member.singular]; trivial

def moduleInformation : Message ModuleInformation where
  empty := AgentEnvelope.notSet.mutableModuleInformation
  members := [
    .singular .int64 0 1 (·.moduleId) (fun s a => { s with moduleId := a }) fun _ => rfl,
    .singular .string "" 2 (·.moduleName) (fun s a => { s with moduleName := a }) fun _ => rfl,
    .singular .string "" 3 (·.filename) (fun s a => { s with filename := a }) fun _ => rfl]
  nodup := by decide
  ready _ := by simp only [Ready, Member.singular]; trivial

def heartbeat : Message UInt64 where
  empty := 0
  members := [.singular .uint64 0 1 id (fun _ a => a) fun _ => rfl]
  nodup := by decide
  ready _ := by simp only [Ready, Member.singular]; trivial

def allocationRow : Message AllocationRow where
  empty := ⟨0, 0, 0, false⟩
  members := [
    .singular .uint64 0 1 (·.symbol) (fun s a => { s with symbol := a }) fun _ => rfl,
    .singular .uint32 0 2 (·.numberOfAllocations)
      (fun s a => { s with numberOfAllocations := a }) fun _ => rfl,
    .singular .uint64 0 3 (·.totalBytesAllocated)
      (fun s a => { s with totalBytesAllocated := a }) fun _ => rfl,
    .singular .bool false 4 (·.outsideTlab) (fun s a => { s with outsideTlab := a })
      fun _ => rfl]
  nodup := by decide
  ready _ := by simp only [Ready, Member.singular]; trivial

def allocationTable : Message AllocationTable where
  empty := AgentEnvelope.notSet.mutableAllocationTable
  members := [
    .singular .uint64 0 1 (·.timeEpochMillis) (fun s a => { s with timeEpochMillis := a })
      fun _ => rfl,
    .repeated allocationRow.codec 2 (·.rows) (fun s a => { s with rows := a })
      (fun _ _ => rfl) (fun _ => rfl) fun _ _ _ => rfl]
  nodup := by decide
  ready _ := by simp only [Ready, Member.singular, Member.repeated]; trivial

def agentStatistics : Message AgentStatistics where
  empty := AgentEnvelope.notSet.mutableAgentStatistics
  members := [
    .singular .uint32 0 1 (·.allocationEnqueueFailures)
      (fun s a => { s with allocationEnqueueFailures := a }) fun _ => rfl,
    .singular .uint32 0 2 (·.cputimeEnqueueFailures)
      (fun s a => { s with cputimeEnqueueFailures := a }) fun _ => rfl,
    .singular .uint32 0 3 (·.wallclockEnqueueFailures)
      (fun s a => { s with wallclockEnqueueFailures := a }) fun _ => rfl,
    .singular .uint32 0 4 (·.threadIdDenials) (fun s a => { s with threadIdDenials := a })
      fun _ => rfl,
    .singular .uint32 0 5 (·.hsPerfErrors) (fun s a => { s with hsPerfErrors := a })
      fun _ => rfl,
    .singular .uint32 0 6 (·.hsPerfWarnings) (fun s a => { s with hsPerfWarnings := a })
      fun _ => rfl,
    .singular .uint32 0 7 (·.cpuMetricErrors) (fun s a => { s with cpuMetricErrors := a })
      fun _ => rfl,
    .singular .uint32 0 8 (·.cpuMetricWarnings) (fun s a => { s with cpuMetricWarnings := a })
      fun _ => rfl,
    .singular .uint32 0 9 (·.metricEnqueueFailures)
      (fun s a => { s with metricEnqueueFailures := a }) fun _ => rfl,
    .singular .uint32 0 10 (·.allocationStackTraceEnqueueFailures)
      (fun s a => { s with allocationStackTraceEnqueueFailures := a }) fun _ => rfl]
  nodup := by decide
  ready _ := by simp only [Ready, Member.singular]; trivial

def notification : Message Notification where
  empty := AgentEnvelope.notSet.mutableNotification
  members := [
    .singular .string "" 1 (·.payload) (fun s a => { s with payload := a }) fun _ => rfl,
    .singular notificationCategory .userWarning 2 (·.category)
      (fun s a => { s with category := a }) fun _ => rfl]
  nodup := by decide
  ready _ := by simp only [Ready, Member.singular]; trivial

def metricInformation : Message MetricInformation where
  empty := AgentEnvelope.notSet.mutableMetricInformation
  members := [
    .singular .uint32 0 1 (·.metricId) (fun s a => { s with metricId := a }) fun _ => rfl,
    .singular .string "" 2 (·.name) (fun s a => { s with name := a }) fun _ => rfl,
    .singular metricVariability .unknownVariability 3 (·.variability)
      (fun s a => { s with variability := a }) fun _ => rfl,
    .singular metricDataType .unknownType 4 (·.dataType) (fun s a => { s with dataType := a })
      fun _ => rfl,
    .singular metricUnit .unknownUnit 5 (·.unit) (fun s a => { s with unit := a })
      fun _ => rfl]
  nodup := by decide
  ready _ := by simp only [Ready, Member.singular]; trivial

def acceptedValue : MetricValue → Bool
  | .stringValue value => Codec.string.accepted value
  | .notSet | .longValue _ => true

/-- The `oneof` of a sample; its member is written even at its default. -/
def metricValue : Member MetricSample where
  numbers := [2, 3]
  valid _ := True
  accepted m := acceptedValue m.value
  write m :=
    match m.value with
    | .notSet => []
    | .longValue value => [⟨2, Codec.int64.toValue value⟩]
    | .stringValue value => [⟨3, Codec.string.toValue value⟩]
  read s f :=
    match f.number with
    | 2 => (Codec.int64.ofValue f.value).map fun a => { s with value := .longValue a }
    | 3 => (Codec.string.ofValue f.value).map fun a => { s with value := .stringValue a }
    | _ => none
  fresh s := s.value = .notSet
  copy m s := { s with value := m.value }
  owns m f hf := by
    split at hf
    · cases hf
    · rw [List.mem_singleton.mp hf]
      exact List.mem_cons_self
    · rw [List.mem_singleton.mp hf]
      exact List.mem_cons_of_mem _ List.mem_cons_self
  reads m s _ hfresh := by
    split
    · rename_i hvalue
      rw [hvalue]
      show some s = some { s with value := .notSet }
      rw [← hfresh]
    · rename_i value hvalue
      rw [hvalue, List.foldlM_cons]
      simp only [Codec.int64.ofValue_toValue value trivial]
      rfl
    · rename_i value hvalue
      rw [hvalue, List.foldlM_cons, acceptedValue]
      simp only [Codec.string.ofValue_toValue value trivial]
      cases Codec.string.accepted value <;> rfl

def metricSample : Message MetricSample where
  empty := ⟨0, .notSet⟩
  members := [
    .singular .uint32 0 1 (·.metricId) (fun s a => { s with metricId := a }) fun _ => rfl,
    metricValue]
  nodup := by decide
  ready _ := by simp only [Ready, Member.singular, metricValue]; trivial

def metricSamples : Message MetricSamples where
  empty := AgentEnvelope.notSet.mutableMetricSamples
  members := [
    .singular .uint64 0 1 (·.timeEpochMillis) (fun s a => { s with timeEpochMillis := a })
      fun _ => rfl,
    .repeated metricSample.codec 2 (·.samples) (fun s a => { s with samples := a })
      (fun _ _ => rfl) (fun _ => rfl) fun _ _ _ => rfl]
  nodup := by decide
  ready _ := by simp only [Ready, Member.singular, Member.repeated]; trivial

def constantMetricsComplete : Message Unit where
  empty := ()
  members := []
  nodup := by decide
  ready _ := rfl

/-! ## Envelopes -/

/-- What the agent sends in an envelope. -/
inductive Downstream where
  | hello (message : Hello)
  | agent (envelope : AgentEnvelope)
  deriving DecidableEq, Repr

/-- The `oneof` of an `AgentEnvelope`. -/
def downstreamFields : Downstream → List Field
  | .hello message => [⟨4, hello.codec.toValue message⟩]
  | .agent .notSet => []
  | .agent (.stackSample message) => [⟨5, stackSample.codec.toValue message⟩]
  | .agent (.heartbeat time) => [⟨8, heartbeat.codec.toValue time⟩]
  | .agent (.methodInformation message) => [⟨9, methodInformation.codec.toValue message⟩]
  | .agent (.moduleInformation message) => [⟨10, moduleInformation.codec.toValue message⟩]
  | .agent (.allocationTable message) => [⟨12, allocationTable.codec.toValue message⟩]
  | .agent (.agentStatistics message) => [⟨14, agentStatistics.codec.toValue message⟩]
  | .agent (.notification message) => [⟨15, notification.codec.toValue message⟩]
  | .agent (.metricInformation message) => [⟨16, metricInformation.codec.toValue message⟩]
  | .agent (.metricSamples message) => [⟨17, metricSamples.codec.toValue message⟩]
  | .agent .constantMetricsComplete => [⟨18, constantMetricsComplete.codec.toValue ()⟩]

/-- Of more than one member the last one counts. -/
def readDownstream (f : Field) : Option Downstream :=
  match f.number with
  | 4 => (hello.codec.ofValue f.value).map .hello
  | 5 => (stackSample.codec.ofValue f.value).map fun m => .agent (.stackSample m)
  | 8 => (heartbeat.codec.ofValue f.value).map fun time => .agent (.heartbeat time)
  | 9 => (methodInformation.codec.ofValue f.value).map fun m => .agent (.methodInformation m)
  | 10 => (moduleInformation.codec.ofValue f.value).map fun m => .agent (.moduleInformation m)
  | 12 => (allocationTable.codec.ofValue f.value).map fun m => .agent (.allocationTable m)
  | 14 => (agentStatistics.codec.ofValue f.value).map fun m => .agent (.agentStatistics m)
  | 15 => (notification.codec.ofValue f.value).map fun m => .agent (.notification m)
  | 16 => (metricInformation.codec.ofValue f.value).map fun m => .agent (.metricInformation m)
  | 17 => (metricSamples.codec.ofValue f.value).map fun m => .agent (.metricSamples m)
  | 18 => (constantMetricsComplete.codec.ofValue f.value).map fun _ =>
    .agent .constantMetricsComplete
  | _ => none

/-- The members that the writer keeps as integers are of type `int32`. -/
def Downstream.Fits : Downstream → Prop
  | .agent (.stackSample m) => IsInt m.errorCode ∧ IsInt m.threadState
  | _ => True

/-- All strings of the envelope are UTF-8, which is what the reader of the schema asks of
them, and the writer does not. -/
def Downstream.accepted : Downstream → Bool
  | .hello message => Encoding.hello.accepted message
  | .agent .notSet => true
  | .agent (.stackSample message) => stackSample.accepted message
  | .agent (.heartbeat time) => heartbeat.accepted time
  | .agent (.methodInformation message) => methodInformation.accepted message
  | .agent (.moduleInformation message) => moduleInformation.accepted message
  | .agent (.allocationTable message) => allocationTable.accepted message
  | .agent (.agentStatistics message) => agentStatistics.accepted message
  | .agent (.notification message) => notification.accepted message
  | .agent (.metricInformation message) => metricInformation.accepted message
  | .agent (.metricSamples message) => metricSamples.accepted message
  | .agent .constantMetricsComplete => constantMetricsComplete.accepted ()

def encode (d : Downstream) : List UInt8 := writeFields (downstreamFields d)

/-- `sendWithSize`, up to the write: the length and the bytes of the envelope, in a buffer
with room for the longest header. -/
def serialize (d : Downstream) : Option (List UInt8) :=
  let maxSize := maxHeaderSize + (encode d).length
  if maxSize < 2 ^ 31 ∧ (delimit (encode d)).length ≤ maxSize then some (delimit (encode d))
  else none

/-- The collector's reader of an envelope. -/
def readEnvelope (bytes : List UInt8) : Option Downstream :=
  (readFields bytes).bind fun fs =>
    fs.foldlM (fun _ f => readDownstream f) (.agent .notSet)

/-- The collector's reader of a connection. -/
def readStream (bytes : List UInt8) : Option (List Downstream) :=
  (readAll readDelimited bytes.length bytes).bind fun bodies => bodies.mapM readEnvelope

/-! ## What is valid -/

theorem context_valid (m : Context) : context.Valid m :=
  ⟨trivial, trivial, trivial, trivial, trivial, trivial, trivial, trivial, trivial, trivial,
    trivial, trivial, trivial⟩

theorem hello_valid (m : Hello) : hello.Valid m :=
  ⟨trivial, trivial, fun a _ => context_valid a⟩

theorem frameEntry_valid (m : FrameEntry) : frameEntry.Valid m :=
  ⟨trivial, trivial, trivial, trivial⟩

theorem compressedFrameEntry_valid (m : CompressedFrameEntry) : compressedFrameEntry.Valid m :=
  ⟨trivial, trivial⟩

theorem stackSample_valid {m : StackSample} (herror : IsInt m.errorCode)
    (hstate : IsInt m.threadState) : stackSample.Valid m :=
  ⟨trivial, trivial, fun a _ => frameEntry_valid a, trivial, trivial, trivial, trivial, herror,
    fun a _ => compressedFrameEntry_valid a, hstate, trivial, trivial, trivial⟩

theorem allocationRow_valid (m : AllocationRow) : allocationRow.Valid m :=
  ⟨trivial, trivial, trivial, trivial⟩

theorem metricSample_valid (m : MetricSample) : metricSample.Valid m := ⟨trivial, trivial⟩

/-! ## Reading back -/

/-- The one field that is written for an envelope is read as the envelope, or refused. -/
theorem readDownstream_field {d : Downstream} (h : d.Fits) (hset : d ≠ .agent .notSet) :
    ∃ f, downstreamFields d = [f] ∧
      readDownstream f = if d.accepted then some d else none := by
  have hread {σ : Type} (M : Message σ) (make : σ → Downstream) {m : σ} (hm : M.Valid m) :
      (M.codec.ofValue (M.codec.toValue m)).map make =
        if M.accepted m then some (make m) else none := by
    rw [M.codec.ofValue_toValue m hm]
    show (if M.accepted m then some m else none).map make = _
    cases M.accepted m <;> rfl
  cases d with
  | hello message => exact ⟨_, rfl, hread hello .hello (hello_valid message)⟩
  | agent envelope =>
    cases envelope with
    | notSet => exact absurd rfl hset
    | stackSample message =>
      exact ⟨_, rfl, hread stackSample (fun m => .agent (.stackSample m))
        (stackSample_valid h.1 h.2)⟩
    | heartbeat time =>
      exact ⟨_, rfl, hread heartbeat (fun time => .agent (.heartbeat time)) trivial⟩
    | methodInformation message =>
      exact ⟨_, rfl, hread methodInformation (fun m => .agent (.methodInformation m))
        ⟨trivial, trivial, trivial⟩⟩
    | moduleInformation message =>
      exact ⟨_, rfl, hread moduleInformation (fun m => .agent (.moduleInformation m))
        ⟨trivial, trivial, trivial⟩⟩
    | allocationTable message =>
      exact ⟨_, rfl, hread allocationTable (fun m => .agent (.allocationTable m))
        ⟨trivial, fun row _ => allocationRow_valid row⟩⟩
    | agentStatistics message =>
      exact ⟨_, rfl, hread agentStatistics (fun m => .agent (.agentStatistics m))
        ⟨trivial, trivial, trivial, trivial, trivial, trivial, trivial, trivial, trivial, trivial⟩⟩
    | notification message =>
      exact ⟨_, rfl, hread notification (fun m => .agent (.notification m)) ⟨trivial, trivial⟩⟩
    | metricInformation message =>
      exact ⟨_, rfl, hread metricInformation (fun m => .agent (.metricInformation m))
        ⟨trivial, trivial, trivial, trivial, trivial⟩⟩
    | metricSamples message =>
      exact ⟨_, rfl, hread metricSamples (fun m => .agent (.metricSamples m))
        ⟨trivial, fun sample _ => metricSample_valid sample⟩⟩
    | constantMetricsComplete =>
      exact ⟨_, rfl, hread constantMetricsComplete (fun _ => .agent .constantMetricsComplete)
        (m := ()) trivial⟩

/-- An envelope is read back as the case and the message that were written. -/
theorem readEnvelope_encode {d : Downstream} (h : d.Fits) :
    readEnvelope (encode d) = if d.accepted then some d else none := by
  rw [readEnvelope, encode, readFields_writeFields, Option.bind_some]
  by_cases hset : d = .agent .notSet
  · subst hset
    rfl
  · obtain ⟨f, hfields, hread⟩ := readDownstream_field h hset
    rw [hfields, List.foldlM_cons, hread]
    cases d.accepted <;> rfl

/-- The room for a header of five bytes is enough for every length that is an `int`. -/
theorem serialize_eq {d : Downstream} (hsize : maxHeaderSize + (encode d).length < 2 ^ 31) :
    serialize d = some (delimit (encode d)) := by
  have hheader := Varint.length_encode_le 4 (encode d).length (by omega)
  refine if_pos ⟨hsize, ?_⟩
  rw [delimit, List.length_append]
  exact Nat.add_le_add_right hheader _

/-- A connection is read back envelope by envelope, up to one that is refused. -/
theorem readStream_serialize {ds : List Downstream} (hfits : ∀ d ∈ ds, d.Fits)
    (hsize : ∀ d ∈ ds, maxHeaderSize + (encode d).length < 2 ^ 31) :
    ∃ chunks, ds.mapM serialize = some chunks ∧
      readStream chunks.flatten = if ds.all Downstream.accepted then some ds else none := by
  refine ⟨_, mapM_eq_some fun d hd => serialize_eq (hsize d hd), ?_⟩
  have hchunks : (ds.map fun d => delimit (encode d)).flatten =
      (ds.map encode).flatMap delimit := by
    rw [List.flatMap_def, List.map_map]
    rfl
  have hread : ds.mapM (readEnvelope ∘ encode) =
      if ds.all Downstream.accepted then some (ds.map id) else none :=
    mapM_eq_ite fun d hd => readEnvelope_encode (hfits d hd)
  rw [readStream, hchunks, readAll_delimit, Option.bind_some, List.mapM_map, hread, List.map_id]

/-! ## What the writer hands over -/

/-- The trace is one that `recordStackTrace` can be called with. -/
def CallFits : Envelopes.Label → Prop
  | .recordStackTrace c => IsInt c.trace.numFrames ∧ IsInt c.threadState
  | _ => True

theorem fits_mutableStackSample {e : AgentEnvelope} (h : (Downstream.agent e).Fits) :
    IsInt e.mutableStackSample.errorCode ∧ IsInt e.mutableStackSample.threadState := by
  cases e with
  | stackSample m => exact h
  | _ => exact ⟨isInt_zero, isInt_zero⟩

/-- A change to the sample that leaves its numbers alone. -/
theorem fits_modify {s : Envelopes.State} (h : (Downstream.agent s.frameAgentEnvelope).Fits)
    {f : StackSample → StackSample} (herror : ∀ m, (f m).errorCode = m.errorCode)
    (hstate : ∀ m, (f m).threadState = m.threadState) :
    (Downstream.agent (modify s f)).Fits := by
  obtain ⟨he, hs⟩ := fits_mutableStackSample h
  exact ⟨by rw [herror]; exact he, by rw [hstate]; exact hs⟩

theorem fits_setSample {s : Envelopes.State} {c : StackTrace} (m : StackSample)
    (h : CallFits (.recordStackTrace c)) :
    (Downstream.agent (.stackSample (setSample s c m))).Fits := by
  refine ⟨?_, h.2⟩
  show IsInt (if c.trace.numFrames < 0 then c.trace.numFrames else 0)
  split
  · exact h.1
  · exact isInt_zero

/-- What one call hands over fits, and so does what it leaves half written. -/
theorem fits_next {s t : Envelopes.State} {a : Envelopes.Label} {out : List AgentEnvelope}
    (h : (Downstream.agent s.frameAgentEnvelope).Fits) (ha : CallFits a)
    (hs : step .reused s a = some (out, t)) :
    (Downstream.agent t.frameAgentEnvelope).Fits ∧ ∀ e ∈ out, (Downstream.agent e).Fits := by
  have honly {e : AgentEnvelope} (he : (Downstream.agent e).Fits) :
      ∀ e' ∈ [e], (Downstream.agent e').Fits := by
    intro e' he'
    rw [List.mem_singleton.mp he']
    exact he
  have hnone : ∀ e ∈ ([] : List AgentEnvelope), (Downstream.agent e).Fits := fun e he => by cases he
  cases a with
  | recordStackTrace c =>
    obtain ⟨-, he⟩ := Envelopes.idle_eq_some.mp hs
    cases he
    exact ⟨fits_setSample _ ha, hnone⟩
  | lookedUp locations =>
    obtain ⟨_, _, _, _, -, hx⟩ := Envelopes.step_lookedUp hs
    cases hx
    exact ⟨fits_modify h (fun _ => rfl) fun _ => rfl, hnone⟩
  | endStackTrace =>
    obtain ⟨_, numFrames, -, hx⟩ := Envelopes.step_endStackTrace hs
    cases hx
    have hfits := fits_modify h (f := setHasMaxFrames numFrames) (fun _ => rfl) fun _ => rfl
    exact ⟨hfits, honly hfits⟩
  | onNewFile | onNewFunction =>
    cases hs
    exact ⟨h, honly trivial⟩
  | recordNotification category initialPayload value =>
    obtain ⟨-, he⟩ := Envelopes.idle_eq_some.mp hs
    unfold Envelopes.recordNotification at he
    split at he
    · cases he
      exact ⟨trivial, honly trivial⟩
    · cases he
      exact ⟨h, hnone⟩
  | recordMetricInformation | recordMetricSamples | recordConstantMetricsComplete =>
    obtain ⟨-, he⟩ := Envelopes.idle_eq_some.mp hs
    cases he
    exact ⟨trivial, honly trivial⟩
  | recordAllocation =>
    obtain ⟨-, he⟩ := Envelopes.idle_eq_some.mp hs
    cases he
    exact ⟨h, hnone⟩
  | recordAllocationTable | sendHeartbeat | onAgentStatisticsTimer =>
    cases hs
    exact ⟨h, honly trivial⟩
  | onSampleRate controller first =>
    cases first with
    | true =>
      cases hs
      refine ⟨h, fun e he => ?_⟩
      rw [stashedEnvelopes_eq] at he
      obtain ⟨n, -, rfl⟩ := List.mem_map.mp he
      exact trivial
    | false =>
      cases hs
      exact ⟨h, hnone⟩
  | onDisconnect =>
    cases hs
    exact ⟨h, hnone⟩

/-- **What is written on a connection is read back**: the hello, and whichever of the
envelopes of a run of the log writer and its timers are sent, in their order. All are written,
and a string in one of them that is not UTF-8 makes the reader refuse them. -/
theorem connection_read_back (agent : Agent) {calls : List Envelopes.Label}
    (hcalls : ∀ a ∈ calls, CallFits a) {handed : List (List AgentEnvelope)}
    (hrun : (exec (step .reused) init calls).map Prod.fst = some handed)
    {sent : List AgentEnvelope} (hsent : sent.Sublist handed.flatten)
    (hsize : ∀ d ∈ .hello (sendHello agent) :: sent.map .agent,
      maxHeaderSize + (encode d).length < 2 ^ 31) :
    ∃ chunks, (.hello (sendHello agent) :: sent.map .agent).mapM serialize = some chunks ∧
      readStream chunks.flatten =
        if (.hello (sendHello agent) :: sent.map .agent).all Downstream.accepted then
          some (.hello (sendHello agent) :: sent.map .agent)
        else none := by
  obtain ⟨⟨handed, s⟩, hexec, rfl⟩ := Option.map_eq_some_iff.mp hrun
  have hinit : (Downstream.agent init.frameAgentEnvelope).Fits := trivial
  obtain ⟨-, hhanded⟩ := exec_invariant (fun s a b t hi hok hs => fits_next hi hok hs) hinit
    hcalls hexec
  refine readStream_serialize (fun d hd => ?_) hsize
  rcases List.mem_cons.mp hd with rfl | hd
  · exact trivial
  · obtain ⟨e, he, rfl⟩ := List.mem_map.mp hd
    obtain ⟨out, hout, he⟩ := List.mem_flatten.mp (hsent.subset he)
    exact hhanded out hout e he

/-- The name of a function, in Latin-1. -/
example : (Downstream.agent (.methodInformation ⟨1, 0, "caf\u00e9"⟩)).accepted = false := by decide

/-- The sample of a trace that could not be walked, with a negative number in it. -/
theorem broken_trace_read_back :
    ∃ chunks, (.hello (sendHello ⟨"key", 7, "", 1, "host", "5.0.0", 1, "", "", "", "", 0⟩) ::
        [AgentEnvelope.stackSample
          ⟨.processTime, 0, [], 2000, 3, "main", false, -1, [], 0, 0, 0, 0⟩].map .agent).mapM
            serialize = some chunks ∧
      readStream chunks.flatten =
        some (.hello (sendHello ⟨"key", 7, "", 1, "host", "5.0.0", 1, "", "", "", "", 0⟩) ::
          [AgentEnvelope.stackSample
            ⟨.processTime, 0, [], 2000, 3, "main", false, -1, [], 0, 0, 0, 0⟩].map .agent) := by
  have hrun : (exec (step .reused) init [.recordStackTrace
      ⟨⟨2, 0⟩, ⟨-1, 3, [⟨false, 1⟩]⟩, 27, 0, .valid "main"⟩, .endStackTrace]).map Prod.fst =
        some [[], [.stackSample
          ⟨.processTime, 0, [], 2000, 3, "main", false, -1, [], 0, 0, 0, 0⟩]] := rfl
  refine connection_read_back _ (fun a ha => ?_) hrun (List.Sublist.refl _) (by decide)
  rcases List.mem_pair.mp ha with rfl | rfl
  · exact ⟨by decide, by decide⟩
  · exact trivial

end Opsian.Writer.Encoding
