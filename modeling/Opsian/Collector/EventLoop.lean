import Mathlib.Logic.Function.Basic
import Opsian.Lib.Runs

/-! # The collector controller on its event loop

The processor thread runs the controller, the network and their handlers. A send
waits for its write inside the event loop and a close drains it, so any ready
handler runs before they return: what is left of the calls in progress stands in
`todo`, on top of the place in `Processor::run`. When a timer expires, what is
read and how a connect or a write ends is part of the label. -/
namespace Opsian.Collector.EventLoop

inductive ControllerState where
  | socketConnected
  | sentHello
  | connected
  | disconnected
  | prometheusMode
  deriving DecidableEq, Repr

/-- A `steady_timer`: whether a wait is pending, and how many completions are queued
without an error. An aborted one does nothing when it runs, and is left out. -/
structure Timer where
  wait : Bool
  expired : Nat
  deriving DecidableEq, Repr

namespace Timer

def idle : Timer := ⟨false, 0⟩

/-- `expires_from_now` aborts the pending wait, and `async_wait` begins the next. -/
def schedule (t : Timer) : Timer := { t with wait := true }

/-- A completion that is queued is not revoked. -/
def cancel (t : Timer) : Timer := { t with wait := false }

/-- The time of the wait has come. -/
def expire (t : Timer) : Timer := ⟨false, t.expired + 1⟩

/-- A queued completion runs. -/
def take (t : Timer) : Timer := { t with expired := t.expired - 1 }

/-- Something is still to come of the timer. -/
def Armed (t : Timer) : Prop := t.wait = true ∨ 0 < t.expired

theorem armed_schedule (t : Timer) : t.schedule.Armed := .inl rfl

theorem armed_expire (t : Timer) : t.expire.Armed := .inr (Nat.succ_pos _)

theorem not_armed {t : Timer} : ¬ t.Armed ↔ t = .idle := by
  rcases t with ⟨wait, expired⟩
  simp [Armed, idle]

end Timer

inductive TimerId where
  | send
  | receive
  | allocation
  | agentStatistics
  deriving DecidableEq, Repr

structure StashedNotification where
  category : Nat
  payload : String
  deriving DecidableEq, Repr

/-- The fields of `CollectorController` that change. -/
structure Controller where
  notifications : List StashedNotification
  backoffTimeInMs : Nat
  timers : TimerId → Timer
  state : ControllerState
  on : Bool
  processTimeStackSampleIntervalMillis : UInt64
  elapsedTimeStackSampleIntervalMillis : UInt64
  memoryProfilingPushRateMillis : UInt64
  threadStateOn : Bool
  memoryProfilingOn : Bool
  metricsOn : Bool
  metricsSampleRateMillis : UInt64

/-- `Network`, the socket below it and the outstanding read. `deadline` stands for
the timers of connects and writes. -/
structure Network where
  isConnected : Bool
  isSending : Bool
  /-- `sock_` is not null, and its lowest layer is open. -/
  sock : Bool
  isOpen : Bool
  reading : Bool
  deadline : Timer

/-- What is left to do of the calls in progress. `awaitWrite`, `drain` and `runOne`
wait in the event loop. -/
inductive Instr where
  | send
  | awaitWrite
  | endSend
  | close
  | drain
  | deleteSock
  | onDisconnect
  | schedule (timer : TimerId)
  | clearNotifications
  | attemptRead
  | runOne
  deriving DecidableEq, Repr

/-- Where `Processor::run` stands. `resolving` and `connecting` wait in the event
loop too. -/
inductive Place where
  | top
  | resolving
  | connecting
  /-- In `sendHello`. -/
  | helloing
  | polling
  | popping (left : Nat)
  | ended
  deriving DecidableEq, Repr

structure State where
  controller : Controller
  network : Network
  processorRunning : Bool
  place : Place
  todo : List Instr

def defaultMetricsSampleRate : UInt64 := 1000

/-- The constructor of `CollectorController`. -/
def construct (prometheusEnabled on : Bool) : Controller where
  notifications := []
  backoffTimeInMs := 0
  timers := fun _ => .idle
  state := if prometheusEnabled then .prometheusMode else .disconnected
  on := on
  processTimeStackSampleIntervalMillis := 0
  elapsedTimeStackSampleIntervalMillis := 0
  memoryProfilingPushRateMillis := 0
  threadStateOn := false
  memoryProfilingOn := false
  metricsOn := false
  metricsSampleRateMillis := defaultMetricsSampleRate

/-- The processor thread in collector mode, behind `onStart`. -/
def init (on : Bool) : State where
  controller := construct false on
  network := ⟨false, false, false, false, false, .idle⟩
  processorRunning := true
  place := .top
  todo := []

/-! ## The controller -/

namespace Controller

def setTimer (c : Controller) (timer : TimerId) (t : Timer) : Controller :=
  { c with timers := Function.update c.timers timer t }

@[simp] theorem setTimer_self (c : Controller) (timer : TimerId) (t : Timer) :
    (c.setTimer timer t).timers timer = t := Function.update_self ..

def schedule (c : Controller) (timer : TimerId) : Controller :=
  c.setTimer timer (c.timers timer).schedule

theorem armed_schedule (c : Controller) (timer : TimerId) :
    ((c.schedule timer).timers timer).Armed := by
  rw [schedule, setTimer_self]
  exact Timer.armed_schedule _

def isActive (c : Controller) : Bool := c.state == .connected || c.state == .prometheusMode

/-- `onDisconnect`, up to the close of the network. -/
def disconnect (c : Controller) : Controller :=
  { c with
    state := .disconnected
    timers := fun timer => (c.timers timer).cancel
    metricsOn := false }

def onSentHello (c : Controller) : Controller :=
  { c with state := .sentHello }.schedule .receive

def minBackoffTimeInMs : Nat := 1000

def maxBackoffTimeInMs : Nat := 60 * 1000

/-- The sleep is left out. -/
def backoff (c : Controller) : Controller :=
  { c with
    backoffTimeInMs :=
      if c.backoffTimeInMs = 0 then minBackoffTimeInMs
      else min (c.backoffTimeInMs * 3 / 2) maxBackoffTimeInMs }

end Controller

/-- The fields of a `SampleRate` that the controller keeps. -/
structure SampleRate where
  processTimeStackSampleRateMillis : UInt64
  elapsedTimeStackSampleRateMillis : UInt64
  switchProcessTimeProfilingOn : Bool
  switchElapsedTimeProfilingOn : Bool
  threadStateOn : Bool
  switchMemoryProfilingOn : Bool
  switchMetricsOn : Bool
  deriving DecidableEq, Repr

inductive Message where
  | terminate
  | sampleRate (m : SampleRate)
  | heartbeat
  /-- Anything else that is read is only logged. -/
  | unknown
  deriving DecidableEq, Repr

def dontChangeSampleRate : UInt64 := 0

namespace Controller

/-- What `startProfiling` keeps of a rate. -/
def keptRate (rate current : UInt64) (switchOn : Bool) : UInt64 :=
  if switchOn && rate != dontChangeSampleRate then rate else current

/-- `onSampleRate`, up to `onFirstSampleRate`. -/
def sampleRate (c : Controller) (m : SampleRate) : Controller :=
  { c with
    processTimeStackSampleIntervalMillis := keptRate m.processTimeStackSampleRateMillis
      c.processTimeStackSampleIntervalMillis m.switchProcessTimeProfilingOn
    elapsedTimeStackSampleIntervalMillis := keptRate m.elapsedTimeStackSampleRateMillis
      c.elapsedTimeStackSampleIntervalMillis m.switchElapsedTimeProfilingOn
    memoryProfilingOn := m.switchMemoryProfilingOn
    threadStateOn := m.threadStateOn
    metricsOn := m.switchMetricsOn
    state := if c.state = .sentHello then .connected else c.state }

/-- The first sample rate turns a hello that was sent into a connection. -/
theorem sampleRate_state (c : Controller) (m : SampleRate) :
    (c.sampleRate m).state = if c.state = .sentHello then .connected else c.state := rfl

end Controller

/-! ## The network -/

namespace Network

/-- `closeSocket`, which leaves the socket to be deleted. -/
def closeSocket (n : Network) : Network :=
  if n.sock then { n with isOpen := false, isConnected := false } else n

theorem closeSocket_isConnected {n : Network} (h : n.isConnected = false) :
    n.closeSocket.isConnected = false := by
  unfold closeSocket
  split
  · rfl
  · exact h

theorem isConnected_of_closeSocket {n : Network} (h : n.closeSocket.isConnected = true) :
    n.isConnected = true := by
  by_contra hc
  have hdown := closeSocket_isConnected (by simpa using hc)
  cases hdown.symm.trans h

@[simp] theorem closeSocket_sock (n : Network) : n.closeSocket.sock = n.sock := by
  unfold closeSocket
  split <;> rfl

@[simp] theorem closeSocket_reading (n : Network) : n.closeSocket.reading = n.reading := by
  unfold closeSocket
  split <;> rfl

/-- The rest of `close`, behind the drain. -/
def deleteSock (n : Network) : Network := { n with sock := false, isOpen := false }

/-- `new ssl_socket`, and the timer of the connect. -/
def newSock (n : Network) : Network :=
  { n with sock := true, isOpen := true, deadline := n.deadline.schedule }

/-- The protocol handler's `attemptRead`. -/
def attemptRead (n : Network) : Network :=
  { n with reading := n.reading || n.isConnected }

/-- `connect` has succeeded; `onSocketConnected` begins to read. -/
def connected (n : Network) : Network :=
  { n with deadline := n.deadline.cancel, isConnected := true, reading := true }

end Network

/-- How the write of a message ends: `lost` stands for the error codes that
`sendWithSize` takes for a lost connection, `failed` for all others. -/
inductive Written where
  | ok
  | lost
  | failed
  deriving DecidableEq, Repr

/-! ## The thread -/

def maxPolls : Nat := 10

/-- `Network::poll`. -/
def polls : List Instr := List.replicate maxPolls .runOne

theorem mem_polls {i : Instr} : i ∈ polls ↔ i = .runOne := by
  simp [polls, maxPolls]

namespace State

/-- The thread waits in the event loop, where a ready handler can run. -/
def waits (s : State) : Bool :=
  match s.todo, s.place with
  | .awaitWrite :: _, _ | .drain :: _, _ | .runOne :: _, _ => true
  | [], .resolving | [], .connecting => true
  | _, _ => false

/-- What is left behind a handler. One of `run_one` or `poll_one` is done with it. -/
def rest (s : State) : List Instr :=
  match s.todo with
  | .runOne :: l => l
  | l => l

theorem mem_of_mem_rest {s : State} {i : Instr} (hi : i ∈ s.rest) : i ∈ s.todo := by
  unfold rest at hi
  split at hi
  · rename_i htodo
    rw [htodo]
    exact .tail _ hi
  · exact hi

theorem mem_rest {s : State} {i : Instr} (hi : i ≠ .runOne) : i ∈ s.rest ↔ i ∈ s.todo := by
  refine ⟨mem_of_mem_rest, fun hm => ?_⟩
  unfold rest
  split
  · rename_i htodo
    rw [htodo] at hm
    exact (List.mem_cons.mp hm).resolve_left hi
  · exact hm

/-- The calls of a handler, before what it has interrupted. -/
def call (s : State) (instrs : List Instr) : State := { s with todo := instrs ++ s.rest }

/-- `sendWithSize`, up to its wait. A send inside a send is blocked. -/
def sendWithSize (s : State) (l : List Instr) : State :=
  if s.network.isConnected then
    if s.network.isSending then { s with todo := l }
    else { s with
      network := { s.network with
        isSending := true
        deadline := s.network.deadline.schedule }
      todo := .awaitWrite :: l }
  else { s with network := { s.network with isSending := false }, todo := l }

/-- The next instruction that does not wait. -/
def exec (s : State) (l : List Instr) : Instr → Option State
  | .send => some (s.sendWithSize l)
  | .endSend => some { s with network := { s.network with isSending := false }, todo := l }
  | .close =>
    some { s with
      network := s.network.closeSocket
      todo := if s.network.sock then .drain :: .deleteSock :: l else l }
  | .deleteSock => some { s with network := s.network.deleteSock, todo := l }
  | .onDisconnect => some { s with controller := s.controller.disconnect, todo := .close :: l }
  | .schedule timer => some { s with controller := s.controller.schedule timer, todo := l }
  | .clearNotifications =>
    some { s with controller := { s.controller with notifications := [] }, todo := l }
  | .attemptRead => some { s with network := s.network.attemptRead, todo := l }
  | .awaitWrite | .drain | .runOne => none

/-- The loop goes on behind `sendHello` and behind `Network::poll`. -/
def proceed (s : State) : Option State :=
  match s.place with
  | .helloing =>
    some { s with controller := s.controller.onSentHello, place := .polling, todo := polls }
  | .polling =>
    some { s with place := if s.controller.isActive then .popping maxPolls else .top }
  | _ => none

/-- The head of the loop, with `CollectorController::poll` up to the resolution. -/
def enter (s : State) : State :=
  if s.controller.on && s.processorRunning then
    if s.controller.state = .disconnected then
      { s with controller := s.controller.backoff, place := .resolving }
    else { s with place := .polling, todo := polls }
  else { s with place := .ended, todo := [.onDisconnect] }

def resolved (s : State) (ok : Bool) : State :=
  if ok then { s with network := s.network.newSock, place := .connecting }
  else { s with place := .polling, todo := .runOne :: .close :: polls }

/-- The connect and the handshake are over; on success `onSocketConnect` sends its hello. -/
def connected (s : State) (ok : Bool) : State :=
  if ok && s.network.isOpen then
    { s with
      network := s.network.connected
      controller := { s.controller with state := .socketConnected, backoffTimeInMs := 0 }
      place := .helloing
      todo := [.send] }
  else
    { s with
      network := { s.network with deadline := s.network.deadline.cancel }
      place := .polling
      todo := .close :: polls }

def written (s : State) (l : List Instr) (result : Written) : State :=
  { s with
    network := { s.network with deadline := s.network.deadline.cancel }
    todo := (if result = .lost then [.close, .onDisconnect] else []) ++ .endSend :: l }

/-- The handler of a timer whose completion was queued. -/
def onTimer (s : State) (timer : TimerId) : State :=
  let s : State :=
    { s with controller := s.controller.setTimer timer (s.controller.timers timer).take }
  match timer with
  | .send => s.call [.send, .schedule .send]
  | .receive =>
    { s with controller := s.controller.disconnect }.call [.close, .schedule .receive]
  | .allocation => s.call [.send, .schedule .allocation]
  | .agentStatistics => s.call [.send, .schedule .agentStatistics]

/-- `onTimerRun` closes whatever socket there is. -/
def onDeadline (s : State) : State :=
  { s with network := { s.network with deadline := s.network.deadline.take }.closeSocket }.call []

/-- What a `SampleRate` calls: where it is the first one, `onFirstSampleRate` first. -/
def firstSampleRate (c : Controller) : List Instr :=
  if c.state = .sentHello then
    c.notifications.map (fun _ => .send) ++
      [.clearNotifications, .schedule .send, .schedule .receive, .schedule .agentStatistics,
        .attemptRead]
  else [.attemptRead]

/-- A message was read; then the next read begins. -/
def onMessage (s : State) (m : Message) : State :=
  let s : State := { s with network := { s.network with reading := false } }
  match m with
  | .terminate => { s with controller := { s.controller with on := false } }.call [.attemptRead]
  | .heartbeat => { s with controller := s.controller.schedule .receive }.call [.attemptRead]
  | .sampleRate m =>
    { s with controller := s.controller.sampleRate m }.call (firstSampleRate s.controller)
  | .unknown => s.call [.attemptRead]

/-- A read has failed, behind which a body is read for again. -/
def onReadError (s : State) (body : Bool) : State :=
  { s with network := { s.network with reading := false } }.call
    (if body then [.attemptRead] else [])

/-- A call of `CircularQueue::pop` that finds a record in one of the three queues. The
listener sends or stashes a notification at the head of the main queue, and sends so
many messages for the other records. -/
def pop (s : State) (left sends : Nat) (notification : Option StashedNotification) : State :=
  match notification with
  | some n =>
    if s.controller.state = .connected then
      { s with place := .popping left, todo := List.replicate (sends + 1) .send }
    else { s with
      controller := { s.controller with notifications := s.controller.notifications ++ [n] }
      place := .popping left
      todo := List.replicate sends .send }
  | none => { s with place := .popping left, todo := List.replicate sends .send }

end State

inductive Label where
  /-- The thread runs on where it does not wait. -/
  | run
  | enter
  | resolved (ok : Bool)
  | connected (ok : Bool)
  | written (result : Written)
  /-- `poll_one` finds no handler, or one that does nothing; `poll` finds none. -/
  | idle
  | pop (sends : Nat) (notification : Option StashedNotification)
  /-- The queues are empty, or enough was popped. -/
  | popped
  | expire (timer : TimerId)
  | expireDeadline
  | onTimer (timer : TimerId)
  | onDeadline
  | onMessage (m : Message)
  | onReadError (body : Bool)
  /-- `onProcessorExit`. -/
  | exit
  deriving DecidableEq, Repr

/-- No completion of a timer is queued. -/
def State.drained (s : State) : Prop :=
  s.network.deadline.expired = 0 ∧ (s.controller.timers .send).expired = 0 ∧
    (s.controller.timers .receive).expired = 0 ∧ (s.controller.timers .allocation).expired = 0 ∧
    (s.controller.timers .agentStatistics).expired = 0

instance (s : State) : Decidable s.drained := inferInstanceAs (Decidable (_ ∧ _))

def step (s : State) : Label → Option State
  | .run =>
    match s.todo with
    | [] => s.proceed
    | i :: l => s.exec l i
  | .enter => if s.place = .top ∧ s.todo = [] then some s.enter else none
  | .resolved ok => if s.place = .resolving ∧ s.todo = [] then some (s.resolved ok) else none
  | .connected ok => if s.place = .connecting ∧ s.todo = [] then some (s.connected ok) else none
  | .written result =>
    match s.todo with
    | .awaitWrite :: l => some (s.written l result)
    | _ => none
  | .idle =>
    match s.todo with
    | .runOne :: l => some { s with todo := l }
    | .drain :: l => if s.drained then some { s with todo := l } else none
    | _ => none
  | .pop sends notification =>
    match s.todo, s.place with
    | [], .popping (left + 1) => some (s.pop left sends notification)
    | _, _ => none
  | .popped =>
    match s.todo, s.place with
    | [], .popping _ => some { s with place := .top }
    | _, _ => none
  | .expire timer =>
    if (s.controller.timers timer).wait then
      some { s with controller := s.controller.setTimer timer (s.controller.timers timer).expire }
    else none
  | .expireDeadline =>
    if s.network.deadline.wait then
      some { s with network := { s.network with deadline := s.network.deadline.expire } }
    else none
  | .onTimer timer =>
    if s.waits ∧ 0 < (s.controller.timers timer).expired then some (s.onTimer timer) else none
  | .onDeadline => if s.waits ∧ 0 < s.network.deadline.expired then some s.onDeadline else none
  | .onMessage m => if s.waits ∧ s.network.reading then some (s.onMessage m) else none
  | .onReadError body => if s.waits ∧ s.network.reading then some (s.onReadError body) else none
  | .exit => some { s with processorRunning := false }

/-! ## Which step was taken -/

section Inversion

variable {s t : State}

theorem step_run (h : step s .run = some t) : (s.todo = [] ∧ s.proceed = some t) ∨
    ∃ i l, s.todo = i :: l ∧ s.exec l i = some t := by
  unfold step at h
  simp only at h
  split at h
  · exact .inl ⟨by assumption, h⟩
  · exact .inr ⟨_, _, by assumption, h⟩

theorem step_written {result : Written} (h : step s (.written result) = some t) :
    ∃ l, s.todo = .awaitWrite :: l ∧ t = s.written l result := by
  unfold step at h
  simp only at h
  split at h
  · cases h
    exact ⟨_, by assumption, rfl⟩
  · cases h

theorem step_idle (h : step s .idle = some t) :
    ∃ i l, s.todo = i :: l ∧ (i = .runOne ∨ i = .drain) ∧ t = { s with todo := l } := by
  unfold step at h
  simp only at h
  split at h
  · cases h
    exact ⟨_, _, by assumption, .inl rfl, rfl⟩
  · obtain ⟨-, rfl⟩ := Option.ite_some_none_eq_some.mp h
    exact ⟨_, _, by assumption, .inr rfl, rfl⟩
  · cases h

theorem step_pop {sends : Nat} {notification : Option StashedNotification}
    (h : step s (.pop sends notification) = some t) :
    ∃ left, s.todo = [] ∧ s.place = .popping (left + 1) ∧
      t = s.pop left sends notification := by
  unfold step at h
  simp only at h
  split at h
  · cases h
    exact ⟨_, by assumption, by assumption, rfl⟩
  · cases h

theorem step_popped (h : step s .popped = some t) :
    ∃ left, s.todo = [] ∧ s.place = .popping left ∧ t = { s with place := .top } := by
  unfold step at h
  simp only at h
  split at h
  · cases h
    exact ⟨_, by assumption, by assumption, rfl⟩
  · cases h

end Inversion

/-- The thread is at the top of its loop. -/
def State.AtTop (s : State) : Prop := s.place = .top ∧ s.todo = []

end Opsian.Collector.EventLoop
