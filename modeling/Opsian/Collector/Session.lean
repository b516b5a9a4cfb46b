import Opsian.Collector.Forks
import Opsian.Lib.History

/-! # What is sent on a connection

The history of the messages: which of them the sends that are left to do carry, which
connection the outstanding read is of, what has been handed to `async_write` and which
stashed notifications were written. -/
namespace Opsian.Collector.Session
open Opsian.Lib.Runs Opsian.Collector.EventLoop Opsian.Collector.Transitions
  Opsian.Collector.Forks

inductive AgentEnvelope where
  | hello
  | heartbeat
  | agentStatistics
  | allocationTable
  /-- A notification from the queue. -/
  | notification (n : StashedNotification)
  /-- A notification from the stash, by its number from the start. -/
  | stashed (i : Nat)
  /-- A `StackSample`, `MethodInformation`, `ModuleInformation`, `MetricInformation`,
  `MetricSamples` or `ConstantMetricsComplete`. -/
  | record
  deriving DecidableEq, Repr

def AgentEnvelope.isData : AgentEnvelope → Bool
  | .notification _ | .stashed _ | .record => true
  | _ => false

structure History where
  /-- The connects that have succeeded; the last one made the current connection. -/
  connections : Nat
  /-- The connection that the outstanding read is of. -/
  reader : Nat
  /-- `onSampleRate` has been called for a message of the current connection. -/
  granted : Bool
  /-- The messages of the sends that are left to do. -/
  pending : List AgentEnvelope
  /-- What was handed to `async_write` on the current connection. -/
  wire : List AgentEnvelope
  /-- The message that is being written. -/
  writing : Option AgentEnvelope
  /-- How many notifications were stashed. -/
  stashed : Nat
  /-- The stashed notifications that were written without an error. -/
  written : List Nat

def start : History := ⟨0, 0, false, [], [], none, 0, []⟩

namespace History

/-- A new connection. A read that is still outstanding stays one of the old connection. -/
def connect (g : History) (reading : Bool) : History :=
  { g with
    connections := g.connections + 1
    reader := if reading then g.reader else g.connections + 1
    granted := false
    pending := [.hello]
    wire := [] }

/-- The next send is refused, or `async_write` takes its message. -/
def send (g : History) (taken : Bool) : History :=
  { g with
    pending := g.pending.tail
    wire := if taken then g.wire ++ g.pending.head?.toList else g.wire
    writing := if taken then g.pending.head? else g.writing }

def attemptRead (g : History) (reading : Bool) : History :=
  { g with reader := if reading then g.reader else g.connections }

/-- The write is over. -/
def endWrite (g : History) (result : Written) : History :=
  { g with
    writing := none
    written :=
      match result, g.writing with
      | .ok, some (.stashed i) => g.written ++ [i]
      | _, _ => g.written }

def push (g : History) (ms : List AgentEnvelope) : History := { g with pending := ms ++ g.pending }

def sampleRate (g : History) : History :=
  { g with granted := g.granted || g.reader == g.connections }

def stash (g : History) : History := { g with stashed := g.stashed + 1 }

/-- A child has made no connection yet, and the sends of the parent are not its own. -/
def onFork (g : History) : History :=
  { g with
    connections := 0
    reader := 0
    granted := false
    pending := []
    wire := []
    writing := none }

end History

/-- The stash, by the numbers of the notifications. -/
def stash (s : State) (g : History) : List Nat :=
  List.range' (g.stashed - s.controller.notifications.length) s.controller.notifications.length

def note (g : History) (s : State) (a : Label) (t : State) : History :=
  match a with
  | .run =>
    match s.todo with
    | .send :: _ => g.send (s.network.isConnected && !s.network.isSending)
    | .attemptRead :: _ => g.attemptRead s.network.reading
    | _ => g
  | .connected _ => if t.place = .helloing then g.connect s.network.reading else g
  | .written result => g.endWrite result
  | .pop sends (some n) =>
    if s.controller.state = .connected then
      g.push (.notification n :: List.replicate sends .record)
    else (g.push (List.replicate sends .record)).stash
  | .pop sends none => g.push (List.replicate sends .record)
  | .onTimer .send => g.push [.heartbeat]
  | .onTimer .allocation => g.push [.allocationTable]
  | .onTimer .agentStatistics => g.push [.agentStatistics]
  | .onMessage (.sampleRate _) =>
    (g.push (if s.controller.state = .sentHello then (stash s g).map .stashed else [])).sampleRate
  | _ => g

/-- The history goes on in the child. -/
def processNote (g : History) (p : Process) (e : Event) (q : Process) : History :=
  match e with
  | .thread a => note g p.thread a q.thread
  | .fork => g.onFork
  | .start | .expire => g

variable {s t : State} {g : History} {l : List Instr}

theorem note_nil (htodo : s.todo = []) : note g s .run t = g := by
  simp only [note, htodo]

theorem note_send (htodo : s.todo = .send :: l) :
    note g s .run t = g.send (s.network.isConnected && !s.network.isSending) := by
  simp only [note, htodo]

theorem note_attemptRead (htodo : s.todo = .attemptRead :: l) :
    note g s .run t = g.attemptRead s.network.reading := by
  simp only [note, htodo]

theorem note_cons {i : Instr} (htodo : s.todo = i :: l) (hi : i ≠ .send ∧ i ≠ .attemptRead) :
    note g s .run t = g := by
  simp only [note, htodo]
  split
  · rename_i he
    exact absurd (List.cons.inj he).1 hi.1
  · rename_i he
    exact absurd (List.cons.inj he).1 hi.2
  · rfl

theorem note_unconnected {ok : Bool} (ht : t.place ≠ .helloing) :
    note g s (.connected ok) t = g := if_neg ht

/-! ## Every send has its message -/

/-- The sends that are left to do. -/
def sends (todo : List Instr) : Nat := todo.count .send

@[simp] theorem sends_nil : sends [] = 0 := rfl

@[simp] theorem sends_cons (i : Instr) (l : List Instr) :
    sends (i :: l) = sends l + if i = .send then 1 else 0 := by
  simp [sends, List.count_cons]

@[simp] theorem sends_append (l l' : List Instr) : sends (l ++ l') = sends l + sends l' :=
  List.count_append

@[simp] theorem sends_polls : sends polls = 0 := by decide

@[simp] theorem sends_replicate (n : Nat) : sends (List.replicate n .send) = n :=
  List.count_replicate_self

@[simp] theorem sends_rest (s : State) : sends s.rest = sends s.todo := by
  unfold State.rest
  split
  · rename_i htodo
    simp [htodo]
  · rfl

theorem sends_firstSampleRate (c : Controller) :
    sends (State.firstSampleRate c) =
      if c.state = .sentHello then c.notifications.length else 0 := by
  unfold State.firstSampleRate
  split
  · simp [List.map_const']
  · simp

def Scripted (x : State × History) : Prop := x.2.pending.length = sends x.1.todo

theorem Scripted.call (h : Scripted (s, g)) {is : List Instr} (ms : List AgentEnvelope)
    (his : ms.length = sends is) : (ms ++ g.pending).length = sends (s.call is).todo := by
  have hpending : g.pending.length = sends s.todo := h
  simp [State.call, his, hpending]

theorem Scripted.none (h : Scripted (s, g)) (htodo : s.todo = []) : g.pending = [] := by
  have hpending : g.pending.length = sends s.todo := h
  rw [htodo] at hpending
  exact List.length_eq_zero_iff.mp hpending

/-- A step with nothing left to do, that leaves other things to do. -/
theorem Scripted.of_nil (h : Scripted (s, g)) (htodo : s.todo = []) (ms : List AgentEnvelope)
    (ht : sends t.todo = ms.length) : (ms ++ g.pending).length = sends t.todo := by
  rw [h.none htodo, List.append_nil, ht]

theorem Scripted.onTimer (h : Scripted (s, g)) (timer : TimerId) :
    Scripted (s.onTimer timer, note g s (.onTimer timer) (s.onTimer timer)) := by
  cases timer with
  | receive => exact h.call [] rfl
  | _ => exact h.call _ rfl

theorem Scripted.onMessage (h : Scripted (s, g)) (m : Message) :
    Scripted (s.onMessage m, note g s (.onMessage m) (s.onMessage m)) := by
  cases m with
  | sampleRate m =>
    refine h.call _ ?_
    rw [sends_firstSampleRate]
    split
    · simp [stash]
    · rfl
  | _ => exact h.call [] rfl

theorem Scripted.next {a : Label} (h : Scripted (s, g)) (hs : step s a = some t) :
    Scripted (t, note g s a t) := by
  have hpending : g.pending.length = sends s.todo := h
  cases step_transition hs with
  | handOver l htodo | refuse l htodo | drop l htodo =>
    rw [note_send htodo]
    show g.pending.tail.length = sends _
    simp [hpending, htodo]
  | attemptRead l htodo =>
    rw [note_attemptRead htodo]
    show g.pending.length = sends _
    simp [hpending, htodo]
  | endSend l htodo | close l htodo | closeNothing l htodo | deleteSock l htodo
  | onDisconnect l htodo | schedule timer l htodo | clearNotifications l htodo =>
    rw [note_cons htodo (by simp)]
    show g.pending.length = sends _
    simp [hpending, htodo]
  | sentHello htodo =>
    rw [note_nil htodo]
    exact h.of_nil htodo [] sends_polls
  | batch htodo | noBatch htodo =>
    rw [note_nil htodo]
    exact h
  | connect htop => exact h
  | poll htop => exact h.of_nil htop.2 [] sends_polls
  | stop htop => exact h.of_nil htop.2 [] rfl
  | resolved htodo => exact h
  | unresolved htodo => exact h.of_nil htodo [] sends_polls
  | connected htodo => rfl
  | unconnected ok htodo =>
    rw [note_unconnected (by simp)]
    exact h.of_nil htodo [] sends_polls
  | written result l htodo =>
    show g.pending.length = sends _
    unfold State.written
    split <;> simp [hpending, htodo]
  | polled l htodo | drained l htodo =>
    show g.pending.length = sends _
    simp [hpending, htodo]
  | notify n left sends htodo hplace hstate =>
    simp only [note, if_pos hstate]
    exact h.of_nil htodo _ (by simp)
  | stash n left sends htodo hplace hstate =>
    simp only [note, if_neg hstate]
    exact h.of_nil htodo _ (by simp)
  | records left sends htodo => exact h.of_nil htodo _ (by simp)
  | popped | expire | expireDeadline | exit => exact h
  | onTimer timer => exact h.onTimer timer
  | onDeadline => exact h.call [] rfl
  | onMessage m => exact h.onMessage m
  | onReadError body => cases body <;> exact h.call [] rfl

end Opsian.Collector.Session
