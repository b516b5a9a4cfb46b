import Opsian.Collector.Lifecycle

/-! # An agent and its forked children

Of its parent's threads a child has only the one that forked. It resets the controller and
closes the network, which drains the event loop, and then starts the processor thread
anew. What it does not reset stays as the fork found it, in whatever the parent's
processor was doing: the network's flags are copied, and so is what is outstanding in the
event loop. The run goes on in the child. -/
namespace Opsian.Collector.Forks
open Opsian.Lib.Runs Opsian.Collector.EventLoop Opsian.Collector.Transitions

/-- `CollectorController::on_fork`. -/
def controllerOnFork (c : Controller) : Controller :=
  { c with
    notifications := []
    backoffTimeInMs := 0
    state := .disconnected
    processTimeStackSampleIntervalMillis := 0
    elapsedTimeStackSampleIntervalMillis := 0
    memoryProfilingPushRateMillis := 0
    threadStateOn := false
    memoryProfilingOn := false
    metricsOn := false
    metricsSampleRateMillis := defaultMetricsSampleRate }

/-- The forking thread in the child, whose next call is `Network::on_fork`. -/
def forkThread (c : Controller) (n : Network) : State where
  controller := controllerOnFork c
  network := n
  processorRunning := true
  place := .ended
  todo := [.close]

/-- `Processor::start`. The new thread has nothing to do in `onStart`. -/
def startThread (s : State) : State :=
  { s with
    network := { s.network with deadline := s.network.deadline.cancel }
    processorRunning := true
    place := .top }

structure Process where
  /-- The processor thread, or the forking one in `on_fork`. -/
  thread : State
  forking : Bool
  /-- The parent's writes that are outstanding on the socket of the child. -/
  writes : Nat
  /-- The parent's timers of connects and writes that are pending. No thread of the child
  cancels them. -/
  deadlines : Nat

namespace Process

def init (on : Bool) : Process := ⟨EventLoop.init on, false, 0, 0⟩

def onFork (p : Process) : Process where
  thread := forkThread p.thread.controller p.thread.network
  forking := true
  writes := if p.thread.network.sock then p.thread.todo.count .awaitWrite else 0
  deadlines := p.deadlines

def start (p : Process) : Process where
  thread := startThread p.thread
  forking := false
  writes := p.writes
  deadlines := p.deadlines + if p.thread.network.deadline.wait then 1 else 0

/-- The time of one of the parent's timers has come. -/
def expire (p : Process) : Process :=
  { p with
    thread := { p.thread with
      network := { p.thread.network with
        deadline := { p.thread.network.deadline with
          expired := p.thread.network.deadline.expired + 1 } } }
    deadlines := p.deadlines - 1 }

end Process

inductive Event where
  | thread (a : Label)
  | fork
  | start
  | expire
  deriving DecidableEq, Repr

/-- The handlers of a socket are gone when it is deleted. -/
def Process.step (p : Process) : Event → Option Process
  | .thread a =>
    (EventLoop.step p.thread a).map fun t =>
      { p with thread := t, writes := if t.network.sock then p.writes else 0 }
  | .fork => if p.forking then none else some p.onFork
  | .start =>
    if p.forking ∧ p.thread.place = .ended ∧ p.thread.todo = [] then some p.start else none
  | .expire => if 0 < p.deadlines then some p.expire else none

/-! ## What runs while the network closes -/

/-- The network closes in the child: nothing is sent, and nobody else disconnects. -/
structure Closing (s : State) : Prop where
  place : s.place = .ended
  instrs : ∀ i ∈ s.todo, i ≠ .awaitWrite ∧ i ≠ .onDisconnect ∧ i ≠ .runOne ∧
    i ≠ .clearNotifications
  closed : s.network.isConnected = true → s.todo = [.close] ∨ s.todo = []
  state : s.controller.state = .disconnected

/-- What a step does to the controller and its timers. -/
inductive Effect (s : State) : Label → State → Prop where
  | quiet {a : Label} {t : State} (hc : t.controller = s.controller)
      (hr : t.network.reading = true → s.network.reading = true)
      (ht : ∀ timer, .schedule timer ∈ t.todo ↔ .schedule timer ∈ s.todo)
      (hm : ∀ m, a ≠ .onMessage m) : Effect s a t
  | schedule (timer : TimerId) (l : List Instr) (h : s.todo = .schedule timer :: l) :
      Effect s .run { s with controller := s.controller.schedule timer, todo := l }
  | expire (timer : TimerId) (h : (s.controller.timers timer).wait = true) :
      Effect s (.expire timer)
        { s with controller := s.controller.setTimer timer (s.controller.timers timer).expire }
  | onTimer (timer : TimerId) (h : 0 < (s.controller.timers timer).expired) :
      Effect s (.onTimer timer) (s.onTimer timer)
  | message (m : Message) (h : s.network.reading = true) : Effect s (.onMessage m) (s.onMessage m)

variable {s t : State} {a : Label} {l : List Instr}

theorem Closing.not_connected {i : Instr} (h : Closing s) (htodo : s.todo = i :: l)
    (hi : i ≠ .close) : s.network.isConnected = false := by
  by_contra hc
  rcases h.closed (by simpa using hc) with hclose | hnil
  · rw [htodo] at hclose
    exact hi (List.cons.inj hclose).1
  · rw [htodo] at hnil
    cases hnil

/-- A handler runs when the close drains the event loop. -/
theorem Closing.draining (h : Closing s) (hw : s.waits = true) : ∃ l, s.todo = .drain :: l := by
  unfold State.waits at hw
  split at hw
  · rename_i htodo
    exact absurd rfl (h.instrs .awaitWrite (by rw [htodo]; exact List.mem_cons_self)).1
  · exact ⟨_, by assumption⟩
  · rename_i htodo
    exact absurd rfl (h.instrs .runOne (by rw [htodo]; exact List.mem_cons_self)).2.2.1
  · rename_i hplace
    cases h.place.symm.trans hplace
  · rename_i hplace
    cases h.place.symm.trans hplace
  · cases hw

theorem Closing.waits (h : Closing s) (hw : s.waits = true) :
    s.rest = s.todo ∧ s.network.isConnected = false := by
  obtain ⟨l, htodo⟩ := h.draining hw
  refine ⟨?_, h.not_connected htodo nofun⟩
  rw [State.rest, htodo]

/-- What is left to do is part of what was, or of what a close and a handler call. -/
theorem Closing.of_todo (h : Closing s) (hp : t.place = s.place)
    (hi : ∀ i ∈ t.todo, i ∈ s.todo ∨ (i ≠ .awaitWrite ∧ i ≠ .onDisconnect ∧ i ≠ .runOne ∧
      i ≠ .clearNotifications))
    (hn : t.network.isConnected = true → t.todo = [.close] ∨ t.todo = [])
    (hstate : t.controller.state = .disconnected) : Closing t where
  place := hp.trans h.place
  instrs i hm := (hi i hm).elim (h.instrs i) id
  closed := hn
  state := hstate

/-- An instruction other than the close is done with. -/
theorem Closing.tail {i : Instr} (h : Closing s) (htodo : s.todo = i :: l) (hi : i ≠ .close)
    (hp : t.place = s.place) (ht : t.todo = l)
    (hn : t.network.isConnected = s.network.isConnected)
    (hstate : t.controller.state = s.controller.state) : Closing t := by
  refine h.of_todo hp (fun j hj => .inl ?_) (fun hc => ?_) (hstate.trans h.state)
  · rw [htodo, ← ht]
    exact List.mem_cons_of_mem _ hj
  · rw [hn, h.not_connected htodo hi] at hc
    cases hc

theorem schedule_tail {i : Instr} (htodo : s.todo = i :: l) (hi : ∀ timer, i ≠ .schedule timer)
    (timer : TimerId) : .schedule timer ∈ l ↔ .schedule timer ∈ s.todo := by
  rw [htodo, List.mem_cons, or_iff_right]
  exact fun he => hi timer he.symm

/-- The close itself, of a socket that is open or of none. -/
theorem Closing.close (h : Closing s) (htodo : s.todo = .close :: l) (is : List Instr)
    (his : ∀ i ∈ is, i ≠ .awaitWrite ∧ i ≠ .onDisconnect ∧ i ≠ .runOne ∧ i ≠ .clearNotifications)
    (hp : t.place = s.place) (ht : t.todo = is ++ l)
    (hn : t.network.isConnected = true → is = [] ∧ s.network.isConnected = true)
    (hstate : t.controller.state = s.controller.state) : Closing t := by
  refine h.of_todo hp (fun i hi => ?_) (fun hc => ?_) (hstate.trans h.state)
  · rw [ht] at hi
    rcases List.mem_append.mp hi with hi | hi
    · exact .inr (his i hi)
    · rw [htodo]
      exact .inl (List.mem_cons_of_mem _ hi)
  · obtain ⟨rfl, hc⟩ := hn hc
    rcases h.closed hc with hclose | hnil
    · rw [htodo] at hclose
      exact .inr (ht.trans (List.cons.inj hclose).2)
    · rw [htodo] at hnil
      cases hnil

/-- A handler that calls nothing but what a handler calls here. -/
theorem Closing.call {c : Controller} {n : Network} {is : List Instr} (h : Closing s)
    (hw : s.waits = true) (hc : c.state = .disconnected) (hn : n.isConnected = false)
    (hi : ∀ i ∈ is, i ≠ .awaitWrite ∧ i ≠ .onDisconnect ∧ i ≠ .runOne ∧
      i ≠ .clearNotifications) :
    Closing ({ s with controller := c, network := n }.call is) := by
  refine h.of_todo rfl (fun i hm => ?_) (fun hconn => ?_) hc
  · rcases List.mem_append.mp hm with hm | hm
    · exact .inr (hi i hm)
    · exact .inl ((h.waits hw).1 ▸ hm)
  · cases hn.symm.trans hconn

theorem Closing.onTimer (h : Closing s) (hw : s.waits = true) (timer : TimerId) :
    Closing (s.onTimer timer) := by
  have hc := (h.waits hw).2
  cases timer with
  | receive => exact h.call hw rfl hc (by decide)
  | _ => exact h.call hw h.state hc (by decide)

theorem Closing.firstSampleRate (h : Closing s) :
    State.firstSampleRate s.controller = [.attemptRead] := by
  rw [State.firstSampleRate, h.state]
  rfl

theorem Closing.onMessage (h : Closing s) (hw : s.waits = true) (m : Message) :
    Closing (s.onMessage m) := by
  have hc := (h.waits hw).2
  cases m with
  | sampleRate m =>
    refine h.call hw ?_ hc ?_
    · show (if s.controller.state = .sentHello then _ else s.controller.state) = _
      rw [h.state]
      rfl
    · rw [h.firstSampleRate]
      decide
  | _ => exact h.call hw h.state hc (by decide)

/-- A handler that calls nothing to do with timers. -/
theorem quiet_call {n : Network} {is : List Instr} (h : Closing s) (hw : s.waits = true)
    (hr : n.reading = true → s.network.reading = true) (hi : ∀ timer, .schedule timer ∉ is)
    (hm : ∀ m, a ≠ .onMessage m) : Effect s a ({ s with network := n }.call is) := by
  refine .quiet rfl hr (fun timer => ?_) hm
  rw [State.call, List.mem_append, or_iff_right (hi timer)]
  exact iff_of_eq (congrArg (Instr.schedule timer ∈ ·) (h.waits hw).1)

theorem Closing.next (h : Closing s) (hs : step s a = some t) : Closing t ∧ Effect s a t := by
  cases step_transition hs with
  | handOver l htodo hc _ | refuse l htodo hc _ =>
    cases hc.symm.trans (h.not_connected htodo nofun)
  | drop l htodo _ | endSend l htodo | deleteSock l htodo | drained l htodo =>
    exact ⟨h.tail htodo nofun rfl rfl rfl rfl, .quiet rfl id (schedule_tail htodo nofun) nofun⟩
  | attemptRead l htodo =>
    have hc := h.not_connected htodo nofun
    exact ⟨h.tail htodo nofun rfl rfl rfl rfl,
      .quiet rfl (by simp [hc, Network.attemptRead]) (schedule_tail htodo nofun) nofun⟩
  | schedule timer l htodo =>
    exact ⟨h.tail htodo nofun rfl rfl rfl rfl, .schedule timer l htodo⟩
  | close l htodo _ =>
    refine ⟨h.close htodo [.drain, .deleteSock] (by decide) rfl rfl nofun rfl,
      .quiet rfl id (fun timer => ?_) nofun⟩
    rw [← schedule_tail htodo nofun timer]
    simp
  | closeNothing l htodo _ =>
    exact ⟨h.close htodo [] nofun rfl rfl (fun hc => ⟨rfl, hc⟩) rfl,
      .quiet rfl id (schedule_tail htodo nofun) nofun⟩
  | written _ l htodo =>
    exact absurd rfl (h.instrs .awaitWrite (by rw [htodo]; exact List.mem_cons_self)).1
  | onDisconnect l htodo =>
    exact absurd rfl (h.instrs .onDisconnect (by rw [htodo]; exact List.mem_cons_self)).2.1
  | polled l htodo =>
    exact absurd rfl (h.instrs .runOne (by rw [htodo]; exact List.mem_cons_self)).2.2.1
  | clearNotifications l htodo =>
    exact absurd rfl (h.instrs .clearNotifications (by rw [htodo]; exact List.mem_cons_self)).2.2.2
  | connect htop _ | poll htop _ | stop htop => cases h.place.symm.trans htop.1
  | sentHello _ hplace | batch _ hplace _ | noBatch _ hplace _ | resolved _ hplace
  | unresolved _ hplace | connected _ hplace _ | unconnected _ _ hplace
  | notify _ _ _ _ hplace _ | stash _ _ _ _ hplace _ | records _ _ _ hplace
  | popped _ _ hplace => cases h.place.symm.trans hplace
  | expire timer hwait =>
    exact ⟨h.of_todo rfl (fun _ => .inl) h.closed h.state, .expire timer hwait⟩
  | expireDeadline | exit =>
    exact ⟨h.of_todo rfl (fun _ => .inl) h.closed h.state, .quiet rfl id (fun _ => Iff.rfl) nofun⟩
  | onTimer timer hw hexpired => exact ⟨h.onTimer hw timer, .onTimer timer hexpired⟩
  | onDeadline hw =>
    have hc : { s.network with deadline := s.network.deadline.take }.closeSocket.isConnected
        = false := Network.closeSocket_isConnected (h.waits hw).2
    exact ⟨h.call hw h.state hc nofun, quiet_call h hw (by simp) nofun nofun⟩
  | onMessage m hw hreading => exact ⟨h.onMessage hw m, .message m hreading⟩
  | onReadError body hw _ =>
    refine ⟨h.call hw h.state (h.waits hw).2 ?_, quiet_call h hw nofun ?_ nofun⟩
    · cases body <;> decide
    · cases body <;> simp

/-! ## What is left of the parent -/

/-- A timer is still armed, or about to be. -/
def Pending (s : State) : Prop :=
  (∃ timer, (s.controller.timers timer).Armed) ∨ ∃ timer, .schedule timer ∈ s.todo

theorem pending_onTimer (s : State) (timer : TimerId) : Pending (s.onTimer timer) := by
  cases timer with
  | send => exact .inr ⟨.send, by simp [State.onTimer, State.call]⟩
  | receive => exact .inr ⟨.receive, by simp [State.onTimer, State.call]⟩
  | allocation => exact .inr ⟨.allocation, by simp [State.onTimer, State.call]⟩
  | agentStatistics => exact .inr ⟨.agentStatistics, by simp [State.onTimer, State.call]⟩

theorem pending_heartbeat (s : State) : Pending (s.onMessage .heartbeat) :=
  .inl ⟨.receive, s.controller.armed_schedule .receive⟩

/-- A message other than a heartbeat touches no timer. -/
theorem timers_onMessage {m : Message} (hm : m ≠ .heartbeat) :
    (s.onMessage m).controller.timers = s.controller.timers := by
  cases m with
  | heartbeat => exact absurd rfl hm
  | _ => rfl

theorem todo_onMessage (h : Closing s) (m : Message) :
    (s.onMessage m).todo = .attemptRead :: s.rest := by
  cases m with
  | sampleRate m =>
    show State.firstSampleRate s.controller ++ s.rest = _
    rw [h.firstSampleRate]
    rfl
  | _ => rfl

theorem Pending.next (hp : Pending s) (hc : Closing s) (h : Effect s a t) : Pending t := by
  cases h with
  | quiet hc hr ht hm =>
    refine hp.imp (fun hp => ?_) (fun ⟨timer, h⟩ => ⟨timer, (ht timer).mpr h⟩)
    rw [hc]
    exact hp
  | schedule timer l h => exact .inl ⟨timer, s.controller.armed_schedule timer⟩
  | expire timer h =>
    refine .inl ⟨timer, ?_⟩
    rw [Controller.setTimer_self]
    exact Timer.armed_expire _
  | onTimer timer h => exact pending_onTimer s timer
  | message m h =>
    by_cases hm : m = .heartbeat
    · rw [hm]
      exact pending_heartbeat s
    · refine hp.imp (fun hp => ?_) (fun ⟨timer, h⟩ => ⟨timer, ?_⟩)
      · rw [timers_onMessage hm]
        exact hp
      · rw [todo_onMessage hc]
        exact List.mem_cons_of_mem _ ((State.mem_rest (by simp)).mpr h)

theorem Effect.of_message {m : Message} (h : Effect s (.onMessage m) t) :
    t = s.onMessage m ∧ s.network.reading = true := by
  cases h with
  | quiet _ _ _ hm => exact absurd rfl (hm m)
  | message m h => exact ⟨rfl, h⟩

/-- Where nothing is pending, only a message does anything. -/
theorem Effect.still (h : Effect s a t) (hp : ¬ Pending s) (hm : ∀ m, a ≠ .onMessage m) :
    ¬ Pending t ∧ t.controller = s.controller ∧
      (t.network.reading = true → s.network.reading = true) := by
  cases h with
  | quiet hc hr ht _ =>
    refine ⟨fun h => hp ?_, hc, hr⟩
    rw [Pending, hc] at h
    exact h.imp_right fun ⟨timer, h⟩ => ⟨timer, (ht timer).mp h⟩
  | schedule timer l h => exact absurd (.inr ⟨timer, by rw [h]; exact List.mem_cons_self⟩) hp
  | expire timer h => exact absurd (.inl ⟨timer, .inl h⟩) hp
  | onTimer timer h => exact absurd (.inl ⟨timer, .inr h⟩) hp
  | message m h => exact absurd rfl (hm m)

/-! ## What every process keeps -/

/-- A fork finds the parent in no send. -/
def BetweenSends (p : Process) : Event → Prop
  | .fork => p.thread.network.isSending = false
  | _ => True

instance (p : Process) (e : Event) : Decidable (BetweenSends p e) :=
  match e with
  | .fork => inferInstanceAs (Decidable (_ = false))
  | .thread _ | .start | .expire => .isTrue trivial

theorem closing_forkThread (c : Controller) (n : Network) : Closing (forkThread c n) where
  place := rfl
  instrs i hi := by
    cases List.mem_singleton.mp hi
    exact ⟨nofun, nofun, nofun, nofun⟩
  closed _ := .inl rfl
  state := rfl

/-- Every step of a process is one of these. -/
inductive Move (p : Process) : Event → Process → Prop where
  | thread (a : Label) (t : State) (hs : step p.thread a = some t) :
      Move p (.thread a) { p with thread := t, writes := if t.network.sock then p.writes else 0 }
  | fork (hforking : p.forking = false) : Move p .fork p.onFork
  | start (hforking : p.forking = true) (hplace : p.thread.place = .ended)
      (htodo : p.thread.todo = []) : Move p .start p.start
  | expire : Move p .expire p.expire

variable {p q : Process}

theorem Process.step_move {e : Event} (hs : p.step e = some q) : Move p e q := by
  cases e with
  | thread a =>
    obtain ⟨t, ht, rfl⟩ := Option.map_eq_some_iff.mp hs
    exact .thread a t ht
  | fork =>
    obtain ⟨hforking, hq⟩ := Option.ite_none_left_eq_some.mp hs
    cases hq
    exact .fork (by simpa using hforking)
  | start =>
    obtain ⟨⟨hforking, hplace, htodo⟩, rfl⟩ := Option.ite_some_none_eq_some.mp hs
    exact .start hforking hplace htodo
  | expire =>
    obtain ⟨-, rfl⟩ := Option.ite_some_none_eq_some.mp hs
    exact .expire

/-- While the agent forks, its network closes and nothing is sent. -/
def Forking (p : Process) : Prop := p.forking = true → Closing p.thread

theorem Forking.next {e : Event} (h : Forking p) (hs : p.step e = some q) : Forking q := by
  cases Process.step_move hs with
  | thread a t ht => exact fun hf => ((h hf).next ht).1
  | fork => exact fun _ => closing_forkThread _ _
  | start => exact nofun
  | expire => exact fun hf => ⟨(h hf).place, (h hf).instrs, (h hf).closed, (h hf).state⟩

/-- A write goes with its socket. -/
def WithSocket (p : Process) : Prop := p.thread.network.sock = false → p.writes = 0

theorem WithSocket.next {e : Event} (h : WithSocket p) (hs : p.step e = some q) :
    WithSocket q := by
  intro hsock
  cases Process.step_move hs with
  | thread a t =>
    show (if t.network.sock then p.writes else 0) = 0
    rw [show t.network.sock = false from hsock]
    rfl
  | fork =>
    show (if p.thread.network.sock then p.thread.todo.count .awaitWrite else 0) = 0
    rw [show p.thread.network.sock = false from hsock]
    rfl
  | start | expire => exact h hsock

/-- With nothing left to do, the forking thread has deleted the socket. -/
theorem sock_of_settled (h : Lifecycle.Inv p.thread) (hclosing : Closing p.thread)
    (htodo : p.thread.todo = []) : p.thread.network.sock = false :=
  h.settled htodo (by simp [hclosing.place]) hclosing.state

/-- The rule for what holds of the thread: the event loop keeps it, and so do the fork and
the start of the new thread. -/
theorem Process.thread_next {I : State → Prop} {e : Event}
    (hnext : ∀ a t, EventLoop.step p.thread a = some t → I t)
    (hfork : I (forkThread p.thread.controller p.thread.network))
    (hstart : p.thread.place = .ended → p.thread.todo = [] → I (startThread p.thread))
    (hexpire : I p.expire.thread) (hs : p.step e = some q) : I q.thread := by
  cases Process.step_move hs with
  | thread a t ht => exact hnext a t ht
  | fork => exact hfork
  | start _ hplace htodo => exact hstart hplace htodo
  | expire => exact hexpire

theorem lifecycle_next {e : Event} (h : Lifecycle.Inv p.thread) (hs : p.step e = some q) :
    Lifecycle.Inv q.thread := by
  refine Process.thread_next (fun a t ht => h.next ht) ?_ (fun hplace htodo => ?_) ?_ hs
  · exact ⟨nofun, nofun, h.sock, fun _ _ => .head _, fun _ _ => .inl (.head _),
      fun hc => (by rcases hc with hc | hc <;> cases hc), by simp [forkThread]⟩
  · have hsock (hstate : p.thread.controller.state = .disconnected) :=
      h.settled htodo (by simp [hplace]) hstate
    refine ⟨h.collector, fun he => ?_, h.sock, fun hstate hc => ?_, fun hstate hs => ?_,
      fun hc => (by rcases hc with hc | hc <;> cases hc), h.deleting⟩
    · cases hplace.symm.trans (h.hello he)
    · cases (h.not_connected (hsock hstate)).symm.trans hc
    · cases (hsock hstate).symm.trans hs
  · exact h.of_calm ⟨rfl, .inl rfl, rfl, id, id, fun _ _ => id, id⟩

end Opsian.Collector.Forks
