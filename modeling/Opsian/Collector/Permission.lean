import Opsian.Collector.Exclusion
import Opsian.Collector.Session

/-! # Hello first, data only after permission

The hello is handed over behind the connect, before any handler can run, unless the flag
of a send is up that a fork has left in the parent. Data is handed over only behind a
`SampleRate` of the same connection: nothing that an old connection has left to do finds
the new one. -/
namespace Opsian.Collector.Permission
open Opsian.Lib.Runs Opsian.Lib.History Opsian.Collector.EventLoop Opsian.Collector.Transitions
open Opsian.Collector.Lifecycle (Connecting)
open Opsian.Collector.Forks Opsian.Collector.Session

/-- Nothing was handed over yet; the thread comes to the send of the hello next, and the
send is not refused. -/
structure Fresh (x : State × History) : Prop where
  wire : x.2.wire = []
  pending : x.2.pending = [.hello]
  todo : x.1.todo = [.send]
  isConnected : x.1.network.isConnected = true
  isSending : x.1.network.isSending = false

/-- On each connection the hello is handed over first, and once. -/
def HelloFirst (x : State × History) : Prop :=
  0 < x.2.connections → Fresh x ∨ ∃ ms, x.2.wire = .hello :: ms ∧ .hello ∉ ms

/-- Data is handed over behind a `SampleRate` that was read from the same connection. -/
def DataGranted (x : State × History) : Prop :=
  ∀ m ∈ x.2.wire, m.isData = true → x.2.granted = true

/-- The handlers of a closed socket run at the latest in its drain. -/
def Drained (s : State) : Label → Prop
  | .run => ∀ l, s.todo = .deleteSock :: l → s.network.reading = false
  | _ => True

instance (s : State) (a : Label) : Decidable (Drained s a) :=
  match a with
  | .run =>
    decidable_of_iff (s.todo.head? = some .deleteSock → s.network.reading = false)
      ⟨fun h _ htodo => h (by rw [htodo]; rfl),
        fun h hhead => h _ (List.head?_eq_some_iff.mp hhead).choose_spec⟩
  | .enter | .resolved _ | .connected _ | .written _ | .idle | .pop .. | .popped | .expire _
  | .expireDeadline | .onTimer _ | .onDeadline | .onMessage _ | .onReadError _ | .exit =>
    .isTrue trivial

variable {s t : State} {g g' : History} {l : List Instr}

/-! ## Reads -/

/-- The outstanding read is one of the current connection. -/
structure Reads (x : State × History) : Prop where
  lifecycle : Lifecycle.Inv x.1
  reading : x.1.network.reading = true →
    x.1.network.sock = true ∧ x.2.reader = x.2.connections
  connecting : Connecting x.1 → x.1.network.reading = false

theorem Reads.of_eq (h : Reads (s, g)) (hl : Lifecycle.Inv t) (hplace : Connecting t → Connecting s)
    (hreading : t.network.reading = true → s.network.reading = true)
    (hsock : t.network.sock = s.network.sock) (hreader : g'.reader = g.reader)
    (hconnections : g'.connections = g.connections) : Reads (t, g') where
  lifecycle := hl
  reading hr := by
    rw [hsock, hreader, hconnections]
    exact h.reading (hreading hr)
  connecting hc := by
    have hnot := h.connecting (hplace hc)
    rw [Bool.eq_false_iff] at hnot ⊢
    exact fun hr => hnot (hreading hr)

/-- Without a socket nothing is read. -/
theorem Reads.settled (h : Reads (s, g)) (hsock : s.network.sock = false) :
    s.network.reading = false := by
  by_contra hr
  have hs := (h.reading (by simpa using hr)).1
  cases hsock.symm.trans hs

theorem Reads.attemptRead (h : Reads (s, g)) (hl : Lifecycle.Inv t) (hplace : t.place = s.place)
    (hnet : t.network = s.network.attemptRead) :
    Reads (t, g.attemptRead s.network.reading) where
  lifecycle := hl
  reading hr := by
    rw [hnet] at hr ⊢
    cases hreading : s.network.reading with
    | true => exact h.reading hreading
    | false =>
      refine ⟨h.lifecycle.sock (.inl ?_), rfl⟩
      simpa [Network.attemptRead, hreading] using hr
  connecting hc := by
    have hs : Connecting s := by
      unfold Connecting at hc ⊢
      rwa [hplace] at hc
    rw [hnet]
    show (s.network.reading || s.network.isConnected) = false
    rw [h.connecting hs, (h.lifecycle.connecting hs).2]
    rfl

/-- Nothing is read behind the step. -/
theorem Reads.of_not_reading (hl : Lifecycle.Inv t) (hr : t.network.reading = false) :
    Reads (t, g) where
  lifecycle := hl
  reading h := by cases hr.symm.trans h
  connecting _ := hr

theorem Reads.onTimer (h : Reads (s, g)) (timer : TimerId) (hl : Lifecycle.Inv (s.onTimer timer)) :
    Reads (s.onTimer timer, note g s (.onTimer timer) (s.onTimer timer)) := by
  cases timer <;> exact h.of_eq hl id id rfl rfl rfl

theorem Reads.next {a : Label} (h : Reads (s, g)) (hok : Drained s a) (hs : step s a = some t) :
    Reads (t, note g s a t) := by
  have hl := h.lifecycle.next hs
  cases step_transition hs with
  | handOver l htodo | refuse l htodo | drop l htodo =>
    rw [note_send htodo]
    exact h.of_eq hl id id rfl rfl rfl
  | attemptRead l htodo =>
    rw [note_attemptRead htodo]
    exact h.attemptRead hl rfl rfl
  | deleteSock l htodo => exact .of_not_reading hl (hok l htodo)
  | endSend l htodo | close l htodo | closeNothing l htodo | onDisconnect l htodo
  | schedule timer l htodo | clearNotifications l htodo =>
    rw [note_cons htodo (by simp)]
    exact h.of_eq hl id id rfl rfl rfl
  | sentHello htodo | batch htodo | noBatch htodo =>
    rw [note_nil htodo]
    exact h.of_eq hl (by simp [Connecting]) id rfl rfl rfl
  | connect htop hstate =>
    exact .of_not_reading hl
      (h.settled (h.lifecycle.settled htop.2 (by simp [htop.1]) hstate))
  | resolved htodo hplace => exact .of_not_reading hl (h.connecting (.inl hplace))
  | connected htodo hplace hopen =>
    refine ⟨hl, fun _ => ⟨h.lifecycle.sock (.inr hopen), ?_⟩, by simp [Connecting]⟩
    show (if s.network.reading then g.reader else g.connections + 1) = g.connections + 1
    rw [h.connecting (.inr hplace)]
    rfl
  | unconnected ok htodo hplace =>
    rw [note_unconnected (by simp)]
    exact h.of_eq hl (by simp [Connecting]) id rfl rfl rfl
  | notify n left sends htodo hplace hstate =>
    simp only [note, if_pos hstate]
    exact h.of_eq hl (by simp [Connecting]) id rfl rfl rfl
  | stash n left sends htodo hplace hstate =>
    simp only [note, if_neg hstate]
    exact h.of_eq hl (by simp [Connecting]) id rfl rfl rfl
  | poll | stop | unresolved | records | popped =>
    exact h.of_eq hl (by simp [Connecting]) id rfl rfl rfl
  | written | polled | drained | expire | expireDeadline | exit =>
    exact h.of_eq hl id id rfl rfl rfl
  | onTimer timer => exact h.onTimer timer hl
  | onDeadline =>
    refine h.of_eq hl id (fun hr => ?_) (Network.closeSocket_sock _) rfl rfl
    rwa [show s.onDeadline.network.reading = _ from Network.closeSocket_reading _] at hr
  | onMessage m => cases m <;> exact .of_not_reading hl rfl
  | onReadError => exact .of_not_reading hl rfl

/-! ## The hello -/

def Greeting (x : State × History) : Prop :=
  (x.2.connections = 0 ∧ x.1.network.isConnected = false ∧ .hello ∉ x.2.pending) ∨ Fresh x ∨
    ∃ ms, x.2.wire = .hello :: ms ∧ .hello ∉ ms ∧ .hello ∉ x.2.pending

theorem Greeting.helloFirst {x : State × History} (h : Greeting x) : HelloFirst x := by
  intro hc
  rcases h with ⟨hnone, -⟩ | hfresh | ⟨ms, hwire, hms, -⟩
  · omega
  · exact .inl hfresh
  · exact .inr ⟨ms, hwire, hms⟩

/-- A step behind the hello that hands nothing over. -/
theorem Greeting.of_kept (h : Greeting (s, g)) (hfresh : ¬ Fresh (s, g))
    (hconnections : g'.connections = g.connections) (hwire : g'.wire = g.wire)
    (hpending : .hello ∈ g'.pending → .hello ∈ g.pending)
    (hup : t.network.isConnected = true → s.network.isConnected = true) : Greeting (t, g') := by
  rcases h with ⟨hnone, hdown, hp⟩ | hf | ⟨ms, hw, hms, hp⟩
  · refine .inl ⟨hconnections.trans hnone, ?_, fun hm => hp (hpending hm)⟩
    rw [Bool.eq_false_iff] at hdown ⊢
    exact fun hc => hdown (hup hc)
  · exact absurd hf hfresh
  · exact .inr (.inr ⟨ms, hwire.trans hw, hms, fun hm => hp (hpending hm)⟩)

theorem not_fresh (htodo : s.todo ≠ [.send]) : ¬ Fresh (s, g) := fun hf => htodo hf.todo

theorem not_fresh_of_waits (hwaits : s.waits = true) : ¬ Fresh (s, g) := by
  refine not_fresh fun htodo => ?_
  unfold State.waits at hwaits
  rw [htodo] at hwaits
  cases hwaits

theorem Greeting.handOver (h : Greeting (s, g)) (hc : s.network.isConnected = true) :
    Greeting (t, g.send true) := by
  rcases h with ⟨-, hdown, -⟩ | hf | ⟨ms, hw, hms, hp⟩
  · cases hdown.symm.trans hc
  · refine .inr (.inr ⟨[], ?_, List.not_mem_nil, ?_⟩)
    · show g.wire ++ g.pending.head?.toList = [.hello]
      rw [show g.wire = [] from hf.wire, show g.pending = [.hello] from hf.pending]
      rfl
    · show .hello ∉ g.pending.tail
      rw [show g.pending = [.hello] from hf.pending]
      exact List.not_mem_nil
  · refine .inr (.inr ⟨ms ++ g.pending.head?.toList, ?_, ?_,
      fun hm => hp (List.mem_of_mem_tail hm)⟩)
    · show g.wire ++ g.pending.head?.toList = _
      rw [show g.wire = _ from hw]
      rfl
    · intro hm
      rcases List.mem_append.mp hm with hm | hm
      · exact hms hm
      · exact hp (List.mem_of_mem_head? (Option.mem_toList.mp hm))

/-- The thread has not come to the hello, and no handler has run. -/
theorem Greeting.of_same (h : Greeting (s, g)) (htodo : t.todo = s.todo)
    (hup : t.network.isConnected = s.network.isConnected)
    (hsending : t.network.isSending = s.network.isSending) : Greeting (t, g) := by
  rcases h with ⟨hnone, hdown, hp⟩ | hf | hsent
  · exact .inl ⟨hnone, hup.trans hdown, hp⟩
  · exact .inr (.inl ⟨hf.wire, hf.pending, htodo.trans hf.todo, hup.trans hf.isConnected,
      hsending.trans hf.isSending⟩)
  · exact .inr (.inr hsent)

theorem not_mem_push {ms : List AgentEnvelope} (hms : .hello ∉ ms)
    (hm : .hello ∈ (g.push ms).pending) : .hello ∈ g.pending :=
  (List.mem_append.mp hm).resolve_left hms

theorem Greeting.onTimer (h : Greeting (s, g)) (timer : TimerId) (hwaits : s.waits = true) :
    Greeting (s.onTimer timer, note g s (.onTimer timer) (s.onTimer timer)) := by
  cases timer with
  | receive => exact h.of_kept (not_fresh_of_waits hwaits) rfl rfl id id
  | _ => exact h.of_kept (not_fresh_of_waits hwaits) rfl rfl (not_mem_push (by simp)) id

theorem Greeting.onMessage (h : Greeting (s, g)) (m : Message) (hwaits : s.waits = true) :
    Greeting (s.onMessage m, note g s (.onMessage m) (s.onMessage m)) := by
  cases m with
  | sampleRate m =>
    refine h.of_kept (not_fresh_of_waits hwaits) rfl rfl (fun hm => not_mem_push ?_ hm) id
    split <;> simp
  | _ => exact h.of_kept (not_fresh_of_waits hwaits) rfl rfl id id

theorem Greeting.next {a : Label} (h : Greeting (s, g))
    (hflag : a = .connected true → s.todo = [] → s.network.isOpen = true →
      s.network.isSending = false) (hs : step s a = some t) : Greeting (t, note g s a t) := by
  cases step_transition hs with
  | handOver l htodo hc hsending =>
    rw [note_send htodo, hc, hsending]
    exact h.handOver hc
  | refuse l htodo hc hsending =>
    rw [note_send htodo, hc, hsending]
    refine h.of_kept (fun hf => ?_) rfl rfl List.mem_of_mem_tail id
    cases hsending.symm.trans hf.isSending
  | drop l htodo hc =>
    rw [note_send htodo, hc]
    refine h.of_kept (fun hf => ?_) rfl rfl List.mem_of_mem_tail id
    cases hc.symm.trans hf.isConnected
  | attemptRead l htodo =>
    rw [note_attemptRead htodo]
    exact h.of_kept (not_fresh (by simp [htodo])) rfl rfl id id
  | deleteSock l htodo | endSend l htodo | closeNothing l htodo | onDisconnect l htodo
  | schedule timer l htodo | clearNotifications l htodo =>
    rw [note_cons htodo (by simp)]
    exact h.of_kept (not_fresh (by simp [htodo])) rfl rfl id id
  | close l htodo =>
    rw [note_cons htodo (by simp)]
    exact h.of_kept (not_fresh (by simp [htodo])) rfl rfl id nofun
  | sentHello htodo | batch htodo | noBatch htodo =>
    rw [note_nil htodo]
    exact h.of_kept (not_fresh (by simp [htodo])) rfl rfl id id
  | connected htodo hplace hopen =>
    exact .inr (.inl ⟨rfl, rfl, rfl, rfl, hflag rfl htodo hopen⟩)
  | connect htop | poll htop | stop htop =>
    exact h.of_kept (not_fresh (by simp [htop.2])) rfl rfl id id
  | resolved htodo hplace | unresolved htodo hplace =>
    exact h.of_kept (not_fresh (by simp [htodo])) rfl rfl id id
  | unconnected ok htodo hplace =>
    rw [note_unconnected (by simp)]
    exact h.of_kept (not_fresh (by simp [htodo])) rfl rfl id id
  | notify n left sends htodo hplace hstate =>
    simp only [note, if_pos hstate]
    exact h.of_kept (not_fresh (by simp [htodo])) rfl rfl (not_mem_push (by simp)) id
  | stash n left sends htodo hplace hstate =>
    simp only [note, if_neg hstate]
    exact h.of_kept (not_fresh (by simp [htodo])) rfl rfl (not_mem_push (by simp)) id
  | records left sends htodo =>
    exact h.of_kept (not_fresh (by simp [htodo])) rfl rfl (not_mem_push (by simp)) id
  | popped left htodo => exact h.of_same rfl rfl rfl
  | written result l htodo =>
    exact h.of_kept (not_fresh (by simp [htodo])) rfl rfl id id
  | polled l htodo | drained l htodo =>
    exact h.of_kept (not_fresh (by simp [htodo])) rfl rfl id id
  | expire | expireDeadline | exit => exact h.of_same rfl rfl rfl
  | onTimer timer hwaits => exact h.onTimer timer hwaits
  | onDeadline hwaits =>
    exact h.of_kept (not_fresh_of_waits hwaits) rfl rfl id Network.isConnected_of_closeSocket
  | onMessage m hwaits => exact h.onMessage m hwaits
  | onReadError body hwaits => exact h.of_kept (not_fresh_of_waits hwaits) rfl rfl id id

/-! ## The permission -/

/-- Until a `SampleRate` of the connection has been handled, there is no data to send. -/
structure Closed (x : State × History) : Prop where
  state : x.1.controller.state ≠ .connected
  place : ∀ left, x.1.place ≠ .popping left
  pending : ∀ m ∈ x.2.pending, m.isData = false

structure Guarded (x : State × History) : Prop where
  closed : x.1.network.isConnected = true → x.2.granted = false → Closed x
  wire : DataGranted x

theorem Guarded.of_kept (h : Guarded (s, g)) (hwire : g'.wire = g.wire)
    (hgranted : g'.granted = g.granted)
    (hup : t.network.isConnected = true → s.network.isConnected = true)
    (hstate : t.controller.state = .connected → s.controller.state = .connected)
    (hplace : ∀ left, t.place = .popping left → s.place = .popping left)
    (hpending : ∀ m ∈ g'.pending, m ∈ g.pending ∨ m.isData = false) : Guarded (t, g') where
  closed hc hg := by
    have hclosed := h.closed (hup hc) (hgranted.symm.trans hg)
    refine ⟨fun he => hclosed.state (hstate he), fun left hp => ?_, fun m hm => ?_⟩
    · exact hclosed.place left (hplace left hp)
    · exact (hpending m hm).elim (hclosed.pending m) id
  wire m hm hd := by
    rw [hwire] at hm
    rw [hgranted]
    exact h.wire m hm hd

/-- A step that the permission has been given for. -/
theorem Guarded.of_granted (h : Guarded (s, g)) (hwire : g'.wire = g.wire)
    (hgranted : g.granted = true → g'.granted = true)
    (hopen : t.network.isConnected = true → g'.granted = true) : Guarded (t, g') where
  closed hc hg := by cases hg.symm.trans (hopen hc)
  wire m hm hd := by
    rw [hwire] at hm
    exact hgranted (h.wire m hm hd)

/-- Records are removed from the queues behind the permission only. -/
theorem Guarded.popping (h : Guarded (s, g)) {left : Nat} (hplace : s.place = .popping left)
    (hc : s.network.isConnected = true) : g.granted = true := by
  by_contra hg
  exact (h.closed hc (by simpa using hg)).place left hplace

theorem connected_of_isActive {c : Controller} (hc : c.state ≠ .prometheusMode)
    (h : c.isActive = true) : c.state = .connected := by
  simp only [Controller.isActive, Bool.or_eq_true, beq_iff_eq] at h
  exact h.resolve_right hc

theorem Guarded.handOver (h : Guarded (s, g)) (hc : s.network.isConnected = true)
    (hstate : t.controller.state = s.controller.state) (hplace : t.place = s.place) :
    Guarded (t, g.send true) where
  closed _ hg := by
    have hclosed := h.closed hc hg
    refine ⟨?_, ?_, fun m hm => hclosed.pending m (List.mem_of_mem_tail hm)⟩
    · rw [hstate]
      exact hclosed.state
    · rw [hplace]
      exact hclosed.place
  wire m hm hd := by
    rcases List.mem_append.mp hm with hm | hm
    · exact h.wire m hm hd
    · by_contra hg
      have hdenied : ¬ g.granted = true := hg
      have hnot := (h.closed hc (by simpa using hdenied)).pending m
        (List.mem_of_mem_head? (Option.mem_toList.mp hm))
      cases hnot.symm.trans hd

theorem mem_push {ms : List AgentEnvelope} (hms : ∀ m ∈ ms, m.isData = false) :
    ∀ m ∈ (g.push ms).pending, m ∈ g.pending ∨ m.isData = false :=
  fun m hm => (List.mem_append.mp hm).symm.imp_right (hms m)

theorem Guarded.onTimer (h : Guarded (s, g)) (timer : TimerId) :
    Guarded (s.onTimer timer, note g s (.onTimer timer) (s.onTimer timer)) := by
  cases timer with
  | receive => exact h.of_kept rfl rfl id nofun (fun _ => id) fun _ => .inl
  | _ => exact h.of_kept rfl rfl id id (fun _ => id) (mem_push (by simp [AgentEnvelope.isData]))

theorem Guarded.onMessage (h : Guarded (s, g)) {m : Message}
    (hreader : g.reader = g.connections) :
    Guarded (s.onMessage m, note g s (.onMessage m) (s.onMessage m)) := by
  cases m with
  | sampleRate m =>
    have hgranted : (note g s (.onMessage (.sampleRate m))
        (s.onMessage (.sampleRate m))).granted = true := by
      show (g.granted || g.reader == g.connections) = true
      rw [hreader]
      simp
    exact h.of_granted rfl (fun _ => hgranted) fun _ => hgranted
  | _ => exact h.of_kept rfl rfl id id (fun _ => id) fun _ => .inl

theorem Guarded.next {a : Label} (h : Guarded (s, g)) (hreads : Reads (s, g))
    (hs : step s a = some t) : Guarded (t, note g s a t) := by
  cases step_transition hs with
  | handOver l htodo hc hsending =>
    rw [note_send htodo, hc, hsending]
    exact h.handOver hc rfl rfl
  | refuse l htodo hc hsending =>
    rw [note_send htodo, hc, hsending]
    exact h.of_kept rfl rfl id id (fun _ => id) fun m hm => .inl (List.mem_of_mem_tail hm)
  | drop l htodo hc =>
    rw [note_send htodo, hc]
    exact h.of_kept rfl rfl id id (fun _ => id) fun m hm => .inl (List.mem_of_mem_tail hm)
  | attemptRead l htodo =>
    rw [note_attemptRead htodo]
    exact h.of_kept rfl rfl id id (fun _ => id) fun _ => .inl
  | deleteSock l htodo | endSend l htodo | closeNothing l htodo | schedule timer l htodo
  | clearNotifications l htodo =>
    rw [note_cons htodo (by simp)]
    exact h.of_kept rfl rfl id id (fun _ => id) fun _ => .inl
  | close l htodo =>
    rw [note_cons htodo (by simp)]
    exact h.of_kept rfl rfl nofun id (fun _ => id) fun _ => .inl
  | onDisconnect l htodo =>
    rw [note_cons htodo (by simp)]
    exact h.of_kept rfl rfl id nofun (fun _ => id) fun _ => .inl
  | sentHello htodo =>
    rw [note_nil htodo]
    exact h.of_kept rfl rfl id nofun nofun fun _ => .inl
  | noBatch htodo =>
    rw [note_nil htodo]
    exact h.of_kept rfl rfl id id nofun fun _ => .inl
  | batch htodo hplace hactive =>
    rw [note_nil htodo]
    refine h.of_granted rfl id fun hc => ?_
    by_contra hg
    exact (h.closed hc (by simpa using hg)).state
      (connected_of_isActive hreads.lifecycle.collector hactive)
  | connect | poll | stop | resolved | unresolved | popped =>
    exact h.of_kept rfl rfl id id nofun fun _ => .inl
  | connected htodo =>
    refine ⟨fun _ _ => ⟨nofun, nofun, ?_⟩, nofun⟩
    show ∀ m ∈ [AgentEnvelope.hello], m.isData = false
    simp [AgentEnvelope.isData]
  | unconnected =>
    rw [note_unconnected (by simp)]
    exact h.of_kept rfl rfl id id nofun fun _ => .inl
  | notify n left sends htodo hplace hstate =>
    simp only [note, if_pos hstate]
    exact h.of_granted rfl id (h.popping hplace)
  | stash n left sends htodo hplace hstate =>
    simp only [note, if_neg hstate]
    exact h.of_granted rfl id (h.popping hplace)
  | records left sends htodo hplace => exact h.of_granted rfl id (h.popping hplace)
  | written | polled | drained | expire | expireDeadline | onReadError | exit =>
    exact h.of_kept rfl rfl id id (fun _ => id) fun _ => .inl
  | onTimer timer => exact h.onTimer timer
  | onDeadline =>
    exact h.of_kept rfl rfl Network.isConnected_of_closeSocket id (fun _ => id) fun _ => .inl
  | onMessage m hwaits hreading => exact h.onMessage (hreads.reading hreading).2

/-! ## Processes -/

variable {p q : Process}

/-- The thread, with what it has sent. -/
def session (x : Process × History) : State × History := (x.1.thread, x.2)

/-- A child closes the socket of its parent. -/
structure Entering (x : State × History) : Prop where
  todo : x.1.todo = [.close]
  connections : x.2.connections = 0
  pending : x.2.pending = []

theorem entering_fork (g : History) (p : Process) : Entering (p.onFork.thread, g.onFork) :=
  ⟨rfl, rfl, rfl⟩

/-- The connection of the parent is closed before anything else happens. -/
theorem Entering.next {a : Label} (h : Entering (s, g)) (hl : Lifecycle.Inv s)
    (hs : step s a = some t) :
    Greeting (t, note g s a t) ∨ Entering (t, note g s a t) := by
  have htodo : s.todo = [.close] := h.todo
  have hnone : .hello ∉ g.pending := by
    rw [show g.pending = [] from h.pending]
    exact List.not_mem_nil
  cases step_transition hs with
  | close l hl' =>
    rw [note_cons hl' (by simp)]
    exact .inl (.inl ⟨h.connections, rfl, hnone⟩)
  | closeNothing l hl' hsock =>
    rw [note_cons hl' (by simp)]
    exact .inl (.inl ⟨h.connections, hl.not_connected hsock, hnone⟩)
  | expire | expireDeadline | exit => exact .inr ⟨htodo, h.connections, h.pending⟩
  | handOver l h' | refuse l h' | drop l h' | endSend l h' | deleteSock l h' | onDisconnect l h'
  | schedule timer l h' | clearNotifications l h' | attemptRead l h' | written result l h'
  | polled l h' | drained l h' => cases htodo.symm.trans h'
  | sentHello h' | batch h' | noBatch h' | resolved h' | unresolved h' | connected h'
  | unconnected ok h' | notify n left sends h' | stash n left sends h' | records left sends h'
  | popped left h' => cases htodo.symm.trans h'
  | connect h' | poll h' | stop h' => cases htodo.symm.trans h'.2
  | onTimer timer hw | onDeadline hw | onMessage m hw | onReadError body hw =>
    unfold State.waits at hw
    rw [htodo] at hw
    cases hw

/-- The handlers of a closed socket run at the latest in its drain. -/
def ProcessDrained (p : Process) : Event → Prop
  | .thread a => Drained p.thread a
  | _ => True

instance (p : Process) (e : Event) : Decidable (ProcessDrained p e) :=
  match e with
  | .thread a => inferInstanceAs (Decidable (Drained p.thread a))
  | .fork | .start | .expire => .isTrue trivial

/-- No send's flag is up when a connect succeeds. -/
def Unflagged (p : Process) : Event → Prop
  | .thread (.connected ok) =>
    ok = true → p.thread.network.isOpen = true → p.thread.network.isSending = false
  | _ => True

/-- Every send has its message, each connection begins with its one hello, and data has
its permission. -/
def Kept (x : Process × History) : Prop :=
  Scripted (session x) ∧ HelloFirst (session x) ∧ DataGranted (session x)

structure Inv (x : State × History) : Prop where
  reads : Reads x
  scripted : Scripted x
  greeting : Greeting x ∨ Entering x
  guarded : Guarded x

theorem Inv.helloFirst {x : State × History} (h : Inv x) : HelloFirst x := by
  rcases h.greeting with hg | he
  · exact hg.helloFirst
  · intro hc
    have hnone := he.connections
    omega

theorem init_inv (on : Bool) : Inv (session (.init on, start)) where
  reads := .of_not_reading (Lifecycle.init_inv on) rfl
  scripted := rfl
  greeting := .inl (.inl ⟨rfl, rfl, List.not_mem_nil⟩)
  guarded := ⟨nofun, nofun⟩

theorem Inv.thread {a : Label} (h : Inv (s, g)) (hok : Drained s a)
    (hflag : a = .connected true → s.todo = [] → s.network.isOpen = true →
      s.network.isSending = false) (hs : step s a = some t) : Inv (t, note g s a t) where
  reads := h.reads.next hok hs
  scripted := h.scripted.next hs
  greeting := by
    rcases h.greeting with hg | he
    · exact .inl (hg.next hflag hs)
    · exact he.next h.reads.lifecycle hs
  guarded := h.guarded.next h.reads hs

theorem Inv.next {e : Event} (h : Inv (p.thread, g)) (hok : ProcessDrained p e)
    (hflag : e = .thread (.connected true) → p.thread.todo = [] →
      p.thread.network.isOpen = true → p.thread.network.isSending = false)
    (hs : p.step e = some q) : Inv (q.thread, processNote g p e q) := by
  have hl := lifecycle_next h.reads.lifecycle hs
  cases Process.step_move hs with
  | thread a t ht => exact h.thread hok (fun ha => hflag (ha ▸ rfl)) ht
  | fork =>
    refine ⟨⟨hl, fun hr => ⟨(h.reads.reading hr).1, rfl⟩, ?_⟩, rfl, .inr (entering_fork g p),
      ⟨fun _ _ => ⟨nofun, nofun, nofun⟩, nofun⟩⟩
    rintro (hc | hc) <;> cases hc
  | start _ hplace htodo =>
    refine ⟨h.reads.of_eq hl ?_ id rfl rfl rfl, h.scripted, ?_,
      h.guarded.of_kept rfl rfl id id nofun fun _ => .inl⟩
    · rintro (hc | hc) <;> cases hc
    · rcases h.greeting with hg | he
      · exact .inl (hg.of_same rfl rfl rfl)
      · cases htodo.symm.trans he.todo
  | expire =>
    refine ⟨h.reads.of_eq hl id id rfl rfl rfl, h.scripted, ?_,
      h.guarded.of_kept rfl rfl id id (fun _ => id) fun _ => .inl⟩
    exact h.greeting.imp (fun hg => hg.of_same rfl rfl rfl) fun he =>
      ⟨he.todo, he.connections, he.pending⟩

theorem Inv.kept {x : Process × History} (h : Inv (session x)) : Kept x :=
  ⟨h.scripted, h.helloFirst, h.guarded.wire⟩

/-- A hello that finds the flag up is refused. -/
theorem unflagged_of_kept {e : Event} (hs : p.step e = some q)
    (hq : Kept (q, processNote g p e q)) : Unflagged p e := by
  unfold Unflagged
  split
  · rename_i ok
    rintro rfl hopen
    obtain ⟨t, ht, rfl⟩ := Option.map_eq_some_iff.mp hs
    obtain ⟨-, rfl⟩ := Option.ite_some_none_eq_some.mp ht
    have hfirst := hq.2.1
    simp only [session, processNote, note, State.connected, hopen, Bool.and_self, if_true]
      at hfirst
    rcases hfirst (Nat.succ_pos _) with hf | ⟨ms, hwire, -⟩
    · exact hf.isSending
    · cases hwire
  · trivial

/-- **Hello first, data only after permission**: where closed sockets have run their
handlers when they are deleted, this holds of all runs whose forks come between two
sends, and of exactly those whose connects find no send's flag up. -/
theorem hello_first_data_granted (on : Bool) (events : List Event)
    (h : Steps Process.step ProcessDrained (.init on) events) :
    (Steps Process.step BetweenSends (.init on) events →
      Along (recording Process.step processNote) Kept (.init on, start) events) ∧
    (Along (recording Process.step processNote) Kept (.init on, start) events ↔
      Steps Process.step Unflagged (.init on) events) := by
  constructor
  · intro hsends
    refine (along_of_invariant (I := fun x => Exclusion.Inv x.1.thread ∧ Inv (session x))
      (fun x e y ⟨hx, hi⟩ hok hs => ?_) ⟨Exclusion.init_inv on, init_inv on⟩
      (steps_fst.mpr (h.and hsends))).mono fun _ hi => hi.2.kept
    obtain ⟨hs, hg⟩ := recording_eq_some.mp hs
    have hy := hi.next hok.1 (fun _ htodo _ => hx.isSending (by rw [htodo]; rfl)) hs
    exact ⟨Exclusion.exclusion_next hx hok.2 hs, by rwa [← hg] at hy⟩
  · have hsteps : Steps (recording Process.step processNote) (fun x e => Unflagged x.1 e)
        (.init on, start) events ↔ Steps Process.step Unflagged (.init on) events := steps_fst
    rw [← hsteps]
    refine along_iff_steps_of (I := fun x => Inv (session x)) (fun x e y hi hok hflag hs => ?_)
      (fun _ hi => hi.kept) (fun x e y _ _ _ hs hy => ?_) (init_inv on) (steps_fst.mpr h)
    · obtain ⟨hs, hg⟩ := recording_eq_some.mp hs
      have hy := hi.next hok (fun he _ hopen => by subst he; exact hflag rfl hopen) hs
      rwa [← hg] at hy
    · obtain ⟨hs, hg⟩ := recording_eq_some.mp hs
      exact unflagged_of_kept (g := x.2) hs (by rwa [← hg])

def greeted : List Label :=
  [.enter, .resolved true, .connected true, .run, .written .ok, .run, .run]

/-- The socket of the parent is closed. -/
def closed : List Label := [.run, .onReadError false, .idle, .run]

/-- Behind the `SampleRate` a record is sent, and the connection is closed in its send. -/
def record : List Label :=
  .onMessage (.sampleRate ⟨0, 0, false, false, false, false, false⟩) ::
    (List.replicate 5 .run ++ List.replicate 9 .idle ++
      [.run, .pop 1 none, .run, .expire .receive, .onTimer .receive] ++ closed)

/-- A child is forked behind the hello of its parent, and makes a connection of its own. -/
def sampled : List Event :=
  greeted.map .thread ++ [.fork] ++ closed.map .thread ++ [.start] ++
    (greeted ++ record).map .thread

theorem sampled_granted :
    (∃ x, run (recording Process.step processNote) (.init true, start) sampled = some x ∧
      x.2.wire = [.hello, .record] ∧ x.1.thread.network.sock = false) ∧
    Along (recording Process.step processNote) Kept (.init true, start) sampled := by
  have hdrained : Steps Process.step ProcessDrained (.init true) sampled := by decide +kernel
  have hsends : Steps Process.step BetweenSends (.init true) sampled := by decide +kernel
  exact ⟨⟨_, rfl, rfl, rfl⟩, (hello_first_data_granted true sampled hdrained).1 hsends⟩

/-- The process is forked while its hello is written, and the hello of the child is refused. -/
def forkedInHello : List Event :=
  [.thread .enter, .thread (.resolved true), .thread (.connected true), .thread .run, .fork] ++
    closed.map .thread ++
    [.start, .thread .enter, .thread (.resolved true), .thread (.connected true), .thread .run]

theorem hello_refused :
    (∃ x, run (recording Process.step processNote) (.init true, start) forkedInHello = some x ∧
      x.1.thread.network.isConnected = true ∧ x.2.wire = []) ∧
    ¬ Along (recording Process.step processNote) Kept (.init true, start) forkedInHello := by
  refine ⟨⟨_, rfl, rfl, rfl⟩, not_along_of_run (List.prefix_refl _) rfl fun h => ?_⟩
  rcases h.2.1 (Nat.succ_pos _) with hf | ⟨ms, hwire, -⟩
  · cases hf.isSending
  · cases hwire

end Opsian.Collector.Permission
