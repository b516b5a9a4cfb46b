import Opsian.Collector.Lifecycle
import Opsian.Lib.History

/-! # The handshake

The first `SampleRate` behind the hello connects the controller. A `SampleRate` that
is read while the hello is still being written comes too early: the controller has
not noted its hello yet, and does not come back to it. -/
namespace Opsian.Collector.Handshake
open Opsian.Lib.Runs Opsian.Lib.History Opsian.Collector.EventLoop Opsian.Collector.Transitions

/-- `onSampleRate` has run for a message from the latest socket, and neither
`onDisconnect` nor the end of the socket has come behind it. -/
def note (served : Bool) (s : State) (a : Label) (t : State) : Bool :=
  match a with
  | .onMessage (.sampleRate _) => served || s.network.sock
  | .connected _ => if t.place = .helloing then false else served
  | .onTimer .receive => false
  | .run =>
    match s.todo with
    | .onDisconnect :: _ | .deleteSock :: _ => false
    | _ => served
  | _ => served

/-- At the top of the loop, a `SampleRate` has completed the handshake. -/
def Completed (x : State × Bool) : Prop :=
  x.1.AtTop → x.2 = true → x.1.controller.state = .connected

/-- No `SampleRate` is handled while the controller sends its hello. -/
def Timely (s : State) : Label → Prop
  | .onMessage (.sampleRate _) => s.controller.state ≠ .socketConnected
  | _ => True

/-- Behind a `SampleRate` the controller is connected, or has begun to disconnect. -/
structure Inv (x : State × Bool) : Prop where
  lifecycle : Lifecycle.Inv x.1
  greeting : x.1.place = .helloing →
    x.1.controller.state = .socketConnected ∨ x.1.controller.state = .disconnected
  served : x.2 = true → x.1.controller.state = .connected ∨
    (x.1.controller.state = .disconnected ∧ x.1.network.sock = true)

variable {s t : State} {served : Bool}

theorem init_inv (on : Bool) : Inv (init on, false) where
  lifecycle := Lifecycle.init_inv on
  greeting := nofun
  served := nofun

theorem Inv.completed {x : State × Bool} (h : Inv x) : Completed x := by
  intro htop hserved
  rcases h.served hserved with hstate | ⟨hstate, hsock⟩
  · exact hstate
  · have hnone := h.lifecycle.settled htop.2 (by simp [htop.1]) hstate
    cases hnone.symm.trans hsock

/-- A step that leaves the controller's state and the socket alone and sends no hello. -/
theorem Inv.of_eq (h : Inv (s, served)) (hl : Lifecycle.Inv t)
    (hstate : t.controller.state = s.controller.state) (hsock : t.network.sock = s.network.sock)
    (hplace : t.place = .helloing → s.place = .helloing) : Inv (t, served) where
  lifecycle := hl
  greeting hp := by
    rw [hstate]
    exact h.greeting (hplace hp)
  served hs := by
    rw [hstate, hsock]
    exact h.served hs

/-- The record of the connection is over. -/
theorem Inv.of_not_served (hl : Lifecycle.Inv t) (hplace : t.place = .helloing →
    t.controller.state = .socketConnected ∨ t.controller.state = .disconnected) :
    Inv (t, false) where
  lifecycle := hl
  greeting := hplace
  served := nofun

theorem Inv.sampleRate (h : Inv (s, served)) (m : SampleRate)
    (hl : Lifecycle.Inv (s.onMessage (.sampleRate m)))
    (hok : s.controller.state ≠ .socketConnected) :
    Inv (s.onMessage (.sampleRate m), served || s.network.sock) := by
  have hstate : (s.onMessage (.sampleRate m)).controller.state =
      if s.controller.state = .sentHello then .connected else s.controller.state := rfl
  refine ⟨hl, fun hp => ?_, fun hs => ?_⟩
  · have hgreeting : s.controller.state = .socketConnected ∨
        s.controller.state = .disconnected := h.greeting hp
    have hnot : s.controller.state ≠ .sentHello := by
      rcases hgreeting with he | he <;> simp [he]
    show (s.onMessage (.sampleRate m)).controller.state = _ ∨ _
    rw [hstate, if_neg hnot]
    exact hgreeting
  · show (s.onMessage (.sampleRate m)).controller.state = _ ∨ _
    rw [hstate]
    cases hc : s.controller.state with
    | socketConnected => exact absurd hc hok
    | sentHello => exact .inl rfl
    | connected => exact .inl rfl
    | prometheusMode => exact absurd hc h.lifecycle.collector
    | disconnected =>
      refine .inr ⟨rfl, ?_⟩
      show s.network.sock = true
      rcases Bool.or_eq_true_iff.mp hs with hs | hs
      · rcases h.served hs with he | he
        · cases hc.symm.trans he
        · exact he.2
      · exact hs

/-- When the hello is over, no `SampleRate` of the connection has been handled. -/
theorem Inv.greeted (h : Inv (s, served)) (htodo : s.todo = []) (hplace : s.place = .helloing) :
    served = false := by
  by_contra hserved
  rcases h.served (by simpa using hserved) with hstate | ⟨hstate, hsock⟩
  · rcases h.greeting hplace with he | he <;> cases hstate.symm.trans he
  · have hnone := h.lifecycle.settled htodo (by simp [hplace]) hstate
    cases hnone.symm.trans hsock

theorem note_nil (htodo : s.todo = []) : note served s .run t = served := by
  simp only [note, htodo]

theorem note_cons {i : Instr} {l : List Instr} (htodo : s.todo = i :: l)
    (hi : i ≠ .onDisconnect ∧ i ≠ .deleteSock) : note served s .run t = served := by
  simp only [note, htodo]
  split
  · rename_i he
    exact absurd (List.cons.inj he).1 hi.1
  · rename_i he
    exact absurd (List.cons.inj he).1 hi.2
  · rfl

theorem Inv.onTimer (h : Inv (s, served)) (timer : TimerId) (hl : Lifecycle.Inv (s.onTimer timer)) :
    Inv (s.onTimer timer, note served s (.onTimer timer) (s.onTimer timer)) := by
  cases timer with
  | receive => exact .of_not_served hl fun _ => .inr rfl
  | _ => exact h.of_eq hl rfl rfl id

theorem Inv.onMessage (h : Inv (s, served)) {m : Message} (hok : Timely s (.onMessage m))
    (hl : Lifecycle.Inv (s.onMessage m)) :
    Inv (s.onMessage m, note served s (.onMessage m) (s.onMessage m)) := by
  cases m with
  | sampleRate m => exact h.sampleRate m hl hok
  | _ => exact h.of_eq hl rfl rfl id

theorem Inv.next {a : Label} (h : Inv (s, served)) (hok : Timely s a) (hs : step s a = some t) :
    Inv (t, note served s a t) := by
  have hl := h.lifecycle.next hs
  cases step_transition hs with
  | deleteSock l htodo =>
    simp only [note, htodo]
    exact .of_not_served hl h.greeting
  | onDisconnect l htodo =>
    simp only [note, htodo]
    exact .of_not_served hl fun _ => .inr rfl
  | handOver l htodo | refuse l htodo | drop l htodo | endSend l htodo | close l htodo
  | closeNothing l htodo | schedule timer l htodo | clearNotifications l htodo
  | attemptRead l htodo =>
    rw [note_cons htodo (by simp)]
    exact h.of_eq hl rfl rfl id
  | batch htodo | noBatch htodo =>
    rw [note_nil htodo]
    exact h.of_eq hl rfl rfl nofun
  | sentHello htodo hplace =>
    rw [note_nil htodo, h.greeted htodo hplace]
    exact .of_not_served hl nofun
  | connected htodo hplace hopen => exact .of_not_served hl fun _ => .inl rfl
  | resolved htodo hplace =>
    have hstate := (h.lifecycle.connecting (.inl hplace)).1
    exact ⟨hl, nofun, fun _ => .inr ⟨hstate, rfl⟩⟩
  | onTimer timer => exact h.onTimer timer hl
  | onDeadline => exact h.of_eq hl rfl (Network.closeSocket_sock _) id
  | onMessage m => exact h.onMessage hok hl
  | connect | poll | stop | unresolved | unconnected | notify | stash | records | popped =>
    exact h.of_eq hl rfl rfl nofun
  | written | polled | drained | expire | expireDeadline | onReadError | exit =>
    exact h.of_eq hl rfl rfl id

/-- **A `SampleRate` completes the handshake**, in a run where none is handled while
the hello is being sent. -/
theorem completed_of_timely (on : Bool) (labels : List Label)
    (h : Steps step Timely (init on) labels) :
    Along (recording step note) Completed (init on, false) labels :=
  (along_of_invariant (fun _ _ _ hi hok => next_of_step fun _ => Inv.next hi hok) (init_inv on)
    (steps_fst.mpr h)).mono fun _ hi => hi.completed

/-- A connect whose hello is sent at once. -/
def greet : List Label :=
  [.enter, .resolved true, .connected true, .run, .written .ok, .run, .run]

def rate : SampleRate := ⟨0, 0, false, false, false, false, false⟩

/-- The `SampleRate` is read behind the hello. -/
def answered : List Label :=
  greet ++ .onMessage (.sampleRate rate) :: List.replicate 5 .run ++ List.replicate 9 .idle ++
    [.run, .popped]

theorem answered_completed :
    (∃ x, run (recording step note) (init true, false) answered = some x ∧
      x.1.AtTop ∧ x.2 = true) ∧
      Along (recording step note) Completed (init true, false) answered := by
  refine ⟨⟨_, rfl, ⟨rfl, rfl⟩, rfl⟩, completed_of_timely true answered ?_⟩
  iterate 7 refine Steps.cons rfl trivial ?_
  refine Steps.cons rfl nofun ?_
  iterate 16 refine Steps.cons rfl trivial ?_
  trivial

/-- The `SampleRate` is read while the hello is being written. -/
def early : List Label :=
  [.enter, .resolved true, .connected true, .run, .onMessage (.sampleRate rate), .run,
    .written .ok, .run, .run] ++ List.replicate 10 .idle ++ [.run]

/-- The controller waits for a `SampleRate` that it has handled already. -/
theorem early_incomplete :
    ¬ Along (recording step note) Completed (init true, false) early :=
  not_along_of_run (List.prefix_refl _) (t := _) rfl fun h => absurd (h ⟨rfl, rfl⟩ rfl) (by decide)

end Opsian.Collector.Handshake
