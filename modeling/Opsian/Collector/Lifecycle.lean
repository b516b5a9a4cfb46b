import Opsian.Collector.Transitions

/-! # The life of a connection

What holds of the controller's state, the place in the loop and the socket in every
run: a disconnected controller has closed its socket or is about to, and only where
it has does it connect again. -/
namespace Opsian.Collector.Lifecycle
open Opsian.Lib.Runs Opsian.Collector.EventLoop Opsian.Collector.Transitions

/-- The thread waits in `Network::connect`. -/
def Connecting (s : State) : Prop := s.place = .resolving ∨ s.place = .connecting

structure Inv (s : State) : Prop where
  collector : s.controller.state ≠ .prometheusMode
  hello : s.controller.state = .socketConnected → s.place = .helloing
  sock : s.network.isConnected = true ∨ s.network.isOpen = true → s.network.sock = true
  down : s.controller.state = .disconnected → s.network.isConnected = true → .close ∈ s.todo
  closed : s.controller.state = .disconnected → s.network.sock = true →
    .close ∈ s.todo ∨ .deleteSock ∈ s.todo ∨ s.place = .connecting
  connecting : Connecting s →
    s.controller.state = .disconnected ∧ s.network.isConnected = false
  deleting : .deleteSock ∈ s.todo → s.network.isConnected = false

variable {s t : State} {l : List Instr}

theorem init_inv (on : Bool) : Inv (init on) where
  collector := nofun
  hello := nofun
  sock h := by rcases h with h | h <;> cases h
  down := nofun
  closed := nofun
  connecting h := by rcases h with h | h <;> cases h
  deleting := nofun

/-- The thread stays where it is and no socket is deleted. -/
structure Calm (s t : State) : Prop where
  place : t.place = s.place
  state : t.controller.state = s.controller.state ∨
    (s.controller.state = .sentHello ∧ t.controller.state = .connected)
  sock : t.network.sock = s.network.sock
  isConnected : t.network.isConnected = true → s.network.isConnected = true
  isOpen : t.network.isOpen = true → s.network.isOpen = true
  closes : ∀ i, i = .close ∨ i = .deleteSock → i ∈ s.todo → i ∈ t.todo
  deletes : .deleteSock ∈ t.todo → .deleteSock ∈ s.todo

theorem Calm.state_eq (c : Calm s t) {state : ControllerState} (hs : state ≠ .connected)
    (h : t.controller.state = state) : s.controller.state = state := by
  rcases c.state with he | ⟨-, he⟩
  · exact he.symm.trans h
  · exact absurd (h.symm.trans he) hs

theorem Calm.down (c : Calm s t) (h : s.network.isConnected = false) :
    t.network.isConnected = false := by
  rw [Bool.eq_false_iff] at h ⊢
  exact fun hc => h (c.isConnected hc)

theorem Inv.of_calm (h : Inv s) (c : Calm s t) : Inv t where
  collector ht := h.collector (c.state_eq nofun ht)
  hello ht := c.place.trans (h.hello (c.state_eq nofun ht))
  sock ht := by
    rw [c.sock]
    exact h.sock (ht.imp c.isConnected c.isOpen)
  down ht hc := c.closes _ (.inl rfl) (h.down (c.state_eq nofun ht) (c.isConnected hc))
  closed ht hs := by
    rw [c.sock] at hs
    rw [c.place]
    exact (h.closed (c.state_eq nofun ht) hs).imp (c.closes _ (.inl rfl))
      (Or.imp_left (c.closes _ (.inr rfl)))
  connecting ht := by
    have hs : Connecting s := by
      unfold Connecting at ht ⊢
      rwa [c.place] at ht
    obtain ⟨hstate, hdown⟩ := h.connecting hs
    refine ⟨?_, c.down hdown⟩
    rcases c.state with he | ⟨he, -⟩
    · exact he.trans hstate
    · cases hstate.symm.trans he
  deleting ht := c.down (h.deleting (c.deletes ht))

/-- With nothing left to do, away from the connect, a disconnected controller has no socket. -/
theorem Inv.settled (h : Inv s) (htodo : s.todo = []) (hplace : s.place ≠ .connecting)
    (hstate : s.controller.state = .disconnected) : s.network.sock = false := by
  by_contra hsock
  rcases h.closed hstate (by simpa using hsock) with hm | hm | hp
  · rw [htodo] at hm
    cases hm
  · rw [htodo] at hm
    cases hm
  · exact hplace hp

theorem Inv.not_connected (h : Inv s) (hsock : s.network.sock = false) :
    s.network.isConnected = false := by
  by_contra hc
  have hs := h.sock (.inl (by simpa using hc))
  cases hsock.symm.trans hs

/-- The thread goes on with nothing left to do, and not to a connect or a hello. -/
theorem Inv.of_settled (h : Inv s) (htodo : s.todo = [])
    (hs : s.place ≠ .connecting ∧ s.place ≠ .helloing) (ht : ¬ Connecting t)
    (hstate : t.controller.state = s.controller.state) (hnet : t.network = s.network)
    (hdelete : .deleteSock ∉ t.todo) : Inv t := by
  have hsock (hd : t.controller.state = .disconnected) : t.network.sock = false := by
    rw [hnet]
    exact h.settled htodo hs.1 (hstate ▸ hd)
  refine ⟨?_, fun he => ?_, ?_, fun hd hc => ?_, fun hd hs => ?_, fun hc => absurd hc ht,
    fun hm => absurd hm hdelete⟩
  · rw [hstate]
    exact h.collector
  · rw [hstate] at he
    exact absurd (h.hello he) hs.2
  · rw [hnet]
    exact h.sock
  · have hs := h.sock (.inl (hnet ▸ hc))
    rw [hnet] at hsock
    cases (hsock hd).symm.trans hs
  · cases (hsock hd).symm.trans hs

/-- A handler that leaves the controller's state alone. -/
theorem calm_call {c : Controller} {n : Network} {is : List Instr} (hi : .deleteSock ∉ is)
    (hc : c.state = s.controller.state ∨
      (s.controller.state = .sentHello ∧ c.state = .connected))
    (hs : n.sock = s.network.sock)
    (hn : n.isConnected = true → s.network.isConnected = true)
    (ho : n.isOpen = true → s.network.isOpen = true) :
    Calm s ({ s with controller := c, network := n }.call is) where
  place := rfl
  state := hc
  sock := hs
  isConnected := hn
  isOpen := ho
  closes _ hi hm := by
    refine List.mem_append_right _ ((State.mem_rest ?_).mpr hm)
    rcases hi with rfl | rfl <;> exact nofun
  deletes hm := State.mem_of_mem_rest ((List.mem_append.mp hm).resolve_left hi)

/-- An instruction is done with that is no close and deletes no socket. -/
theorem calm_tail {i : Instr} (htodo : s.todo = i :: l) (hi : i ≠ .close ∧ i ≠ .deleteSock)
    (hp : t.place = s.place) (hc : t.controller.state = s.controller.state)
    (hs : t.network.sock = s.network.sock)
    (hn : t.network.isConnected = s.network.isConnected)
    (ho : t.network.isOpen = s.network.isOpen) (ht : ∀ j ∈ l, j ∈ t.todo)
    (hd : .deleteSock ∈ t.todo → .deleteSock ∈ l) : Calm s t where
  place := hp
  state := .inl hc
  sock := hs
  isConnected h := hn ▸ h
  isOpen h := ho ▸ h
  closes j hj hm := by
    rw [htodo] at hm
    rcases List.mem_cons.mp hm with rfl | hm
    · rcases hj with rfl | rfl
      · exact absurd rfl hi.1
      · exact absurd rfl hi.2
    · exact ht j hm
  deletes hm := by
    rw [htodo]
    exact List.mem_cons_of_mem _ (hd hm)

/-- The controller disconnects, and the close comes next. -/
theorem Inv.disconnect (h : Inv s) {c : Controller} (hc : c.state = .disconnected)
    (hconnecting : t.place = s.place) (ht : t.controller = c) (hnet : t.network = s.network)
    (hclose : .close ∈ t.todo) (hdelete : .deleteSock ∈ t.todo → .deleteSock ∈ s.todo) :
    Inv t where
  collector := by
    rw [ht, hc]
    exact nofun
  hello he := by
    rw [ht, hc] at he
    cases he
  sock := by
    rw [hnet]
    exact h.sock
  down _ _ := hclose
  closed _ _ := .inl hclose
  connecting hw := by
    have hs : Connecting s := by
      unfold Connecting at hw ⊢
      rwa [hconnecting] at hw
    rw [ht, hnet]
    exact ⟨hc, (h.connecting hs).2⟩
  deleting hm := by
    rw [hnet]
    exact h.deleting (hdelete hm)

theorem Inv.onTimer (h : Inv s) (timer : TimerId) : Inv (s.onTimer timer) := by
  cases timer with
  | receive =>
    refine h.disconnect rfl rfl rfl rfl (List.mem_append_left _ (.head _)) fun hm => ?_
    exact State.mem_of_mem_rest ((List.mem_append.mp hm).resolve_left (by decide))
  | _ => exact h.of_calm (calm_call (by decide) (.inl rfl) rfl id id)

theorem sampleRate_state (c : Controller) (m : SampleRate) :
    (c.sampleRate m).state = c.state ∨
      (c.state = .sentHello ∧ (c.sampleRate m).state = .connected) := by
  by_cases hc : c.state = .sentHello
  · exact .inr ⟨hc, if_pos hc⟩
  · exact .inl (if_neg hc)

theorem not_mem_firstSampleRate (c : Controller) : .deleteSock ∉ State.firstSampleRate c := by
  unfold State.firstSampleRate
  split <;> simp

theorem Inv.onMessage (h : Inv s) (m : Message) : Inv (s.onMessage m) := by
  cases m with
  | sampleRate m =>
    exact h.of_calm (calm_call (not_mem_firstSampleRate _) (sampleRate_state _ m) rfl id id)
  | _ => exact h.of_calm (calm_call (by decide) (.inl rfl) rfl id id)

theorem Inv.onDeadline (h : Inv s) : Inv s.onDeadline := by
  refine h.of_calm (calm_call List.not_mem_nil (.inl rfl) ?_ ?_ ?_) <;>
    · unfold Network.closeSocket
      split <;> simp

theorem Inv.next {a : Label} (h : Inv s) (hs : step s a = some t) : Inv t := by
  cases step_transition hs with
  | close l htodo hsock =>
    exact ⟨h.collector, h.hello, fun _ => hsock, nofun, fun _ _ => .inr (.inl (.tail _ (.head _))),
      fun hc => ⟨(h.connecting hc).1, rfl⟩, fun _ => rfl⟩
  | closeNothing l htodo hsock =>
    have hc := h.not_connected hsock
    refine ⟨h.collector, h.hello, h.sock, fun _ ht => ?_, fun _ ht => ?_, h.connecting, fun _ => hc⟩
    · cases hc.symm.trans ht
    · cases hsock.symm.trans ht
  | deleteSock l htodo =>
    have hc := h.deleting (by rw [htodo]; exact .head _)
    refine ⟨h.collector, h.hello, fun ht => ?_, fun _ ht => ?_, fun _ ht => ?_, h.connecting,
      fun _ => hc⟩
    · rcases ht with ht | ht
      · cases hc.symm.trans ht
      · cases ht
    · cases hc.symm.trans ht
    · cases ht
  | onDisconnect l htodo =>
    exact h.disconnect (c := s.controller.disconnect) rfl rfl rfl rfl (.head _) (by simp [htodo])
  | sentHello htodo hplace =>
    refine ⟨nofun, nofun, h.sock, nofun, nofun, fun hc => ?_, fun hm => nomatch mem_polls.mp hm⟩
    rcases hc with hc | hc <;> cases hc
  | batch htodo hplace | noBatch htodo hplace | popped _ htodo hplace =>
    exact h.of_settled htodo (by simp [hplace]) (by simp [Connecting]) rfl rfl (by simp [htodo])
  | connect htop hstate =>
    have hsock := h.settled htop.2 (by simp [htop.1]) hstate
    have hc := h.not_connected hsock
    refine ⟨h.collector, fun he => ?_, h.sock, fun _ ht => ?_, fun _ ht => ?_,
      fun _ => ⟨hstate, hc⟩, fun _ => hc⟩
    · cases hstate.symm.trans he
    · cases hc.symm.trans ht
    · cases hsock.symm.trans ht
  | poll htop =>
    exact h.of_settled htop.2 (by simp [htop.1]) (by simp [Connecting]) rfl rfl
      (by simp [mem_polls])
  | stop htop =>
    exact h.of_settled htop.2 (by simp [htop.1]) (by simp [Connecting]) rfl rfl (by simp)
  | resolved htodo hplace =>
    obtain ⟨hstate, hc⟩ := h.connecting (.inl hplace)
    refine ⟨h.collector, fun he => ?_, fun _ => rfl, fun _ ht => ?_, fun _ _ => .inr (.inr rfl),
      fun _ => ⟨hstate, hc⟩, fun _ => hc⟩
    · cases hstate.symm.trans he
    · cases hc.symm.trans ht
  | unresolved htodo hplace =>
    exact h.of_settled htodo (by simp [hplace]) (by simp [Connecting]) rfl rfl
      (by simp [mem_polls])
  | connected htodo hplace hopen =>
    refine ⟨nofun, fun _ => rfl, fun _ => h.sock (.inr hopen), nofun, nofun, fun hc => ?_,
      fun hm => ?_⟩
    · rcases hc with hc | hc <;> cases hc
    · simp at hm
  | unconnected ok htodo hplace =>
    obtain ⟨hstate, hc⟩ := h.connecting (.inr hplace)
    refine ⟨h.collector, fun he => ?_, h.sock, fun _ _ => .head _, fun _ _ => .inl (.head _),
      fun hc => ?_, fun _ => hc⟩
    · cases hstate.symm.trans he
    · rcases hc with hc | hc <;> cases hc
  | handOver l htodo =>
    refine h.of_calm (calm_tail htodo (by simp) rfl rfl rfl rfl rfl ?_ ?_)
    · exact fun _ => List.mem_cons_of_mem _
    · simp
  | refuse l htodo | drop l htodo | endSend l htodo | schedule timer l htodo
  | clearNotifications l htodo | attemptRead l htodo | polled l htodo | drained l htodo =>
    exact h.of_calm (calm_tail htodo (by simp) rfl rfl rfl rfl rfl (fun _ => id) id)
  | written result l htodo =>
    refine h.of_calm (calm_tail htodo (by simp) rfl rfl rfl rfl rfl ?_ ?_)
    · exact fun j hj => List.mem_append_right _ (.tail _ hj)
    · unfold State.written
      split <;> simp
  | notify n left sends htodo hplace | stash n left sends htodo hplace
  | records left sends htodo hplace =>
    exact h.of_settled htodo (by simp [hplace]) (by simp [Connecting]) rfl rfl (by simp)
  | expire | expireDeadline | exit =>
    exact h.of_calm ⟨rfl, .inl rfl, rfl, id, id, fun _ _ => id, id⟩
  | onTimer timer => exact h.onTimer timer
  | onDeadline => exact h.onDeadline
  | onMessage m => exact h.onMessage m
  | onReadError body =>
    refine h.of_calm (calm_call ?_ (.inl rfl) rfl id id)
    cases body <;> simp

end Opsian.Collector.Lifecycle
