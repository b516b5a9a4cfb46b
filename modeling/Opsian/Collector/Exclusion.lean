import Opsian.Collector.Forks

/-! # One write at a time

`isSending_` keeps a send out of another one, but a nested send that finds no
connection clears it. Until the outer send is over there is no connection again, so
nothing is sent in its place. A child that is forked in a send has the flag and not the
send. -/
namespace Opsian.Collector.Exclusion
open Opsian.Lib.Runs Opsian.Collector.EventLoop Opsian.Collector.Transitions
  Opsian.Collector.Forks

/-- The writes that `async_write` has taken and that are not over. -/
def outstanding (p : Process) : Nat := p.thread.todo.count .awaitWrite + p.writes

/-- In a call of `sendWithSize`, behind `async_write`. -/
def isWrite : Instr → Bool
  | .awaitWrite | .endSend => true
  | _ => false

/-- The calls of `sendWithSize` that have not returned. -/
def active (todo : List Instr) : Nat := todo.countP isWrite

def Exclusive (p : Process) : Prop :=
  outstanding p ≤ 1 ∧ (active p.thread.todo = 0 → p.thread.network.isSending = false)

/-- Where the flag is down in a send, so is the connection. -/
structure Inv (s : State) : Prop where
  one : active s.todo ≤ 1
  sending : s.network.isSending = true → active s.todo = 1
  down : active s.todo = 1 → s.network.isSending = false → s.network.isConnected = false

variable {s t : State} {l : List Instr}

theorem count_awaitWrite_le (l : List Instr) : l.count .awaitWrite ≤ active l := by
  unfold active
  rw [List.count_eq_countP]
  refine List.countP_mono_left fun i _ hi => ?_
  rw [beq_iff_eq.mp hi]
  rfl

theorem Inv.isSending (h : Inv s) (ha : active s.todo = 0) : s.network.isSending = false := by
  by_contra hsending
  have hone := h.sending (by simpa using hsending)
  omega

theorem init_inv (on : Bool) : Inv (init on) where
  one := Nat.zero_le _
  sending := nofun
  down := nofun

/-! ## What is left to do -/

@[simp] theorem active_nil : active [] = 0 := rfl

@[simp] theorem active_cons (i : Instr) (l : List Instr) :
    active (i :: l) = active l + if isWrite i then 1 else 0 := List.countP_cons

@[simp] theorem active_append (l l' : List Instr) : active (l ++ l') = active l + active l' :=
  List.countP_append

@[simp] theorem active_polls : active polls = 0 := by decide

@[simp] theorem active_sends (n : Nat) : active (List.replicate n .send) = 0 := by
  simp [active, isWrite, List.countP_replicate]

@[simp] theorem active_rest (s : State) : active s.rest = active s.todo := by
  unfold State.rest
  split
  · rename_i htodo
    simp [htodo, isWrite]
  · rfl

theorem active_call {is : List Instr} (h : active is = 0) :
    active (s.call is).todo = active s.todo := by
  simp [State.call, h]

theorem active_firstSampleRate (c : Controller) : active (State.firstSampleRate c) = 0 := by
  unfold State.firstSampleRate
  split
  · simp [isWrite, active]
  · rfl

/-! ## Runs -/

/-- A step that begins no send, ends none and does not connect. -/
theorem Inv.of_active (h : Inv s) (ha : active t.todo = active s.todo)
    (hs : t.network.isSending = s.network.isSending)
    (hc : t.network.isConnected = true → s.network.isConnected = true) : Inv t where
  one := ha ▸ h.one
  sending hsending := by
    rw [ha]
    exact h.sending (hs ▸ hsending)
  down hactive hsending := by
    rw [ha] at hactive
    have hdown := h.down hactive (hs ▸ hsending)
    rw [Bool.eq_false_iff] at hdown ⊢
    exact fun hconnected => hdown (hc hconnected)

/-- Between two sends. -/
theorem Inv.of_idle (ha : active t.todo = 0) (hs : t.network.isSending = false) : Inv t where
  one := by omega
  sending hsending := by
    rw [hs] at hsending
    cases hsending
  down hactive := by omega

theorem Inv.handOver (h : Inv s) (htodo : s.todo = .send :: l)
    (hc : s.network.isConnected = true) (hs : s.network.isSending = false) : active l = 0 := by
  have hone := h.one
  have hdown := h.down
  simp only [htodo, active_cons, isWrite, hc, hs] at hone hdown
  simp at hone hdown
  omega

theorem Inv.onTimer (h : Inv s) (timer : TimerId) : Inv (s.onTimer timer) := by
  cases timer with
  | receive => exact h.of_active (active_call rfl) rfl id
  | _ => exact h.of_active (active_call rfl) rfl id

theorem Inv.onMessage (h : Inv s) (m : Message) : Inv (s.onMessage m) := by
  cases m with
  | sampleRate m => exact h.of_active (active_call (active_firstSampleRate _)) rfl id
  | _ => exact h.of_active (active_call rfl) rfl id

theorem Inv.next {a : Label} (h : Inv s) (hs : step s a = some t) : Inv t := by
  cases step_transition hs with
  | handOver l htodo hc hsending =>
    have hl := h.handOver htodo hc hsending
    exact ⟨by simp [hl, isWrite], fun _ => by simp [hl, isWrite], fun _ => nofun⟩
  | refuse l htodo => exact h.of_active (by simp [htodo, isWrite]) rfl id
  | drop l htodo hc =>
    exact ⟨by simpa [htodo, isWrite] using h.one, nofun, fun _ _ => hc⟩
  | endSend l htodo =>
    have hl : active l = 0 := by simpa [htodo, isWrite] using h.one
    exact .of_idle hl rfl
  | close l htodo => exact h.of_active (by simp [htodo, isWrite]) rfl nofun
  | closeNothing l htodo => exact h.of_active (by simp [htodo, isWrite]) rfl id
  | deleteSock l htodo => exact h.of_active (by simp [htodo, isWrite]) rfl id
  | onDisconnect l htodo => exact h.of_active (by simp [htodo, isWrite]) rfl id
  | schedule timer l htodo => exact h.of_active (by simp [htodo, isWrite]) rfl id
  | clearNotifications l htodo => exact h.of_active (by simp [htodo, isWrite]) rfl id
  | attemptRead l htodo => exact h.of_active (by simp [htodo, isWrite]) rfl id
  | sentHello htodo => exact .of_idle active_polls (h.isSending (by simp [htodo]))
  | batch htodo => exact h.of_active rfl rfl id
  | noBatch htodo => exact h.of_active rfl rfl id
  | connect htop => exact h.of_active rfl rfl id
  | poll htop => exact .of_idle active_polls (h.isSending (by simp [htop.2]))
  | stop htop => exact .of_idle rfl (h.isSending (by simp [htop.2]))
  | resolved htodo => exact h.of_active rfl rfl id
  | unresolved htodo => exact .of_idle (by simp [isWrite]) (h.isSending (by simp [htodo]))
  | connected htodo => exact .of_idle rfl (h.isSending (by simp [htodo]))
  | unconnected ok htodo => exact .of_idle (by simp [isWrite]) (h.isSending (by simp [htodo]))
  | written result l htodo =>
    refine h.of_active ?_ rfl id
    unfold State.written
    split <;> simp [htodo, isWrite]
  | polled l htodo => exact h.of_active (by simp [htodo, isWrite]) rfl id
  | drained l htodo => exact h.of_active (by simp [htodo, isWrite]) rfl id
  | notify n left sends htodo => exact .of_idle (active_sends _) (h.isSending (by simp [htodo]))
  | stash n left sends htodo => exact .of_idle (active_sends _) (h.isSending (by simp [htodo]))
  | records left sends htodo => exact .of_idle (active_sends _) (h.isSending (by simp [htodo]))
  | popped left htodo => exact h.of_active rfl rfl id
  | expire timer => exact h.of_active rfl rfl id
  | expireDeadline => exact h.of_active rfl rfl id
  | onTimer timer => exact h.onTimer timer
  | onDeadline =>
    refine h.of_active (active_call rfl) ?_ Network.isConnected_of_closeSocket
    show (Network.closeSocket _).isSending = _
    unfold Network.closeSocket
    split <;> rfl
  | onMessage m => exact h.onMessage m
  | onReadError body => cases body <;> exact h.of_active (active_call rfl) rfl id
  | exit => exact h.of_active rfl rfl id

/-! ## Processes -/

structure ProcessInv (p : Process) : Prop where
  exclusion : Inv p.thread
  lifecycle : Lifecycle.Inv p.thread
  forking : Forking p
  writes : p.writes ≤ 1
  withSocket : WithSocket p
  /-- The parent's write is gone before the child's thread starts. -/
  inherited : p.forking = false → p.writes = 0

variable {p q : Process}

theorem ProcessInv.exclusive (h : ProcessInv p) : Exclusive p := by
  refine ⟨?_, h.exclusion.isSending⟩
  unfold outstanding
  cases hforking : p.forking with
  | false =>
    rw [h.inherited hforking]
    exact Nat.le_trans (count_awaitWrite_le _) h.exclusion.one
  | true =>
    have hnone : p.thread.todo.count .awaitWrite = 0 :=
      List.count_eq_zero.mpr fun hm => ((h.forking hforking).instrs _ hm).1 rfl
    have hwrites := h.writes
    omega

theorem init_processInv (on : Bool) : ProcessInv (.init on) where
  exclusion := init_inv on
  lifecycle := Lifecycle.init_inv on
  forking := nofun
  writes := Nat.zero_le _
  withSocket _ := rfl
  inherited _ := rfl

/-- A fork between two sends keeps the order of the writes, as everything else does. -/
theorem exclusion_next {e : Event} (h : Inv p.thread) (hok : BetweenSends p e)
    (hs : p.step e = some q) : Inv q.thread := by
  cases Process.step_move hs with
  | thread a t ht => exact h.next ht
  | fork => exact .of_idle rfl hok
  | start => exact h.of_active rfl rfl id
  | expire => exact h.of_active rfl rfl id

theorem ProcessInv.next {e : Event} (h : ProcessInv p) (hok : BetweenSends p e)
    (hs : p.step e = some q) : ProcessInv q := by
  have hexclusion := exclusion_next h.exclusion hok hs
  have hlifecycle := lifecycle_next h.lifecycle hs
  have hforking := h.forking.next hs
  have hsocket := h.withSocket.next hs
  cases Process.step_move hs with
  | thread a t =>
    have hwrites : (if t.network.sock then p.writes else 0) ≤ p.writes := by split <;> omega
    refine ⟨hexclusion, hlifecycle, hforking, Nat.le_trans hwrites h.writes, hsocket, fun hf => ?_⟩
    exact Nat.le_zero.mp (h.inherited hf ▸ hwrites)
  | fork =>
    refine ⟨hexclusion, hlifecycle, hforking, ?_, hsocket, nofun⟩
    show (if p.thread.network.sock then p.thread.todo.count .awaitWrite else 0) ≤ 1
    have hone := Nat.le_trans (count_awaitWrite_le p.thread.todo) h.exclusion.one
    split <;> omega
  | start hf _ htodo =>
    exact ⟨hexclusion, hlifecycle, hforking, h.writes, hsocket,
      fun _ => h.withSocket (sock_of_settled h.lifecycle (h.forking hf) htodo)⟩
  | expire => exact ⟨hexclusion, hlifecycle, hforking, h.writes, hsocket, h.inherited⟩

/-- **Writes never overlap**, and between two sends `isSending_` is false, in exactly the runs
whose forks all come between two sends. -/
theorem exclusive_iff_betweenSends (on : Bool) (events : List Event) :
    Along Process.step Exclusive (.init on) events ↔
      Steps Process.step BetweenSends (.init on) events := by
  refine along_iff_steps (fun _ _ _ h hok hs => h.next hok hs) (fun _ h => h.exclusive)
    (fun p e q _ _ hs hq => ?_) (init_processInv on)
  cases Process.step_move hs with
  | fork => exact hq.2 rfl
  | _ => trivial

/-- The process is forked while its hello is written. -/
def forkedInHello : List Event :=
  [.thread .enter, .thread (.resolved true), .thread (.connected true), .thread .run, .fork]

/-- The child is in no send, and its flag says it is. -/
theorem inherited_flag : ¬ Along Process.step Exclusive (.init true) forkedInHello :=
  not_along_of_run (List.prefix_refl _) rfl fun h => nomatch h.2 rfl

end Opsian.Collector.Exclusion
