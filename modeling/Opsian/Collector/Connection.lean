import Opsian.Collector.Exclusion
import Opsian.Collector.Session

/-! # The controller's connection and the network's

Only some of the paths that close the socket tell the controller: a write that
ends with a lost connection does, a timeout does not, and what a handler tells it
during the hello is forgotten when the hello is sent. A record that was popped is sent
whatever has become of the connection by then, and `sendWithSize` may hand it to nobody. -/
namespace Opsian.Collector.Connection
open Opsian.Lib.Runs Opsian.Lib.History Opsian.Collector.EventLoop
  Opsian.Collector.Transitions Opsian.Collector.Forks Opsian.Collector.Session
open Opsian.Collector.Exclusion (active active_cons active_append active_sends active_rest
  active_firstSampleRate isWrite)

/-- The controller believes there is a connection. -/
def Believes (c : Controller) : Prop :=
  c.state = .socketConnected ∨ c.state = .sentHello ∨ c.state = .connected

/-- At the top of the loop, what the controller believes is so. A connection that the network
has closed is disconnected for the controller too, and the next poll reconnects it. -/
def Agrees (s : State) : Prop :=
  s.AtTop →
    (Believes s.controller → s.network.isConnected = true) ∧
    (s.network.isConnected = false →
      s.controller.state = .disconnected ∧
        (s.controller.on = true → s.processorRunning = true → s.enter.place = .resolving))

/-- No timeout closes a socket that is connected, and nothing disconnects during the hello. -/
def Noticed (s : State) : Label → Prop
  | .onDeadline => s.network.isConnected = false
  | .onTimer .receive => s.place ≠ .helloing
  | .written .lost => s.place ≠ .helloing
  | _ => True

instance (s : State) (a : Label) : Decidable (Noticed s a) :=
  match a with
  | .onDeadline => inferInstanceAs (Decidable (_ = false))
  | .onTimer .receive | .written .lost => inferInstanceAs (Decidable (s.place ≠ .helloing))
  | .onTimer .send | .onTimer .allocation | .onTimer .agentStatistics | .written .ok
  | .written .failed | .run | .enter | .resolved _ | .connected _ | .idle | .pop .. | .popped
  | .expire _ | .expireDeadline | .onMessage _ | .onReadError _ | .exit => .isTrue trivial

/-- Where the network has closed, the controller is about to hear of it; before a
close it has heard or will; and the hello is sent on a connection that stays. -/
structure Inv (s : State) : Prop where
  told : Believes s.controller → s.network.isConnected = true ∨ .onDisconnect ∈ s.todo
  closing : .close ∈ s.todo → s.controller.state = .disconnected ∨ .onDisconnect ∈ s.todo
  hello : s.place = .helloing →
    s.network.isConnected = true ∧ .close ∉ s.todo ∧ .onDisconnect ∉ s.todo
  connecting : s.place = .resolving ∨ s.place = .connecting →
    s.controller.state = .disconnected

variable {s t : State} {c : Controller} {l : List Instr}

theorem Inv.believes (h : Inv s) (htodo : s.todo = []) (hb : Believes s.controller) :
    s.network.isConnected = true := by
  refine (h.told hb).resolve_right fun hmem => ?_
  rw [htodo] at hmem
  cases hmem

theorem Inv.agrees (h : Inv s) (hcollector : s.controller.state ≠ .prometheusMode) :
    Agrees s := by
  refine fun htop => ⟨h.believes htop.2, fun hdown => ?_⟩
  have hstate : s.controller.state = .disconnected := by
    have hnot : ¬ Believes s.controller := fun hb => nomatch hdown.symm.trans (h.believes htop.2 hb)
    cases hc : s.controller.state with
    | socketConnected => exact absurd (.inl hc) hnot
    | sentHello => exact absurd (.inr (.inl hc)) hnot
    | connected => exact absurd (.inr (.inr hc)) hnot
    | disconnected => rfl
    | prometheusMode => exact absurd hc hcollector
  refine ⟨hstate, fun hon hrunning => ?_⟩
  simp [State.enter, hon, hrunning, hstate]

theorem init_inv (on : Bool) : Inv (init on) where
  told hb := by rcases hb with hb | hb | hb <;> cases hb
  closing := nofun
  hello := nofun
  connecting := nofun

theorem not_believes (h : c.state = .disconnected) : ¬ Believes c := by
  intro hb
  rw [Believes, h] at hb
  rcases hb with hb | hb | hb <;> cases hb

/-! ## Steps that tell nobody anything -/

/-- Closes the connection, or tells the controller of it. -/
def Closes (i : Instr) : Prop := i = .close ∨ i = .onDisconnect

/-- The controller believes what it did. -/
structure Keeps (c c' : Controller) : Prop where
  believes : Believes c' → Believes c
  disconnected : c.state = .disconnected → c'.state = .disconnected

theorem Keeps.of_state (h : c'.state = c.state) : Keeps c c' := by
  refine ⟨fun hb => ?_, fun hd => h.trans hd⟩
  rw [Believes, ← h]
  exact hb

theorem keeps_sampleRate (c : Controller) (m : SampleRate) : Keeps c (c.sampleRate m) := by
  refine ⟨fun hb => ?_, fun hd => ?_⟩
  · by_cases hc : c.state = .sentHello
    · exact .inr (.inl hc)
    · rw [Believes, Controller.sampleRate_state, if_neg hc] at hb
      exact hb
  · rw [Controller.sampleRate_state, hd]
    rfl

/-- Nothing closes, and the thread does not go on to a hello or a connect. -/
structure Quiet (s t : State) : Prop where
  keeps : Keeps s.controller t.controller
  isConnected : t.network.isConnected = s.network.isConnected
  closes : ∀ i, Closes i → (i ∈ t.todo ↔ i ∈ s.todo)
  place : t.place = .helloing ∨ t.place = .resolving ∨ t.place = .connecting → t.place = s.place

theorem closes_close : Closes .close := .inl rfl

theorem closes_onDisconnect : Closes .onDisconnect := .inr rfl

theorem Inv.of_quiet (h : Inv s) (q : Quiet s t) : Inv t where
  told hb := by
    rw [q.isConnected, q.closes _ closes_onDisconnect]
    exact h.told (q.keeps.believes hb)
  closing hm := by
    rw [q.closes _ closes_onDisconnect]
    exact (h.closing ((q.closes _ closes_close).mp hm)).imp_left q.keeps.disconnected
  hello hp := by
    rw [q.isConnected, q.closes _ closes_close, q.closes _ closes_onDisconnect]
    exact h.hello ((q.place (.inl hp)).symm.trans hp)
  connecting hp := by
    have hplace := q.place (.inr hp)
    rw [hplace] at hp
    exact q.keeps.disconnected (h.connecting hp)

theorem closes_cons {i j : Instr} (hj : ¬ Closes j) (hi : Closes i) : i ∈ j :: l ↔ i ∈ l := by
  rw [List.mem_cons, or_iff_right]
  intro hij
  exact hj (hij ▸ hi)

theorem Closes.ne_runOne {i : Instr} (hi : Closes i) : i ≠ .runOne := by
  rintro rfl
  rcases hi with hi | hi <;> cases hi

/-- A handler that only sends, sets timers and reads. -/
theorem closes_call {is : List Instr} (hq : ∀ i, Closes i → i ∉ is) {i : Instr} (hi : Closes i) :
    i ∈ (s.call is).todo ↔ i ∈ s.todo := by
  rw [State.call, List.mem_append, or_iff_right (hq i hi), State.mem_rest hi.ne_runOne]

theorem not_mem_firstSampleRate (c : Controller) {i : Instr} (hi : Closes i) :
    i ∉ State.firstSampleRate c := by
  unfold State.firstSampleRate
  rcases hi with rfl | rfl <;> split <;> simp

/-! ## The thread -/

/-- An instruction that closes nothing is done. -/
theorem Inv.of_tail {i : Instr} (h : Inv s) (htodo : s.todo = i :: l) (hi : ¬ Closes i)
    (hc : Keeps s.controller t.controller) (hn : t.network.isConnected = s.network.isConnected)
    (hp : t.place = s.place) (ht : ∀ j, Closes j → (j ∈ t.todo ↔ j ∈ l)) : Inv t := by
  refine h.of_quiet ⟨hc, hn, fun j hj => ?_, fun _ => hp⟩
  rw [ht j hj, htodo, closes_cons hi hj]

/-- Whoever closes has disconnected, or is about to. -/
theorem Inv.close (h : Inv s) (htodo : s.todo = .close :: l)
    (hc : t.controller = s.controller) (hp : t.place = s.place)
    (hlater : .onDisconnect ∈ l → .onDisconnect ∈ t.todo) : Inv t := by
  have hmem : Instr.close ∈ s.todo := by rw [htodo]; exact List.mem_cons_self
  have hheard : s.controller.state = .disconnected ∨ .onDisconnect ∈ l := by
    refine (h.closing hmem).imp_right fun hd => ?_
    rw [htodo] at hd
    exact (List.mem_cons.mp hd).resolve_left nofun
  refine ⟨fun hb => .inr ?_, fun _ => ?_, fun hhello => ?_, fun hconnecting => ?_⟩
  · rw [hc] at hb
    exact hlater (hheard.resolve_left fun hd => not_believes hd hb)
  · rw [hc]
    exact hheard.imp_right hlater
  · exact absurd hmem (h.hello (hp.symm.trans hhello)).2.1
  · rw [hp] at hconnecting
    rw [hc]
    exact h.connecting hconnecting

/-- A step away from the hello and the connect that closes nothing. -/
theorem Inv.of_calm (h : Inv s) (hc : Keeps s.controller t.controller)
    (hn : t.network.isConnected = s.network.isConnected)
    (ht : ∀ i, Closes i → (i ∈ t.todo ↔ i ∈ s.todo))
    (hp : t.place ≠ .helloing ∧ t.place ≠ .resolving ∧ t.place ≠ .connecting) : Inv t :=
  h.of_quiet ⟨hc, hn, ht, fun h' => absurd h' (by simp [hp])⟩

/-- A handler that closes nothing. -/
theorem Inv.of_call {c' : Controller} {n' : Network} {is : List Instr} (h : Inv s)
    (hc : Keeps s.controller c') (hn : n'.isConnected = s.network.isConnected)
    (hq : ∀ i, Closes i → i ∉ is) :
    Inv ({ s with controller := c', network := n' }.call is) :=
  h.of_quiet ⟨hc, hn, fun _ hi => closes_call (s := s) hq hi, fun _ => rfl⟩

/-- The controller is disconnected behind the step. -/
theorem Inv.of_disconnected (hd : t.controller.state = .disconnected)
    (hp : t.place ≠ .helloing) : Inv t :=
  ⟨fun hb => absurd hb (not_believes hd), fun _ => .inl hd, fun h => absurd h hp, fun _ => hd⟩

/-- What a pop sends closes nothing. -/
theorem closes_sends (htodo : s.todo = []) (n : Nat) (i : Instr) (hi : Closes i) :
    i ∈ List.replicate n Instr.send ↔ i ∈ s.todo := by
  rw [htodo]
  refine iff_of_false (fun hm => ?_) List.not_mem_nil
  cases List.eq_of_mem_replicate hm
  simp [Closes] at hi

theorem Inv.written {result : Written} (h : Inv s) (htodo : s.todo = .awaitWrite :: l)
    (hnoticed : result = .lost → s.place ≠ .helloing) : Inv (s.written l result) := by
  have hmem : ∀ i, Closes i → (i ∈ Instr.endSend :: l ↔ i ∈ s.todo) := by
    intro i hi
    rw [htodo, closes_cons (by simp [Closes]) hi, closes_cons (by simp [Closes]) hi]
  cases result with
  | ok => exact h.of_quiet ⟨.of_state rfl, rfl, hmem, fun _ => rfl⟩
  | failed => exact h.of_quiet ⟨.of_state rfl, rfl, hmem, fun _ => rfl⟩
  | lost =>
    have hmore : Instr.onDisconnect ∈ (s.written l .lost).todo := .tail _ (.head _)
    exact ⟨fun _ => .inr hmore, fun _ => .inr hmore, fun hp => absurd hp (hnoticed rfl),
      h.connecting⟩

theorem Inv.onTimer (h : Inv s) (timer : TimerId) (hnoticed : timer = .receive →
    s.place ≠ .helloing) : Inv (s.onTimer timer) := by
  cases timer with
  | receive =>
    exact ⟨fun hb => absurd hb (not_believes rfl), fun _ => .inl rfl,
      fun hp => absurd hp (hnoticed rfl), fun _ => rfl⟩
  | _ =>
    refine h.of_call (.of_state rfl) rfl ?_
    rintro i (rfl | rfl) <;> decide

theorem not_mem_attemptRead {i : Instr} (hi : Closes i) : i ∉ [Instr.attemptRead] := by
  rcases hi with rfl | rfl <;> decide

theorem Inv.onMessage (h : Inv s) (m : Message) : Inv (s.onMessage m) := by
  cases m with
  | sampleRate m =>
    exact h.of_call (keeps_sampleRate _ m) rfl fun _ => not_mem_firstSampleRate s.controller
  | _ => exact h.of_call (.of_state rfl) rfl fun _ => not_mem_attemptRead

theorem Inv.onDeadline (h : Inv s) (hn : s.network.isConnected = false) : Inv s.onDeadline := by
  have hclosed : { s.network with deadline := s.network.deadline.take }.closeSocket.isConnected
      = false := Network.closeSocket_isConnected hn
  exact h.of_call (.of_state rfl) (hclosed.trans hn.symm) fun _ _ => List.not_mem_nil

theorem Inv.next {a : Label} (h : Inv s) (hok : Noticed s a) (hs : step s a = some t) :
    Inv t := by
  cases step_transition hs with
  | handOver l htodo _ _ =>
    refine h.of_tail htodo (by simp [Closes]) (.of_state rfl) rfl rfl fun j hj => ?_
    exact closes_cons (by simp [Closes]) hj
  | refuse l htodo _ _ | drop l htodo _ | endSend l htodo | deleteSock l htodo
  | schedule _ l htodo | clearNotifications l htodo | attemptRead l htodo | polled l htodo
  | drained l htodo =>
    exact h.of_tail htodo (by simp [Closes]) (.of_state rfl) rfl rfl fun _ _ => Iff.rfl
  | close l htodo _ =>
    exact h.close htodo rfl rfl fun hd => List.mem_cons_of_mem _ (List.mem_cons_of_mem _ hd)
  | closeNothing l htodo _ => exact h.close htodo rfl rfl id
  | onDisconnect l htodo =>
    refine .of_disconnected rfl fun hp => ?_
    exact (h.hello hp).2.2 (by rw [htodo]; exact List.mem_cons_self)
  | sentHello _ hplace =>
    -- the hello was sent, on the connection it was begun on
    refine ⟨fun _ => .inl (h.hello hplace).1, fun hm => ?_, nofun, nofun⟩
    cases mem_polls.mp hm
  | batch | noBatch | popped =>
    exact h.of_calm (.of_state rfl) rfl (fun _ _ => Iff.rfl) ⟨nofun, nofun, nofun⟩
  | connect htop hstate => exact .of_disconnected hstate nofun
  | poll htop _ =>
    refine h.of_calm (.of_state rfl) rfl (fun i hi => ?_) ⟨nofun, nofun, nofun⟩
    rw [htop.2]
    exact iff_of_false (fun hm => hi.ne_runOne (mem_polls.mp hm)) List.not_mem_nil
  | stop htop => exact ⟨fun hb => .inl (h.believes htop.2 hb), nofun, nofun, nofun⟩
  | resolved _ hplace | unresolved _ hplace =>
    exact .of_disconnected (h.connecting (.inl hplace)) nofun
  | connected => exact ⟨fun _ => .inl rfl, nofun, fun _ => ⟨rfl, nofun, nofun⟩, nofun⟩
  | unconnected _ _ hplace => exact .of_disconnected (h.connecting (.inr hplace)) nofun
  | written result l htodo =>
    refine h.written htodo fun hlost => ?_
    subst hlost
    exact hok
  | notify _ _ sends htodo _ _ =>
    exact h.of_calm (.of_state rfl) rfl (closes_sends htodo (sends + 1)) ⟨nofun, nofun, nofun⟩
  | stash _ _ sends htodo _ _ | records _ sends htodo _ =>
    exact h.of_calm (.of_state rfl) rfl (closes_sends htodo sends) ⟨nofun, nofun, nofun⟩
  | onTimer timer =>
    refine h.onTimer timer fun htimer => ?_
    subst htimer
    exact hok
  | onDeadline => exact h.onDeadline hok
  | onMessage m => exact h.onMessage m
  | onReadError body =>
    refine h.of_call (.of_state rfl) rfl fun i hi => ?_
    cases body with
    | true => exact not_mem_attemptRead hi
    | false => exact List.not_mem_nil
  | expire | expireDeadline | exit =>
    exact h.of_quiet ⟨.of_state rfl, rfl, fun _ _ => Iff.rfl, fun _ => rfl⟩

/-! ## What becomes of a popped record -/

variable {g g' : History} {ms : List AgentEnvelope}

/-- None of the sends that are left to do is one of a popped record. -/
def Sent (g : History) : Prop := ∀ m ∈ g.pending, m.isData = false

instance (g : History) : Decidable (Sent g) :=
  inferInstanceAs (Decidable (∀ m ∈ g.pending, m.isData = false))

/-- A popped record comes to a network that can take it: none is popped, nor resent from
the stash, when there is no connection or another send is under way, and while it waits
to be sent the connection is not lost. -/
def Delivers (g : History) (s : State) : Label → Prop
  | .onTimer .receive | .written .lost => Sent g
  | .pop sends notification => s.network.isConnected = true ∨
      (sends = 0 ∧ (notification.isSome = true → s.controller.state ≠ .connected))
  | .onMessage (.sampleRate _) =>
    s.controller.state = .sentHello → s.controller.notifications ≠ [] →
      s.network.isConnected = true ∧ s.network.isSending = false
  | _ => True

instance (g : History) (s : State) (a : Label) : Decidable (Delivers g s a) :=
  match a with
  | .onTimer .receive | .written .lost => inferInstanceAs (Decidable (Sent g))
  | .pop .. => inferInstanceAs (Decidable (_ ∨ _))
  | .onMessage (.sampleRate _) =>
    inferInstanceAs (Decidable (s.controller.state = .sentHello →
      s.controller.notifications ≠ [] → _ ∧ _))
  | .onTimer .send | .onTimer .allocation | .onTimer .agentStatistics | .written .ok
  | .written .failed | .run | .enter | .resolved _ | .connected _ | .idle | .popped
  | .expire _ | .expireDeadline | .onDeadline | .onMessage .terminate | .onMessage .heartbeat
  | .onMessage .unknown | .onReadError _ | .exit => .isTrue trivial

/-- No send of a popped record is left to do above a write that is under way. -/
def Safe : List Instr → List AgentEnvelope → Prop
  | [], _ => True
  | .send :: l, ms => (∀ m ∈ ms.head?, m.isData = true → active l = 0) ∧ Safe l ms.tail
  | _ :: l, ms => Safe l ms

theorem safe_cons {i : Instr} (hi : i ≠ .send) : Safe (i :: l) ms ↔ Safe l ms := by
  cases i with
  | send => exact absurd rfl hi
  | _ => exact Iff.rfl

theorem safe_of_active (h : active l = 0) : Safe l ms := by
  induction l generalizing ms with
  | nil => trivial
  | cons i l ih =>
    have hl : active l = 0 := by
      rw [active_cons] at h
      omega
    by_cases hi : i = .send
    · subst hi
      exact ⟨fun _ _ _ => hl, ih hl⟩
    · exact (safe_cons hi).mpr (ih hl)

/-- Before what is left to do come sends of other messages. -/
theorem safe_append {is : List Instr} {ns : List AgentEnvelope} (hlength : ns.length = sends is)
    (hns : ∀ m ∈ ns, m.isData = false) (h : Safe l ms) : Safe (is ++ l) (ns ++ ms) := by
  induction is generalizing ns with
  | nil =>
    rw [List.length_eq_zero_iff.mp hlength]
    exact h
  | cons i is ih =>
    by_cases hi : i = .send
    · subst hi
      cases ns with
      | nil =>
        rw [sends_cons, if_pos rfl] at hlength
        cases hlength
      | cons n ns =>
        rw [sends_cons, if_pos rfl] at hlength
        refine ⟨fun m hm hdata => ?_, ih (Nat.succ.inj hlength) fun m hm => hns m (.tail _ hm)⟩
        cases hm
        cases (hns n (.head _)).symm.trans hdata
    · rw [sends_cons, if_neg hi] at hlength
      exact (safe_cons hi).mpr (ih hlength hns)

theorem safe_of_sent (h : ∀ m ∈ ms, m.isData = false) : Safe l ms := by
  induction l generalizing ms with
  | nil => trivial
  | cons i l ih =>
    by_cases hi : i = .send
    · subst hi
      refine ⟨fun m hm hdata => ?_, ih fun m hm => h m (List.mem_of_mem_tail hm)⟩
      cases (h m (List.mem_of_mem_head? hm)).symm.trans hdata
    · exact (safe_cons hi).mpr (ih h)

theorem safe_rest (h : Safe s.todo ms) : Safe s.rest ms := by
  unfold State.rest
  split
  · rename_i htodo
    rw [htodo] at h
    exact h
  · exact h

/-- A close that is left to do of a connection is the next thing that is done. -/
def Prompt (s : State) : Prop :=
  s.network.isConnected = true → ∀ i ∈ s.todo, Closes i → ∃ j l, s.todo = j :: l ∧ Closes j

/-- While a popped record waits to be sent there is a connection, and nothing is about to
close it. -/
structure Owed (x : State × History) : Prop where
  safe : Safe x.1.todo x.2.pending
  connected : ¬ Sent x.2 → x.1.network.isConnected = true ∧ ∀ i ∈ x.1.todo, ¬ Closes i

/-! ### The close comes at once -/

theorem Prompt.waits (h : Prompt s) (hw : s.waits = true) (hc : s.network.isConnected = true) :
    ∀ i ∈ s.todo, ¬ Closes i := by
  intro i hm hi
  obtain ⟨j, l, htodo, hj⟩ := h hc i hm hi
  unfold State.waits at hw
  rw [htodo] at hw
  rcases hj with rfl | rfl <;> cases hw

/-- Nothing is left to do that closes. -/
theorem Prompt.of_none (h : ∀ i ∈ t.todo, ¬ Closes i) : Prompt t :=
  fun _ i hm hi => absurd hi (h i hm)

theorem Prompt.of_down (h : t.network.isConnected = false) : Prompt t :=
  fun hc => nomatch h.symm.trans hc

theorem Prompt.of_head {i : Instr} (htodo : t.todo = i :: l) (hi : Closes i) : Prompt t :=
  fun _ _ _ _ => ⟨i, l, htodo, hi⟩

/-- An instruction that closes nothing is done, and no other one that closes is added. -/
theorem Prompt.of_tail {i : Instr} (h : Prompt s) (htodo : s.todo = i :: l) (hi : ¬ Closes i)
    (hc : t.network.isConnected = s.network.isConnected)
    (ht : ∀ j ∈ t.todo, Closes j → j ∈ s.todo) : Prompt t := by
  intro hup j hm hj
  obtain ⟨k, l', he, hk⟩ := h (hc ▸ hup) j (ht j hm hj) hj
  rw [htodo] at he
  exact absurd ((List.cons.inj he).1 ▸ hk) hi

theorem Prompt.of_call {c' : Controller} {n' : Network} {is : List Instr} (h : Prompt s)
    (hw : s.waits = true) (hn : n'.isConnected = true → s.network.isConnected = true)
    (hq : ∀ i, Closes i → i ∉ is) : Prompt ({ s with controller := c', network := n' }.call is) :=
  fun hup i hm hi =>
    absurd hi (h.waits hw (hn hup) i ((closes_call (s := s) hq hi).mp hm))

theorem not_closes_polls : ∀ i ∈ polls, ¬ Closes i := fun _ hm hi => hi.ne_runOne (mem_polls.mp hm)

theorem not_closes_sends (n : Nat) : ∀ i ∈ List.replicate n Instr.send, ¬ Closes i := by
  intro i hm hi
  cases List.eq_of_mem_replicate hm
  simp [Closes] at hi

theorem Prompt.onTimer (h : Prompt s) (hw : s.waits = true) (timer : TimerId) :
    Prompt (s.onTimer timer) := by
  cases timer with
  | receive => exact .of_head rfl closes_close
  | _ =>
    refine h.of_call hw id ?_
    rintro i (rfl | rfl) <;> decide

theorem Prompt.onMessage (h : Prompt s) (hw : s.waits = true) (m : Message) :
    Prompt (s.onMessage m) := by
  cases m with
  | sampleRate m => exact h.of_call hw id fun _ => not_mem_firstSampleRate s.controller
  | _ => exact h.of_call hw id fun _ => not_mem_attemptRead

theorem Prompt.next {a : Label} (h : Prompt s) (hl : Lifecycle.Inv s) (hs : step s a = some t) :
    Prompt t := by
  cases step_transition hs with
  | close => exact .of_down rfl
  | closeNothing _ _ hsock => exact .of_down (hl.not_connected hsock)
  | onDisconnect | stop => exact .of_head rfl (by simp [Closes])
  | unresolved _ hplace => exact .of_down (hl.connecting (.inl hplace)).2
  | unconnected _ _ hplace => exact .of_down (hl.connecting (.inr hplace)).2
  | sentHello | poll => exact .of_none not_closes_polls
  | notify _ _ sends => exact .of_none (not_closes_sends (sends + 1))
  | stash _ _ sends | records _ sends => exact .of_none (not_closes_sends sends)
  | connected => exact .of_none (not_closes_sends 1)
  | batch htodo | noBatch htodo | resolved htodo | popped _ htodo =>
    exact .of_none fun i hm => by simp [htodo] at hm
  | connect htop => exact .of_none fun i hm => by simp [htop.2] at hm
  | handOver l htodo =>
    refine h.of_tail htodo (by simp [Closes]) rfl fun j hm hj => ?_
    rw [htodo, closes_cons (by simp [Closes]) hj]
    exact (closes_cons (by simp [Closes]) hj).mp hm
  | refuse l htodo | drop l htodo | endSend l htodo | deleteSock l htodo | schedule _ l htodo
  | clearNotifications l htodo | attemptRead l htodo | polled l htodo | drained l htodo =>
    refine h.of_tail htodo (by simp [Closes]) rfl fun j hm _ => ?_
    rw [htodo]
    exact .tail _ hm
  | written result l htodo =>
    cases result with
    | lost => exact .of_head rfl closes_close
    | _ =>
      refine h.of_tail htodo (by simp [Closes]) rfl fun j hm hj => ?_
      rw [htodo, closes_cons (by simp [Closes]) hj]
      exact (closes_cons (by simp [Closes]) hj).mp hm
  | onTimer timer hw => exact h.onTimer hw timer
  | onMessage m hw => exact h.onMessage hw m
  | onDeadline hw =>
    exact h.of_call hw Network.isConnected_of_closeSocket fun _ _ => List.not_mem_nil
  | onReadError body hw =>
    refine h.of_call hw id fun i hi => ?_
    cases body with
    | true => exact not_mem_attemptRead hi
    | false => exact List.not_mem_nil
  | expire | expireDeadline | exit => exact h

/-! ### What waits to be sent -/

theorem Owed.of_sent (h : Sent g) : Owed (s, g) := ⟨safe_of_sent h, fun hnot => absurd h hnot⟩

theorem Owed.sent {i : Instr} (h : Owed (s, g)) (hm : i ∈ s.todo) (hi : Closes i) : Sent g := by
  by_contra hnot
  exact (h.connected hnot).2 i hm hi

theorem Owed.of_kept (h : Owed (s, g)) (hsafe : Safe t.todo g'.pending) (hsent : Sent g → Sent g')
    (hc : t.network.isConnected = s.network.isConnected)
    (ht : ∀ i ∈ t.todo, Closes i → i ∈ s.todo) : Owed (t, g') where
  safe := hsafe
  connected hnot := by
    obtain ⟨hup, hfree⟩ := h.connected fun hs => hnot (hsent hs)
    exact ⟨hc.trans hup, fun i hm hi => hfree i (ht i hm hi) hi⟩

/-- An instruction that sends nothing is done with. -/
theorem Owed.of_tail {i : Instr} (h : Owed (s, g)) (htodo : s.todo = i :: l) (hi : i ≠ .send)
    (ht : t.todo = l) (hpending : g'.pending = g.pending)
    (hc : t.network.isConnected = s.network.isConnected) : Owed (t, g') := by
  have hsafe : Safe s.todo g.pending := h.safe
  rw [htodo, safe_cons hi] at hsafe
  refine h.of_kept (by rwa [ht, hpending]) (fun hs => ?_) hc fun j hm _ => ?_
  · rw [Sent, hpending]
    exact hs
  · rw [htodo, ← ht]
    exact .tail _ hm

/-- The next send is refused, or its message is taken. -/
theorem Owed.send (h : Owed (s, g)) (htodo : s.todo = .send :: l) (taken : Bool)
    (ht : t.todo = l ∨ t.todo = .awaitWrite :: l)
    (hc : t.network.isConnected = s.network.isConnected) : Owed (t, g.send taken) := by
  have hsafe : Safe s.todo g.pending := h.safe
  rw [htodo] at hsafe
  refine h.of_kept ?_ (fun hs m hm => hs m (List.mem_of_mem_tail hm)) hc fun j hm hj => ?_
  · show Safe t.todo g.pending.tail
    rcases ht with ht | ht
    · rw [ht]
      exact hsafe.2
    · rw [ht]
      exact hsafe.2
  · rw [htodo]
    rcases ht with ht | ht
    · rw [ht] at hm
      exact .tail _ hm
    · rw [ht, closes_cons (by simp [Closes]) hj] at hm
      exact .tail _ hm

/-- A handler that sends other messages. -/
theorem Owed.of_call {c' : Controller} {n' : Network} (h : Owed (s, g)) (is : List Instr)
    (hlength : ms.length = sends is) (hms : ∀ m ∈ ms, m.isData = false)
    (hpending : g'.pending = ms ++ g.pending) (hn : n'.isConnected = s.network.isConnected)
    (hq : ∀ i, Closes i → i ∉ is) :
    Owed ({ s with controller := c', network := n' }.call is, g') := by
  refine h.of_kept ?_ (fun hs m hm => ?_) hn fun i hm hi => (closes_call (s := s) hq hi).mp hm
  · rw [hpending]
    exact safe_append hlength hms (safe_rest h.safe)
  · rw [hpending] at hm
    exact (List.mem_append.mp hm).elim (hms m) (hs m)

/-- A handler that sends nothing. -/
theorem Owed.of_silent {c' : Controller} {n' : Network} {is : List Instr} (h : Owed (s, g))
    (hsends : sends is = 0) (hpending : g'.pending = g.pending)
    (hn : n'.isConnected = s.network.isConnected) (hq : ∀ i, Closes i → i ∉ is) :
    Owed ({ s with controller := c', network := n' }.call is, g') :=
  h.of_call is (show List.length [] = _ from hsends.symm) (fun _ hm => nomatch hm) hpending hn hq

/-- Between two sends there is a connection, for whatever is to be sent next. -/
theorem Owed.of_idle (ha : active t.todo = 0) (hc : t.network.isConnected = true)
    (hfree : ∀ i ∈ t.todo, ¬ Closes i) : Owed (t, g') := ⟨safe_of_active ha, fun _ => ⟨hc, hfree⟩⟩

theorem Owed.onTimer (h : Owed (s, g)) (timer : TimerId) (hd : Delivers g s (.onTimer timer)) :
    Owed (s.onTimer timer, note g s (.onTimer timer) (s.onTimer timer)) := by
  cases timer with
  | receive => exact .of_sent hd
  | send | allocation | agentStatistics =>
    refine h.of_call [_, _] rfl (by simp [AgentEnvelope.isData]) rfl rfl ?_
    rintro i (rfl | rfl) <;> decide

/-- The stash is resent between two sends. -/
theorem Owed.sampleRate (h : Owed (s, g)) (hp : Prompt s) (he : Exclusion.Inv s)
    (hw : s.waits = true) (m : SampleRate) (hd : Delivers g s (.onMessage (.sampleRate m))) :
    Owed (s.onMessage (.sampleRate m),
      note g s (.onMessage (.sampleRate m)) (s.onMessage (.sampleRate m))) := by
  have hq (i : Instr) : Closes i → i ∉ State.firstSampleRate s.controller :=
    not_mem_firstSampleRate s.controller
  by_cases hfirst : s.controller.state = .sentHello ∧ s.controller.notifications ≠ []
  · obtain ⟨hc, hsending⟩ := hd hfirst.1 hfirst.2
    have hidle : active s.todo = 0 := by
      have hone := he.one
      have hdown := he.down
      by_contra hactive
      cases hc.symm.trans (hdown (by omega) hsending)
    refine .of_idle ?_ hc fun i hm hi => ?_
    · show active (State.firstSampleRate s.controller ++ s.rest) = 0
      rw [active_append, active_rest, hidle, active_firstSampleRate]
    · exact hp.waits hw hc i ((closes_call (s := s) hq hi).mp hm) hi
  · have hsends : (if s.controller.state = .sentHello then (stash s g).map .stashed
        else ([] : List AgentEnvelope)) = [] := by
      split
      · rename_i hstate
        have hnone : s.controller.notifications = [] := by
          by_contra hne
          exact hfirst ⟨hstate, hne⟩
        rw [stash, hnone]
        rfl
      · rfl
    refine h.of_silent ?_ ?_ rfl hq
    · rw [sends_firstSampleRate]
      split
      · rename_i hstate
        rw [if_pos hstate, List.map_eq_nil_iff] at hsends
        simpa [stash] using hsends
      · rfl
    · show (if s.controller.state = .sentHello then (stash s g).map .stashed else []) ++
        g.pending = _
      rw [hsends]
      rfl

theorem Owed.next {a : Label} (h : Owed (s, g)) (hscripted : Scripted (s, g)) (hp : Prompt s)
    (he : Exclusion.Inv s) (hn : Noticed s a) (hd : Delivers g s a) (hs : step s a = some t) :
    Owed (t, note g s a t) := by
  have hnone (htodo : s.todo = []) : Sent g := by
    intro m hm
    rw [hscripted.none htodo] at hm
    cases hm
  cases step_transition hs with
  | handOver l htodo =>
    rw [note_send htodo]
    exact h.send htodo _ (.inr rfl) rfl
  | refuse l htodo | drop l htodo =>
    rw [note_send htodo]
    exact h.send htodo _ (.inl rfl) rfl
  | attemptRead l htodo =>
    rw [note_attemptRead htodo]
    exact h.of_tail htodo nofun rfl rfl rfl
  | endSend l htodo | closeNothing l htodo | deleteSock l htodo | schedule _ l htodo
  | clearNotifications l htodo =>
    rw [note_cons htodo (by simp)]
    exact h.of_tail htodo nofun rfl rfl rfl
  | close l htodo | onDisconnect l htodo =>
    rw [note_cons htodo (by simp)]
    exact .of_sent (h.sent (by rw [htodo]; exact .head _) (by simp [Closes]))
  | sentHello htodo | batch htodo | noBatch htodo =>
    rw [note_nil htodo]
    exact .of_sent (hnone htodo)
  | connect htop | poll htop | stop htop => exact .of_sent (hnone htop.2)
  | resolved htodo | unresolved htodo | popped _ htodo => exact .of_sent (hnone htodo)
  | unconnected _ htodo =>
    rw [note_unconnected (by simp)]
    exact .of_sent (hnone htodo)
  | connected => exact .of_sent fun m hm => by cases List.mem_singleton.mp hm; rfl
  | written result l htodo =>
    cases result with
    | lost => exact .of_sent hd
    | _ =>
      have hrest : Owed ({ s with todo := l }, g) := h.of_tail htodo nofun rfl rfl rfl
      refine ⟨hrest.safe, fun hnot => ?_⟩
      obtain ⟨hc, hfree⟩ := hrest.connected hnot
      exact ⟨hc, List.forall_mem_cons.mpr ⟨by simp [Closes], hfree⟩⟩
  | polled l htodo | drained l htodo => exact h.of_tail htodo nofun rfl rfl rfl
  | notify n left sends htodo hplace hstate =>
    rcases hd with hc | ⟨-, hnot⟩
    · exact .of_idle (active_sends _) hc (not_closes_sends _)
    · exact absurd hstate (hnot rfl)
  | stash n left sends htodo hplace hstate =>
    rcases hd with hc | ⟨rfl, -⟩
    · exact .of_idle (active_sends _) hc (not_closes_sends _)
    · simp only [note, if_neg hstate]
      exact .of_sent (hnone htodo)
  | records left sends htodo hplace =>
    rcases hd with hc | ⟨rfl, -⟩
    · exact .of_idle (active_sends _) hc (not_closes_sends _)
    · exact .of_sent (hnone htodo)
  | expire | expireDeadline | exit => exact h.of_kept h.safe id rfl fun _ hm _ => hm
  | onTimer timer => exact h.onTimer timer hd
  | onDeadline =>
    refine .of_sent ?_
    by_contra hnot
    cases hn.symm.trans (h.connected hnot).1
  | onMessage m hw =>
    cases m with
    | sampleRate m => exact h.sampleRate hp he hw m hd
    | _ => exact h.of_silent rfl rfl rfl fun _ => not_mem_attemptRead
  | onReadError body =>
    cases body with
    | true => exact h.of_silent rfl rfl rfl fun _ => not_mem_attemptRead
    | false => exact h.of_silent rfl rfl rfl fun _ _ => List.not_mem_nil

/-- The next send of a popped record is taken. -/
theorem Owed.taken (h : Owed (s, g)) (he : Exclusion.Inv s) (htodo : s.todo = .send :: l)
    {m : AgentEnvelope} (hm : g.pending.head? = some m) (hdata : m.isData = true) :
    (s.network.isConnected && !s.network.isSending) = true := by
  have hnot : ¬ Sent g := fun hs => by
    cases (hs m (List.mem_of_mem_head? hm)).symm.trans hdata
  have hactive : active l = 0 := by
    have hsafe : Safe s.todo g.pending := h.safe
    rw [htodo] at hsafe
    exact hsafe.1 m hm hdata
  have hidle : s.network.isSending = false := he.isSending (by simpa [htodo, isWrite] using hactive)
  rw [(h.connected hnot).1, hidle]
  rfl

/-! ## Processes -/

variable {p q : Process}

structure Ledger where
  session : History
  /-- What `sendWithSize` was given and `async_write` was not. -/
  thrown : List AgentEnvelope

def opened : Ledger := ⟨start, []⟩

/-- The message of the next send, where `sendWithSize` throws it away. -/
def thrownBy (g : History) (p : Process) : Event → List AgentEnvelope
  | .thread .run =>
    match p.thread.todo with
    | .send :: _ =>
      if p.thread.network.isConnected && !p.thread.network.isSending then []
      else g.pending.head?.toList
    | _ => []
  | _ => []

def ledgerNote (x : Ledger) (p : Process) (e : Event) (q : Process) : Ledger where
  session := processNote x.session p e q
  thrown := x.thrown ++ thrownBy x.session p e

/-- Controller and network agree at the top of the loop, and no popped record was thrown
away. -/
def Kept (x : Process × Ledger) : Prop :=
  Agrees x.1.thread ∧ ∀ m ∈ x.2.thrown, m.isData = false

/-- The controller hears of every lost connection, popped records come to a network that can
take them, and no fork comes inside a send. -/
def Heard (x : Process × Ledger) : Event → Prop
  | .thread a => Noticed x.1.thread a ∧ Delivers x.2.session x.1.thread a
  | .fork => BetweenSends x.1 .fork
  | .start | .expire => True

instance (x : Process × Ledger) (e : Event) : Decidable (Heard x e) :=
  match e with
  | .thread _ => inferInstanceAs (Decidable (_ ∧ _))
  | .fork => inferInstanceAs (Decidable (BetweenSends x.1 .fork))
  | .start | .expire => .isTrue trivial

structure ProcessInv (x : Process × Ledger) : Prop where
  exclusion : Exclusion.Inv x.1.thread
  lifecycle : Lifecycle.Inv x.1.thread
  told : Inv x.1.thread
  scripted : Scripted (x.1.thread, x.2.session)
  prompt : Prompt x.1.thread
  owed : Owed (x.1.thread, x.2.session)
  thrown : ∀ m ∈ x.2.thrown, m.isData = false

theorem init_processInv (on : Bool) : ProcessInv (.init on, opened) where
  exclusion := Exclusion.init_inv on
  lifecycle := Lifecycle.init_inv on
  told := init_inv on
  scripted := rfl
  prompt := nofun
  owed := .of_sent nofun
  thrown := nofun

theorem Heard.betweenSends {x : Process × Ledger} {e : Event} (h : Heard x e) :
    BetweenSends x.1 e := by
  cases e with
  | fork => exact h
  | _ => trivial

/-- What is thrown away is no popped record. -/
theorem ProcessInv.thrownBy {x : Process × Ledger} (h : ProcessInv x) (e : Event) :
    ∀ m ∈ thrownBy x.2.session x.1 e, m.isData = false := by
  intro m hm
  unfold Connection.thrownBy at hm
  split at hm
  · split at hm
    · rename_i htodo
      split at hm
      · cases hm
      · rename_i hnot
        by_contra hdata
        exact hnot (h.owed.taken h.exclusion htodo (Option.mem_toList.mp hm) (by simpa using hdata))
    · cases hm
  · cases hm

theorem told_next {e : Event} (h : Inv p.thread)
    (hok : ∀ a, e = .thread a → Noticed p.thread a) (hs : p.step e = some q) : Inv q.thread := by
  cases Process.step_move hs with
  | thread a t ht => exact h.next (hok a rfl) ht
  | fork => exact .of_disconnected rfl nofun
  | start _ hplace htodo =>
    refine ⟨h.told, h.closing, nofun, ?_⟩
    rintro (hc | hc) <;> cases hc
  | expire => exact h.of_quiet ⟨.of_state rfl, rfl, fun _ _ => Iff.rfl, fun _ => rfl⟩

theorem prompt_next {e : Event} (h : Prompt p.thread) (hl : Lifecycle.Inv p.thread)
    (hs : p.step e = some q) : Prompt q.thread := by
  cases Process.step_move hs with
  | thread a t ht => exact h.next hl ht
  | fork => exact .of_head rfl closes_close
  | start | expire => exact h

theorem scripted_next {e : Event} (h : Scripted (p.thread, g)) (hs : p.step e = some q) :
    Scripted (q.thread, processNote g p e q) := by
  cases Process.step_move hs with
  | thread a t ht => exact h.next ht
  | fork => rfl
  | start | expire => exact h

theorem ProcessInv.next {x : Ledger} {e : Event} (h : ProcessInv (p, x)) (hok : Heard (p, x) e)
    (hs : p.step e = some q) : ProcessInv (q, ledgerNote x p e q) := by
  refine ⟨Exclusion.exclusion_next h.exclusion hok.betweenSends hs, lifecycle_next h.lifecycle hs,
    told_next h.told (fun a he => ?_) hs, scripted_next h.scripted hs,
    prompt_next h.prompt h.lifecycle hs, ?_, fun m hm => ?_⟩
  · subst he
    exact hok.1
  · cases Process.step_move hs with
    | thread a t ht => exact h.owed.next h.scripted h.prompt h.exclusion hok.1 hok.2 ht
    | fork => exact .of_sent nofun
    | start _ _ htodo =>
      refine .of_sent fun m hm => ?_
      cases (h.scripted.none htodo ▸ hm : m ∈ [])
    | expire => exact h.owed.of_kept h.owed.safe id rfl fun _ hm _ => hm
  · exact (List.mem_append.mp hm).elim (h.thrown m) (h.thrownBy e m)

/-- **Controller and network agree** at the top of the loop, and **no popped record is thrown
away**, in a run where every connection that is lost is lost in a way that the controller
hears of, with no record left to be sent on it. -/
theorem kept_of_heard (on : Bool) (events : List Event)
    (h : Steps (recording Process.step ledgerNote) Heard (.init on, opened) events) :
    Along (recording Process.step ledgerNote) Kept (.init on, opened) events :=
  (along_of_invariant (fun _ _ _ hi hok => next_of_step fun _ => ProcessInv.next hi hok)
    (init_processInv on) h).mono fun _ hi => ⟨hi.told.agrees hi.lifecycle.collector, hi.thrown⟩

/-- The thread connects, sends its hello and is told to send records, of which it pops two;
then the peer goes away, and the thread connects again. -/
def reconnected : List Label :=
  [.enter, .resolved true, .connected true, .run, .written .ok, .run, .run,
    .onMessage (.sampleRate ⟨0, 0, false, false, false, false, false⟩)] ++
    List.replicate 5 .run ++ List.replicate 9 .idle ++
    [.run, .pop 2 none, .run, .written .ok, .run, .run, .written .lost, .run, .onReadError false,
      .idle, .run, .run, .run, .run, .popped, .enter, .resolved true, .connected true]

theorem reconnected_kept :
    (∃ x, run (recording Process.step ledgerNote) (.init true, opened) (reconnected.map .thread) =
      some x ∧ Believes x.1.thread.controller ∧ x.2.session.connections = 2) ∧
    Along (recording Process.step ledgerNote) Kept (.init true, opened)
      (reconnected.map .thread) :=
  ⟨⟨_, rfl, .inl rfl, rfl⟩, kept_of_heard true (reconnected.map .thread) (by decide +kernel)⟩

/-- The write of the hello times out, which closes the socket. Its write is aborted,
and so is the read. -/
def timeout : List Label :=
  [.enter, .resolved true, .connected true, .run, .expireDeadline, .onDeadline, .written .failed,
    .run, .run, .onReadError false] ++ List.replicate (maxPolls - 1) .idle ++ [.run]

/-- The controller waits for an answer on a connection that is closed. -/
theorem timeout_unnoticed :
    ¬ Along (recording Process.step ledgerNote) Kept (.init true, opened)
      (timeout.map .thread) := by
  have hrun : ∃ x, run (recording Process.step ledgerNote) (.init true, opened)
      (timeout.map .thread) = some x ∧ x.1.thread.AtTop ∧ Believes x.1.thread.controller ∧
      x.1.thread.network.isConnected = false :=
    ⟨_, rfl, ⟨rfl, rfl⟩, .inr (.inl rfl), rfl⟩
  obtain ⟨x, hrun, htop, hb, hclosed⟩ := hrun
  refine not_along_of_run (List.prefix_refl _) hrun fun h => ?_
  cases hclosed.symm.trans ((h.1 htop).1 hb)

end Opsian.Collector.Connection
