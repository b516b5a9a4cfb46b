import Opsian.Collector.EventLoop

/-! # What one step of the thread does

Every step, by what it does and where it does it. -/
namespace Opsian.Collector.Transitions
open Opsian.Collector.EventLoop

inductive Transition (s : State) : Label → State → Prop where
  /-- `async_write` takes the message. -/
  | handOver (l : List Instr) (htodo : s.todo = .send :: l) (hc : s.network.isConnected = true)
      (hs : s.network.isSending = false) :
      Transition s .run { s with
        network := { s.network with isSending := true, deadline := s.network.deadline.schedule }
        todo := .awaitWrite :: l }
  | refuse (l : List Instr) (htodo : s.todo = .send :: l) (hc : s.network.isConnected = true)
      (hs : s.network.isSending = true) : Transition s .run { s with todo := l }
  | drop (l : List Instr) (htodo : s.todo = .send :: l) (hc : s.network.isConnected = false) :
      Transition s .run { s with network := { s.network with isSending := false }, todo := l }
  | endSend (l : List Instr) (htodo : s.todo = .endSend :: l) :
      Transition s .run { s with network := { s.network with isSending := false }, todo := l }
  | close (l : List Instr) (htodo : s.todo = .close :: l) (hs : s.network.sock = true) :
      Transition s .run { s with
        network := { s.network with isOpen := false, isConnected := false }
        todo := .drain :: .deleteSock :: l }
  | closeNothing (l : List Instr) (htodo : s.todo = .close :: l) (hs : s.network.sock = false) :
      Transition s .run { s with todo := l }
  | deleteSock (l : List Instr) (htodo : s.todo = .deleteSock :: l) :
      Transition s .run { s with network := s.network.deleteSock, todo := l }
  | onDisconnect (l : List Instr) (htodo : s.todo = .onDisconnect :: l) :
      Transition s .run { s with controller := s.controller.disconnect, todo := .close :: l }
  | schedule (timer : TimerId) (l : List Instr) (htodo : s.todo = .schedule timer :: l) :
      Transition s .run { s with controller := s.controller.schedule timer, todo := l }
  | clearNotifications (l : List Instr) (htodo : s.todo = .clearNotifications :: l) :
      Transition s .run
        { s with controller := { s.controller with notifications := [] }, todo := l }
  | attemptRead (l : List Instr) (htodo : s.todo = .attemptRead :: l) :
      Transition s .run { s with network := s.network.attemptRead, todo := l }
  | sentHello (htodo : s.todo = []) (hplace : s.place = .helloing) :
      Transition s .run
        { s with controller := s.controller.onSentHello, place := .polling, todo := polls }
  /-- The test before a batch of pops. -/
  | batch (htodo : s.todo = []) (hplace : s.place = .polling)
      (hactive : s.controller.isActive = true) :
      Transition s .run { s with place := .popping maxPolls }
  | noBatch (htodo : s.todo = []) (hplace : s.place = .polling)
      (hactive : s.controller.isActive = false) : Transition s .run { s with place := .top }
  | connect (htop : s.AtTop) (hstate : s.controller.state = .disconnected) :
      Transition s .enter { s with controller := s.controller.backoff, place := .resolving }
  | poll (htop : s.AtTop) (hstate : s.controller.state ≠ .disconnected) :
      Transition s .enter { s with place := .polling, todo := polls }
  | stop (htop : s.AtTop) : Transition s .enter { s with place := .ended, todo := [.onDisconnect] }
  | resolved (htodo : s.todo = []) (hplace : s.place = .resolving) :
      Transition s (.resolved true) { s with network := s.network.newSock, place := .connecting }
  | unresolved (htodo : s.todo = []) (hplace : s.place = .resolving) :
      Transition s (.resolved false)
        { s with place := .polling, todo := .runOne :: .close :: polls }
  | connected (htodo : s.todo = []) (hplace : s.place = .connecting)
      (hopen : s.network.isOpen = true) :
      Transition s (.connected true) { s with
        network := s.network.connected
        controller := { s.controller with state := .socketConnected, backoffTimeInMs := 0 }
        place := .helloing
        todo := [.send] }
  | unconnected (ok : Bool) (htodo : s.todo = []) (hplace : s.place = .connecting) :
      Transition s (.connected ok) { s with
        network := { s.network with deadline := s.network.deadline.cancel }
        place := .polling
        todo := .close :: polls }
  | written (result : Written) (l : List Instr) (htodo : s.todo = .awaitWrite :: l) :
      Transition s (.written result) (s.written l result)
  | polled (l : List Instr) (htodo : s.todo = .runOne :: l) :
      Transition s .idle { s with todo := l }
  | drained (l : List Instr) (htodo : s.todo = .drain :: l) :
      Transition s .idle { s with todo := l }
  /-- A notification is sent, and so many messages more. -/
  | notify (n : StashedNotification) (left sends : Nat) (htodo : s.todo = [])
      (hplace : s.place = .popping (left + 1)) (hstate : s.controller.state = .connected) :
      Transition s (.pop sends (some n))
        { s with place := .popping left, todo := List.replicate (sends + 1) .send }
  | stash (n : StashedNotification) (left sends : Nat) (htodo : s.todo = [])
      (hplace : s.place = .popping (left + 1)) (hstate : s.controller.state ≠ .connected) :
      Transition s (.pop sends (some n)) { s with
        controller := { s.controller with notifications := s.controller.notifications ++ [n] }
        place := .popping left
        todo := List.replicate sends .send }
  | records (left sends : Nat) (htodo : s.todo = []) (hplace : s.place = .popping (left + 1)) :
      Transition s (.pop sends none)
        { s with place := .popping left, todo := List.replicate sends .send }
  | popped (left : Nat) (htodo : s.todo = []) (hplace : s.place = .popping left) :
      Transition s .popped { s with place := .top }
  | expire (timer : TimerId) (hwait : (s.controller.timers timer).wait = true) :
      Transition s (.expire timer)
        { s with controller := s.controller.setTimer timer (s.controller.timers timer).expire }
  | expireDeadline :
      Transition s .expireDeadline
        { s with network := { s.network with deadline := s.network.deadline.expire } }
  | onTimer (timer : TimerId) (hwaits : s.waits = true)
      (hexpired : 0 < (s.controller.timers timer).expired) :
      Transition s (.onTimer timer) (s.onTimer timer)
  | onDeadline (hwaits : s.waits = true) : Transition s .onDeadline s.onDeadline
  | onMessage (m : Message) (hwaits : s.waits = true) (hreading : s.network.reading = true) :
      Transition s (.onMessage m) (s.onMessage m)
  | onReadError (body : Bool) (hwaits : s.waits = true) (hreading : s.network.reading = true) :
      Transition s (.onReadError body) (s.onReadError body)
  | exit : Transition s .exit { s with processorRunning := false }

variable {s t : State} {l : List Instr}

theorem exec_transition {i : Instr} (htodo : s.todo = i :: l) (hs : s.exec l i = some t) :
    Transition s .run t := by
  cases i with
  | send =>
    cases hs
    unfold State.sendWithSize
    split
    · split
      · exact .refuse l htodo (by assumption) (by assumption)
      · exact .handOver l htodo (by assumption) (Bool.eq_false_iff.mpr (by assumption))
    · exact .drop l htodo (Bool.eq_false_iff.mpr (by assumption))
  | endSend => cases hs; exact .endSend l htodo
  | close =>
    cases hs
    by_cases hsock : s.network.sock = true
    · rw [if_pos hsock, Network.closeSocket, if_pos hsock]
      exact .close l htodo hsock
    · rw [if_neg hsock, Network.closeSocket, if_neg hsock]
      exact .closeNothing l htodo (by simpa using hsock)
  | deleteSock => cases hs; exact .deleteSock l htodo
  | onDisconnect => cases hs; exact .onDisconnect l htodo
  | schedule timer => cases hs; exact .schedule timer l htodo
  | clearNotifications => cases hs; exact .clearNotifications l htodo
  | attemptRead => cases hs; exact .attemptRead l htodo
  | awaitWrite => cases hs
  | drain => cases hs
  | runOne => cases hs

theorem proceed_transition (htodo : s.todo = []) (hs : s.proceed = some t) :
    Transition s .run t := by
  unfold State.proceed at hs
  split at hs
  · cases hs
    exact .sentHello htodo (by assumption)
  · cases hs
    by_cases hactive : s.controller.isActive = true
    · rw [if_pos hactive]
      exact .batch htodo (by assumption) hactive
    · rw [if_neg hactive]
      exact .noBatch htodo (by assumption) (by simpa using hactive)
  · cases hs

theorem enter_transition (htop : s.AtTop) : Transition s .enter s.enter := by
  unfold State.enter
  split
  · split
    · exact .connect htop (by assumption)
    · exact .poll htop (by assumption)
  · exact .stop htop

theorem pop_transition {left sends : Nat} {notification : Option StashedNotification}
    (htodo : s.todo = []) (hplace : s.place = .popping (left + 1)) :
    Transition s (.pop sends notification) (s.pop left sends notification) := by
  unfold State.pop
  split
  · split
    · exact .notify _ left sends htodo hplace (by assumption)
    · exact .stash _ left sends htodo hplace (by assumption)
  · exact .records left sends htodo hplace

/-- Every step is one of these. -/
theorem step_transition {a : Label} (hs : step s a = some t) : Transition s a t := by
  cases a with
  | run =>
    rcases step_run hs with ⟨htodo, hs⟩ | ⟨i, l, htodo, hs⟩
    · exact proceed_transition htodo hs
    · exact exec_transition htodo hs
  | enter =>
    obtain ⟨htop, rfl⟩ := Option.ite_some_none_eq_some.mp hs
    exact enter_transition htop
  | resolved ok =>
    obtain ⟨⟨hplace, htodo⟩, rfl⟩ := Option.ite_some_none_eq_some.mp hs
    cases ok with
    | true => exact .resolved htodo hplace
    | false => exact .unresolved htodo hplace
  | connected ok =>
    obtain ⟨⟨hplace, htodo⟩, rfl⟩ := Option.ite_some_none_eq_some.mp hs
    unfold State.connected
    split
    · rename_i hok
      obtain ⟨rfl, hopen⟩ := Bool.and_eq_true_iff.mp hok
      exact .connected htodo hplace hopen
    · exact .unconnected ok htodo hplace
  | written result =>
    obtain ⟨l, htodo, rfl⟩ := step_written hs
    exact .written result l htodo
  | idle =>
    obtain ⟨i, l, htodo, hi, rfl⟩ := step_idle hs
    rcases hi with rfl | rfl
    · exact .polled l htodo
    · exact .drained l htodo
  | pop sends notification =>
    obtain ⟨left, htodo, hplace, rfl⟩ := step_pop hs
    exact pop_transition htodo hplace
  | popped =>
    obtain ⟨left, htodo, hplace, rfl⟩ := step_popped hs
    exact .popped left htodo hplace
  | expire timer =>
    obtain ⟨hwait, rfl⟩ := Option.ite_some_none_eq_some.mp hs
    exact .expire timer hwait
  | expireDeadline =>
    obtain ⟨-, rfl⟩ := Option.ite_some_none_eq_some.mp hs
    exact .expireDeadline
  | onTimer timer =>
    obtain ⟨⟨hwaits, hexpired⟩, rfl⟩ := Option.ite_some_none_eq_some.mp hs
    exact .onTimer timer hwaits hexpired
  | onDeadline =>
    obtain ⟨⟨hwaits, -⟩, rfl⟩ := Option.ite_some_none_eq_some.mp hs
    exact .onDeadline hwaits
  | onMessage m =>
    obtain ⟨⟨hwaits, hreading⟩, rfl⟩ := Option.ite_some_none_eq_some.mp hs
    exact .onMessage m hwaits hreading
  | onReadError body =>
    obtain ⟨⟨hwaits, hreading⟩, rfl⟩ := Option.ite_some_none_eq_some.mp hs
    exact .onReadError body hwaits hreading
  | exit =>
    cases hs
    exact .exit

end Opsian.Collector.Transitions
