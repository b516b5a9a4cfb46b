import Opsian.Collector.Transitions
import Opsian.Lib.History

/-! # Quiet behind a disconnect

`onDisconnect` cancels the timers that schedule themselves and turns the metrics off.
What was queued before it is not revoked, and a handler that is in progress goes on:
both schedule again what was cancelled. -/
namespace Opsian.Collector.Quiescence
open Opsian.Lib.Runs Opsian.Lib.History Opsian.Collector.EventLoop Opsian.Collector.Transitions

structure History where
  /-- In a call of `onDisconnect`, how much is left to do where the outermost returns. -/
  calling : Option Nat
  /-- The outermost call has returned, and no connect has succeeded behind it. -/
  quiet : Bool
  /-- `enabled_` of the metrics. -/
  enabled : Bool

/-- Where the step calls `onDisconnect`, how much is left to do behind it. -/
def entered (s : State) : Label → Option Nat
  | .run =>
    match s.todo with
    | .onDisconnect :: l => some l.length
    | _ => none
  | .onTimer .receive => some (s.rest.length + 1)
  | _ => none

/-- `running` is what `metrics_thread_running` answers. -/
def note (running : Bool) (g : History) (s : State) (a : Label) (t : State) : History :=
  let calling := g.calling <|> entered s a
  let returned := calling.any (t.todo.length ≤ ·)
  { calling := if returned then none else calling
    quiet :=
      match a with
      | .connected _ => g.quiet && t.place != .helloing
      | _ => g.quiet || returned
    enabled :=
      match a with
      | .onMessage (.sampleRate m) => m.switchMetricsOn
      | _ =>
        if (entered s a).isSome && s.controller.metricsOn && running then false else g.enabled }

def start : History := ⟨none, false, false⟩

/-- A wait on one of the two timers is begun. -/
def rearms : Instr → Bool
  | .schedule .send | .schedule .agentStatistics => true
  | _ => false

/-- While it is quiet, no wait is begun. -/
def Unarmed (x : State × History) (a : Label) : Prop :=
  x.2.quiet = true → a = .run → ∀ i l, x.1.todo = i :: l → rearms i = false

/-- While it is quiet, the metrics are off. -/
def MetricsOff (running : Bool) (x : State × History) : Prop :=
  x.2.quiet = true →
    x.1.controller.metricsOn = false ∧ (running = true → x.2.enabled = false)

/-- From a call of `onDisconnect` to the next connect. -/
def Down (g : History) : Prop := g.calling.isSome = true ∨ g.quiet = true

/-- No completion of the two timers is queued, and nothing interrupted begins a wait. -/
def Clear (s : State) (interrupted : List Instr) : Prop :=
  (s.controller.timers .send).expired = 0 ∧ (s.controller.timers .agentStatistics).expired = 0 ∧
    ∀ i ∈ interrupted, rearms i = false

/-- `onDisconnect` is called where there is nothing that it cannot cancel, and no
`SampleRate` that is handled before the next connect turns on what it has turned off. -/
def Settled (x : State × History) : Label → Prop
  | .run => ∀ l, x.1.todo = .onDisconnect :: l → Clear x.1 l
  | .onTimer .receive => Clear x.1 x.1.rest
  | .onMessage (.sampleRate m) =>
    Down x.2 → m.switchMetricsOn = false ∧ x.1.controller.state ≠ .sentHello
  | _ => True

/-- Nothing is left of the two timers and of the metrics. -/
structure Quiescent (s : State) : Prop where
  send : s.controller.timers .send = .idle
  agentStatistics : s.controller.timers .agentStatistics = .idle
  metrics : s.controller.metricsOn = false
  todo : ∀ i ∈ s.todo, rearms i = false

structure Inv (running : Bool) (x : State × History) : Prop where
  enabled : running = true → x.2.enabled = x.1.controller.metricsOn
  down : Down x.2 → Quiescent x.1

variable {s t : State} {g : History} {l : List Instr} {running : Bool}

theorem init_inv (on : Bool) : Inv running (init on, start) where
  enabled _ := rfl
  down h := by rcases h with h | h <;> cases h

/-! ## What keeps quiet -/

theorem Quiescent.of_timers (h : Quiescent s)
    (hsend : t.controller.timers .send = s.controller.timers .send)
    (hstatistics :
      t.controller.timers .agentStatistics = s.controller.timers .agentStatistics)
    (hmetrics : t.controller.metricsOn = false)
    (htodo : ∀ i ∈ t.todo, i ∈ s.todo ∨ rearms i = false) : Quiescent t where
  send := hsend.trans h.send
  agentStatistics := hstatistics.trans h.agentStatistics
  metrics := hmetrics
  todo i hi := (htodo i hi).elim (h.todo i) id

theorem Quiescent.of_controller (h : Quiescent s) (hc : t.controller = s.controller)
    (htodo : ∀ i ∈ t.todo, i ∈ s.todo ∨ rearms i = false) : Quiescent t :=
  h.of_timers (by rw [hc]) (by rw [hc]) (by rw [hc]; exact h.metrics) htodo

theorem mem_call {is : List Instr} (his : ∀ i ∈ is, rearms i = false) :
    ∀ i ∈ (s.call is).todo, i ∈ s.todo ∨ rearms i = false :=
  fun i hi => (List.mem_append.mp hi).elim (fun h => .inr (his i h))
    fun h => .inl (State.mem_of_mem_rest h)

/-- The call itself. -/
theorem quiescent_disconnect {c : Controller} (hclear : Clear s l)
    (hc : t.controller = c.disconnect)
    (hsend : (c.timers .send).expired = (s.controller.timers .send).expired)
    (hstatistics : (c.timers .agentStatistics).expired =
      (s.controller.timers .agentStatistics).expired)
    (htodo : ∀ i ∈ t.todo, i ∈ l ∨ rearms i = false) : Quiescent t where
  send := by
    rw [hc]
    exact congrArg (Timer.mk false) (hsend.trans hclear.1)
  agentStatistics := by
    rw [hc]
    exact congrArg (Timer.mk false) (hstatistics.trans hclear.2.1)
  metrics := by rw [hc]; rfl
  todo i hi := (htodo i hi).elim (hclear.2.2 i) id

theorem rearms_polls : ∀ i ∈ polls, rearms i = false := by decide

theorem rearms_unresolved : ∀ i ∈ Instr.runOne :: .close :: polls, rearms i = false := by decide

theorem rearms_sends (n : Nat) : ∀ i ∈ List.replicate n Instr.send, rearms i = false := by
  intro i hi
  rw [List.eq_of_mem_replicate hi]
  rfl

theorem mem_written {result : Written} {i : Instr} (hi : i ∈ (s.written l result).todo) :
    i ∈ l ∨ rearms i = false := by
  rcases List.mem_append.mp hi with hi | hi
  · right
    split at hi
    · simp only [List.mem_cons, List.not_mem_nil, or_false] at hi
      rcases hi with rfl | rfl <;> rfl
    · cases hi
  · rcases List.mem_cons.mp hi with rfl | hi
    · exact .inr rfl
    · exact .inl hi

/-! ## One step -/

theorem Quiescent.onTimer (h : Quiescent s) {timer : TimerId}
    (hexpired : 0 < (s.controller.timers timer).expired) : Quiescent (s.onTimer timer) := by
  cases timer with
  | send =>
    rw [h.send] at hexpired
    cases hexpired
  | agentStatistics =>
    rw [h.agentStatistics] at hexpired
    cases hexpired
  | receive =>
    refine quiescent_disconnect (s := s) (l := s.todo) ⟨?_, ?_, h.todo⟩ rfl rfl rfl
      (mem_call (by decide))
    · rw [h.send]
      rfl
    · rw [h.agentStatistics]
      rfl
  | allocation => exact h.of_timers rfl rfl h.metrics (mem_call (by decide))

theorem Quiescent.onMessage (h : Quiescent s) {m : Message}
    (hm : ∀ r, m = .sampleRate r → r.switchMetricsOn = false ∧ s.controller.state ≠ .sentHello) :
    Quiescent (s.onMessage m) := by
  cases m with
  | sampleRate r =>
    obtain ⟨hoff, hstate⟩ := hm r rfl
    refine h.of_timers rfl rfl hoff (mem_call ?_)
    rw [State.firstSampleRate, if_neg hstate]
    decide
  | heartbeat => exact h.of_timers rfl rfl h.metrics (mem_call (by decide))
  | _ => exact h.of_timers rfl rfl h.metrics (mem_call (by decide))

theorem Quiescent.schedule (h : Quiescent s) {timer : TimerId}
    (htodo : s.todo = .schedule timer :: l) :
    Quiescent { s with controller := s.controller.schedule timer, todo := l } := by
  have hkeep := h.todo (.schedule timer) (htodo ▸ .head _)
  refine h.of_timers ?_ ?_ h.metrics fun i hi => .inl (htodo ▸ .tail _ hi)
  · exact Function.update_of_ne (by rintro rfl; cases hkeep) _ _
  · exact Function.update_of_ne (by rintro rfl; cases hkeep) _ _

/-- Nothing but a `SampleRate` begins again what is over. -/
theorem Quiescent.next {a : Label} (h : Quiescent s) (hs : step s a = some t)
    (hm : ∀ r, a = .onMessage (.sampleRate r) →
      r.switchMetricsOn = false ∧ s.controller.state ≠ .sentHello) : Quiescent t := by
  cases step_transition hs with
  | handOver l htodo =>
    refine h.of_controller rfl fun i hi => ?_
    rcases List.mem_cons.mp hi with rfl | hi
    · exact .inr rfl
    · exact .inl (htodo ▸ .tail _ hi)
  | refuse l htodo | drop l htodo | endSend l htodo | closeNothing l htodo | deleteSock l htodo
  | attemptRead l htodo | polled l htodo | drained l htodo =>
    exact h.of_controller rfl fun i hi => .inl (htodo ▸ .tail _ hi)
  | close l htodo hsock =>
    refine h.of_controller rfl fun i hi => ?_
    simp only [List.mem_cons] at hi
    rcases hi with rfl | rfl | hi
    · exact .inr rfl
    · exact .inr rfl
    · exact .inl (htodo ▸ .tail _ hi)
  | onDisconnect l htodo =>
    refine quiescent_disconnect (s := s) (l := s.todo) ⟨?_, ?_, h.todo⟩ rfl rfl rfl fun i hi => ?_
    · rw [h.send]
      rfl
    · rw [h.agentStatistics]
      rfl
    · rcases List.mem_cons.mp hi with rfl | hi
      · exact .inr rfl
      · exact .inl (htodo ▸ .tail _ hi)
  | schedule timer l htodo => exact h.schedule htodo
  | clearNotifications l htodo =>
    exact h.of_timers rfl rfl h.metrics fun i hi => .inl (htodo ▸ .tail _ hi)
  | sentHello => exact h.of_timers rfl rfl h.metrics fun i hi => .inr (rearms_polls i hi)
  | batch | noBatch | resolved | popped | expireDeadline | exit =>
    exact h.of_controller rfl fun i hi => .inl hi
  | connect => exact h.of_timers rfl rfl h.metrics fun i hi => .inl hi
  | poll => exact h.of_controller rfl fun i hi => .inr (rearms_polls i hi)
  | stop => exact h.of_controller rfl (by simp [rearms])
  | unresolved => exact h.of_controller rfl fun i hi => .inr (rearms_unresolved i hi)
  | unconnected => exact h.of_controller rfl fun i hi => .inr (rearms_unresolved i (.tail _ hi))
  | connected => exact h.of_timers rfl rfl h.metrics (by simp [rearms])
  | written result l htodo =>
    exact h.of_controller rfl fun i hi => (mem_written hi).imp_left fun hi => htodo ▸ .tail _ hi
  | notify => exact h.of_controller rfl fun i hi => .inr (rearms_sends _ i hi)
  | stash => exact h.of_timers rfl rfl h.metrics fun i hi => .inr (rearms_sends _ i hi)
  | records => exact h.of_controller rfl fun i hi => .inr (rearms_sends _ i hi)
  | expire timer hwait =>
    refine h.of_timers ?_ ?_ h.metrics fun i hi => .inl hi
    · refine Function.update_of_ne (fun he => ?_) _ _
      rw [← he, h.send] at hwait
      cases hwait
    · refine Function.update_of_ne (fun he => ?_) _ _
      rw [← he, h.agentStatistics] at hwait
      cases hwait
  | onTimer timer hwaits hexpired => exact h.onTimer hexpired
  | onDeadline => exact h.of_controller rfl (mem_call (by simp))
  | onMessage m => exact h.onMessage fun r hr => hm r (by rw [hr])
  | onReadError body =>
    refine h.of_controller rfl (mem_call ?_)
    cases body <;> decide

/-- The two places that call `onDisconnect`. -/
theorem entered_cases {a : Label} (he : (entered s a).isSome = true) (hs : step s a = some t) :
    (∃ l, a = .run ∧ s.todo = .onDisconnect :: l ∧
      t = { s with controller := s.controller.disconnect, todo := .close :: l }) ∨
    (a = .onTimer .receive ∧ t = s.onTimer .receive) := by
  cases step_transition hs with
  | onDisconnect l htodo => exact .inl ⟨l, rfl, htodo, rfl⟩
  | onTimer timer =>
    cases timer with
    | receive => exact .inr ⟨rfl, rfl⟩
    | _ => cases he
  | handOver l htodo | refuse l htodo | drop l htodo | endSend l htodo | close l htodo
  | closeNothing l htodo | deleteSock l htodo | schedule timer l htodo | clearNotifications l htodo
  | attemptRead l htodo | sentHello htodo | batch htodo | noBatch htodo =>
    simp [entered, htodo] at he
  | _ => cases he

theorem quiescent_entered {a : Label} (hok : Settled (s, g) a) (hs : step s a = some t)
    (he : (entered s a).isSome = true) : Quiescent t := by
  rcases entered_cases he hs with ⟨l, rfl, htodo, rfl⟩ | ⟨rfl, rfl⟩
  · refine quiescent_disconnect (hok l htodo) rfl rfl rfl fun i hi => ?_
    rcases List.mem_cons.mp hi with rfl | hi
    · exact .inr rfl
    · exact .inl hi
  · refine quiescent_disconnect (c := s.controller.setTimer .receive _) hok rfl rfl rfl
      fun i hi => ?_
    rcases List.mem_append.mp hi with hi | hi
    · simp only [List.mem_cons, List.not_mem_nil, or_false] at hi
      rcases hi with rfl | rfl <;> exact .inr rfl
    · exact .inl hi

/-- Only a `SampleRate` and a call of `onDisconnect` touch the switch of the metrics. -/
theorem metricsOn_next {a : Label} (hs : step s a = some t) (he : ¬ (entered s a).isSome = true)
    (hm : ∀ m, a ≠ .onMessage (.sampleRate m)) :
    t.controller.metricsOn = s.controller.metricsOn := by
  cases step_transition hs with
  | onDisconnect l htodo => simp [entered, htodo] at he
  | onTimer timer =>
    cases timer with
    | receive => exact absurd rfl he
    | _ => rfl
  | onMessage m =>
    cases m with
    | sampleRate m => exact absurd rfl (hm m)
    | _ => rfl
  | _ => rfl

theorem Down.of_note {a : Label} (h : Down (note running g s a t)) :
    Down g ∨ (entered s a).isSome = true := by
  have hcalling : (g.calling <|> entered s a).isSome = true ∨ g.quiet = true := by
    rcases h with h | h
    · simp only [note] at h
      split at h
      · cases h
      · exact .inl h
    · cases a with
      | connected ok => exact .inr (Bool.and_eq_true_iff.mp h).1
      | _ => exact (Bool.or_eq_true_iff.mp h).symm.imp_left Option.isSome_of_any
  rcases hcalling with h | h
  · cases hg : g.calling with
    | none => exact .inr (by simpa [hg] using h)
    | some n => exact .inl (.inl (by rw [hg]; rfl))
  · exact .inl (.inr h)

theorem Inv.unarmed {x : State × History} {a : Label} (h : Inv running x) : Unarmed x a := by
  intro hquiet _ i l htodo
  exact (h.down (.inr hquiet)).todo i (htodo ▸ .head _)

theorem Inv.metricsOff {x : State × History} (h : Inv running x) : MetricsOff running x := by
  intro hquiet
  have hoff := (h.down (.inr hquiet)).metrics
  exact ⟨hoff, fun hr => (h.enabled hr).trans hoff⟩

/-! ## Runs -/

theorem Inv.enabled_next {a : Label} (h : Inv running (s, g)) (hs : step s a = some t)
    (hr : running = true) : (note running g s a t).enabled = t.controller.metricsOn := by
  have hbefore : g.enabled = s.controller.metricsOn := h.enabled hr
  by_cases hm : ∃ m, a = .onMessage (.sampleRate m)
  · obtain ⟨m, rfl⟩ := hm
    cases step_transition hs
    rfl
  have henabled : (note running g s a t).enabled =
      if (entered s a).isSome && s.controller.metricsOn && running then false else g.enabled := by
    cases a with
    | onMessage m =>
      cases m with
      | sampleRate m => exact absurd ⟨m, rfl⟩ hm
      | _ => rfl
    | _ => rfl
  rw [henabled, hr, hbefore, Bool.and_true]
  by_cases he : (entered s a).isSome = true
  · have hafter : t.controller.metricsOn = false := by
      rcases entered_cases he hs with ⟨l, -, -, rfl⟩ | ⟨-, rfl⟩ <;> rfl
    rw [he, hafter, Bool.true_and]
    cases s.controller.metricsOn <;> rfl
  · have hafter := metricsOn_next hs he fun m hm' => hm ⟨m, hm'⟩
    rw [hafter]
    simp [he]

theorem Inv.next {a : Label} (h : Inv running (s, g)) (hok : Settled (s, g) a)
    (hs : step s a = some t) : Inv running (t, note running g s a t) where
  enabled := h.enabled_next hs
  down hd := by
    by_cases he : (entered s a).isSome = true
    · exact quiescent_entered hok hs he
    · have hdown := (Down.of_note hd).resolve_right he
      refine (h.down hdown).next hs fun r hr => ?_
      rw [hr] at hok
      exact hok hdown

/-- **A disconnect is quiet**: in a run that calls `onDisconnect` only where there is
nothing that it cannot cancel, from its return to the next connect no wait on the two
timers is begun and the metrics stay off. -/
theorem quiet_of_settled (running on : Bool) (labels : List Label)
    (h : Steps (recording step (note running)) Settled (init on, start) labels) :
    Steps (recording step (note running)) Unarmed (init on, start) labels ∧
      Along (recording step (note running)) (MetricsOff running) (init on, start) labels := by
  have hnext (x : State × History) (a : Label) (y : State × History) (hi : Inv running x)
      (hok : Settled x a) (hs : recording step (note running) x a = some y) : Inv running y :=
    next_of_step (fun _ => Inv.next hi hok) hs
  refine ⟨Steps.transfer hnext (fun _ _ hi _ => hi.unarmed) (init_inv on) h, ?_⟩
  exact (along_of_invariant hnext (init_inv on) h).mono fun _ hi => hi.metricsOff

/-- A connect and its first `SampleRate`. -/
def connect (switchMetricsOn : Bool) : List Label :=
  [.enter, .resolved true, .connected true, .run, .written .ok, .run, .run,
    .onMessage (.sampleRate ⟨0, 0, false, false, false, false, switchMetricsOn⟩)] ++
    List.replicate 5 .run

/-- Nothing has come for too long. -/
def silence : List Label :=
  connect true ++
    [.expire .receive, .onTimer .receive, .run, .onReadError false, .idle, .run, .run]

theorem silence_quiet :
    (∃ x, run (recording step (note true)) (init true, start) silence = some x ∧
      x.2.quiet = true) ∧
    Steps (recording step (note true)) Unarmed (init true, start) silence ∧
      Along (recording step (note true)) (MetricsOff true) (init true, start) silence := by
  refine ⟨⟨_, rfl, rfl⟩, quiet_of_settled true true silence ?_⟩
  iterate 3 refine Steps.cons rfl trivial ?_
  refine Steps.cons rfl nofun ?_
  refine Steps.cons rfl trivial ?_
  iterate 2 refine Steps.cons rfl nofun ?_
  refine Steps.cons rfl (fun hdown => hdown.elim nofun nofun) ?_
  iterate 5 refine Steps.cons rfl nofun ?_
  refine Steps.cons rfl trivial ?_
  refine Steps.cons rfl ⟨rfl, rfl, by decide⟩ ?_
  refine Steps.cons rfl nofun ?_
  iterate 2 refine Steps.cons rfl trivial ?_
  iterate 2 refine Steps.cons rfl nofun ?_
  trivial

/-- A heartbeat is lost with the connection. -/
def heartbeatLost : List Label :=
  connect false ++
    [.expire .send, .onTimer .send, .run, .written .lost, .run, .onReadError false, .idle, .run,
      .run, .run, .run]

/-- The handler of the heartbeat begins its next wait behind the disconnect. -/
theorem heartbeatLost_rearmed :
    ¬ (Steps (recording step (note true)) Unarmed (init true, start) (heartbeatLost ++ [.run]) ∧
      Along (recording step (note true)) (MetricsOff true) (init true, start)
        (heartbeatLost ++ [.run])) :=
  fun h => not_steps_of_run rfl rfl (fun hu => absurd (hu rfl rfl _ _ rfl) (by decide)) h.1

end Opsian.Collector.Quiescence
