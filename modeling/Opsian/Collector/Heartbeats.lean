import Opsian.Collector.Transitions

/-! # The heartbeat goes on

The send timer and the one of the agent statistics set themselves again behind what they
send. Their handlers are interrupted by others, and by the loss of the connection, but while
the controller is connected one of the two always holds: the timer is armed, or the call that
arms it is still to be made. -/
namespace Opsian.Collector.Heartbeats
open Opsian.Lib.Runs Opsian.Collector.EventLoop Opsian.Collector.Transitions

/-- At the top of the loop a connected controller has a heartbeat and statistics to come. -/
def Beating (s : State) : Prop :=
  s.AtTop → s.controller.state = .connected →
    (s.controller.timers .send).Armed ∧ (s.controller.timers .agentStatistics).Armed

def TimerId.Repeats (timer : TimerId) : Prop := timer = .send ∨ timer = .agentStatistics

def Renewed (s : State) (timer : TimerId) : Prop :=
  (s.controller.timers timer).Armed ∨ Instr.schedule timer ∈ s.todo

/-- Connected, with both timers armed or about to be. -/
def Kept (s : State) : Prop :=
  s.controller.state = .connected → ∀ timer, TimerId.Repeats timer → Renewed s timer

variable {s t : State} {timer : TimerId}

theorem Renewed.armed (h : Renewed s timer) (htodo : s.todo = []) :
    (s.controller.timers timer).Armed := by
  rcases h with h | h
  · exact h
  · rw [htodo] at h
    cases h

theorem Kept.beating (h : Kept s) : Beating s := by
  intro htop hstate
  exact ⟨(h hstate .send (.inl rfl)).armed htop.2,
    (h hstate .agentStatistics (.inr rfl)).armed htop.2⟩

/-- Timers that stay as they are, or are armed, with nothing left out of what is to be done. -/
theorem Kept.transfer (h : Kept s)
    (hstate : t.controller.state = .connected → s.controller.state = .connected)
    (htimers : ∀ timer, TimerId.Repeats timer → (s.controller.timers timer).Armed → Renewed t timer)
    (htodo : ∀ timer, Instr.schedule timer ∈ s.todo → Renewed t timer) : Kept t := by
  intro ht timer hr
  rcases h (hstate ht) timer hr with harmed | hmem
  · exact htimers timer hr harmed
  · exact htodo timer hmem

/-- Only the calls in progress move on, and none of them schedules. -/
theorem Kept.of_controller (h : Kept s) (hc : t.controller = s.controller)
    (htodo : ∀ timer, Instr.schedule timer ∈ s.todo → Instr.schedule timer ∈ t.todo) :
    Kept t := by
  refine h.transfer (fun ht => ?_) (fun timer _ harmed => .inl ?_) fun timer hmem =>
    .inr (htodo timer hmem)
  · rwa [hc] at ht
  · rwa [hc]

theorem Kept.of_not_connected (h : t.controller.state ≠ .connected) : Kept t :=
  fun ht => absurd ht h

theorem mem_of_cons {i : Instr} {l : List Instr} (htodo : s.todo = i :: l)
    (hi : ∀ timer, i ≠ .schedule timer) :
    ∀ timer, Instr.schedule timer ∈ s.todo → Instr.schedule timer ∈ l := by
  intro timer hmem
  rw [htodo] at hmem
  exact (List.mem_cons.mp hmem).resolve_left fun he => hi timer he.symm

theorem mem_call {instrs : List Instr} :
    ∀ timer, Instr.schedule timer ∈ s.todo → Instr.schedule timer ∈ instrs ++ s.rest :=
  fun _ hmem => List.mem_append_right _ ((State.mem_rest (by simp)).mpr hmem)

/-- A timer other than the one that is renewed keeps what it has. -/
theorem Renewed.setTimer (h : (s.controller.timers timer).Armed) {other : TimerId} {u : Timer}
    (hc : t.controller = s.controller.setTimer other u) (ht : timer = other → Renewed t timer) :
    Renewed t timer := by
  by_cases hother : timer = other
  · exact ht hother
  · refine .inl ?_
    rw [hc]
    show (Function.update s.controller.timers other u timer).Armed
    rwa [Function.update_of_ne hother]

theorem Kept.onTimer (h : Kept s) (timer : TimerId) : Kept (s.onTimer timer) := by
  cases timer with
  | receive => exact .of_not_connected nofun
  | send | allocation | agentStatistics =>
    refine h.transfer id (fun timer _ harmed => ?_) fun timer hmem => .inr (mem_call timer hmem)
    refine Renewed.setTimer harmed rfl fun hsame => ?_
    rw [hsame]
    exact .inr (List.mem_append_left _ (by simp))

theorem Kept.schedule (h : Kept s) {timer : TimerId} {l : List Instr}
    (htodo : s.todo = .schedule timer :: l) :
    Kept { s with controller := s.controller.schedule timer, todo := l } := by
  have harm : ∀ other, other = timer → Renewed
      { s with controller := s.controller.schedule timer, todo := l } other := by
    intro other hsame
    subst hsame
    exact .inl (Controller.armed_schedule _ other)
  refine h.transfer id (fun other _ harmed => ?_) fun other hmem => ?_
  · exact Renewed.setTimer harmed rfl (harm other)
  · rw [htodo] at hmem
    rcases List.mem_cons.mp hmem with he | hmem
    · cases he
      exact harm timer rfl
    · exact .inr hmem

/-- The first sample rate connects, with both timers still to be set. -/
theorem Kept.sampleRate (h : Kept s) (m : SampleRate) : Kept (s.onMessage (.sampleRate m)) := by
  intro hstate timer hr
  have hstate := (Controller.sampleRate_state s.controller m).symm.trans hstate
  split at hstate
  · rename_i hfirst
    refine .inr (List.mem_append_left _ ?_)
    rw [State.firstSampleRate, if_pos hfirst]
    rcases hr with rfl | rfl
    · simp
    · simp
  · rcases h hstate timer hr with harmed | hmem
    · exact .inl harmed
    · exact .inr (mem_call timer hmem)

theorem Kept.onMessage (h : Kept s) (m : Message) : Kept (s.onMessage m) := by
  cases m with
  | terminate =>
    exact h.transfer id (fun _ _ harmed => .inl harmed) fun timer hmem => .inr (mem_call timer hmem)
  | heartbeat =>
    refine h.transfer id (fun timer hr harmed => ?_) fun timer hmem => .inr (mem_call timer hmem)
    refine Renewed.setTimer harmed rfl fun hsame => ?_
    rw [hsame] at hr
    rcases hr with hr | hr <;> cases hr
  | sampleRate m => exact h.sampleRate m
  | unknown => exact h.of_controller rfl mem_call

/-- What the instruction at the head leaves to do, when it leaves the controller alone. -/
theorem Kept.of_cons (h : Kept s) {i : Instr} {l : List Instr} (htodo : s.todo = i :: l)
    (hi : ∀ timer, i ≠ .schedule timer) (hc : t.controller = s.controller)
    (hrest : ∃ is, t.todo = is ++ l) : Kept t := by
  obtain ⟨is, hrest⟩ := hrest
  refine h.of_controller hc fun timer hmem => ?_
  rw [hrest]
  exact List.mem_append_right _ (mem_of_cons htodo hi timer hmem)

/-- Nothing is left to do, so that both timers are armed. -/
theorem Kept.of_nil (h : Kept s) (htodo : s.todo = [])
    (hstate : t.controller.state = s.controller.state)
    (htimers : t.controller.timers = s.controller.timers) : Kept t := by
  refine h.transfer (fun ht => hstate.symm.trans ht) (fun timer _ harmed => .inl ?_)
    fun timer hmem => ?_
  · rwa [htimers]
  · rw [htodo] at hmem
    cases hmem

theorem Kept.next {a : Label} (h : Kept s) (hs : step s a = some t) : Kept t := by
  cases step_transition hs with
  | handOver l htodo => exact h.of_cons htodo (by simp) rfl ⟨[.awaitWrite], rfl⟩
  | refuse l htodo | drop l htodo | endSend l htodo | closeNothing l htodo | deleteSock l htodo
  | attemptRead l htodo | polled l htodo | drained l htodo =>
    exact h.of_cons htodo (by simp) rfl ⟨[], rfl⟩
  | close l htodo => exact h.of_cons htodo (by simp) rfl ⟨[.drain, .deleteSock], rfl⟩
  | written result l htodo =>
    exact h.of_cons htodo (by simp) rfl ⟨_, (List.append_cons _ _ _)⟩
  | clearNotifications l htodo =>
    exact h.transfer id (fun _ _ harmed => .inl harmed) fun timer hmem =>
      .inr (mem_of_cons htodo (by simp) timer hmem)
  | onDisconnect l htodo => exact .of_not_connected nofun
  | schedule timer l htodo => exact h.schedule htodo
  | sentHello => exact .of_not_connected nofun
  | connected => exact .of_not_connected nofun
  | batch htodo | noBatch htodo | resolved htodo | unresolved htodo | unconnected _ htodo
  | notify _ _ _ htodo | stash _ _ _ htodo | records _ _ htodo | popped _ htodo =>
    exact h.of_nil htodo rfl rfl
  | connect htop | poll htop | stop htop => exact h.of_nil htop.2 rfl rfl
  | expire timer _ =>
    refine h.transfer id (fun other _ harmed => ?_) fun _ hmem => .inr hmem
    refine Renewed.setTimer harmed rfl fun hsame => ?_
    rw [hsame]
    exact .inl (by rw [Controller.setTimer_self]; exact Timer.armed_expire _)
  | onTimer timer => exact h.onTimer timer
  | onDeadline => exact h.of_controller rfl mem_call
  | onMessage m => exact h.onMessage m
  | onReadError body => exact h.of_controller rfl mem_call
  | expireDeadline | exit => exact h.of_controller rfl fun _ hmem => hmem

theorem init_kept (on : Bool) : Kept (init on) :=
  .of_not_connected (by simp [init, construct])

/-- **The heartbeat goes on**: at the top of the loop a connected controller has its send timer
and the one of its statistics armed, whichever handlers have run inside which sends. -/
theorem always_beating (on : Bool) (labels : List Label) : Along step Beating (init on) labels :=
  (along_of_step (fun _ _ _ h hs => h.next hs) (init_kept on) labels).mono
    fun _ h => h.beating

end Opsian.Collector.Heartbeats
