import Opsian.Collector.Forks
import Opsian.Lib.Paths

/-! # The receive watchdog

Where the controller waits for the collector, its receive timer is pending or its
completion is queued. The hello is the one time it is not, and behind the hello
the timer is set in any case. Only what is read sets it again, so a connection that is
lost ends with its completion. -/
namespace Opsian.Collector.Watchdog
open Opsian.Lib.Runs Opsian.Lib.Paths Opsian.Collector.EventLoop Opsian.Collector.Transitions
  Opsian.Collector.Forks

/-- Behind the hello the timer is armed. -/
def Guarded (c : Controller) : Prop :=
  c.state = .sentHello ∨ c.state = .connected → (c.timers .receive).Armed

structure Inv (s : State) : Prop where
  guarded : Guarded s.controller
  hello : s.controller.state = .socketConnected → s.place = .helloing
  collector : s.controller.state ≠ .prometheusMode

variable {s t : State} {c : Controller}

/-- A timer is set so that what was armed stays armed. -/
theorem Guarded.setTimer (h : Guarded c) {timer : TimerId} {t : Timer}
    (ht : timer = .receive → t.Armed) : Guarded (c.setTimer timer t) := by
  intro hstate
  show (Function.update c.timers timer t .receive).Armed
  by_cases htimer : timer = .receive
  · subst htimer
    rw [Function.update_self]
    exact ht rfl
  · rw [Function.update_of_ne (Ne.symm htimer)]
    exact h hstate

theorem Guarded.schedule (h : Guarded c) (timer : TimerId) : Guarded (c.schedule timer) :=
  h.setTimer fun _ => Timer.armed_schedule _

theorem guarded_disconnect (c : Controller) : Guarded c.disconnect := by
  intro hstate
  rcases hstate with h | h <;> cases h

theorem guarded_onSentHello (c : Controller) : Guarded c.onSentHello := by
  intro _
  exact Controller.armed_schedule _ .receive

theorem Guarded.sampleRate (h : Guarded c) (m : SampleRate) : Guarded (c.sampleRate m) := by
  intro hstate
  refine h ?_
  rw [Controller.sampleRate_state] at hstate
  split at hstate
  · exact .inl (by assumption)
  · exact hstate

/-! ## The thread -/

theorem init_inv (on : Bool) : Inv (init on) :=
  ⟨fun h => (by rcases h with h | h <;> cases h), nofun, nofun⟩

/-- A step that leaves the controller and the place alone. -/
theorem Inv.of_eq (h : Inv s) (hc : t.controller = s.controller) (hp : t.place = s.place) :
    Inv t := by
  refine ⟨?_, ?_, ?_⟩
  · rw [hc]
    exact h.guarded
  · rw [hc, hp]
    exact h.hello
  · rw [hc]
    exact h.collector

/-- A step that leaves the state alone, away from the hello. -/
theorem Inv.of_place (h : Inv s) (hs : s.place ≠ .helloing) (hg : Guarded t.controller)
    (hstate : t.controller.state = s.controller.state) : Inv t := by
  refine ⟨hg, fun ht => ?_, ?_⟩
  · rw [hstate] at ht
    exact absurd (h.hello ht) hs
  · rw [hstate]
    exact h.collector

/-- A step that leaves the place alone, and the state or disconnects. -/
theorem Inv.of_controller (h : Inv s) (hp : t.place = s.place) (hg : Guarded t.controller)
    (hstate : t.controller.state = s.controller.state ∨ t.controller.state = .disconnected) :
    Inv t := by
  rcases hstate with hstate | hstate
  · refine ⟨hg, ?_, ?_⟩
    · rw [hstate, hp]
      exact h.hello
    · rw [hstate]
      exact h.collector
  · refine ⟨hg, fun ht => ?_, ?_⟩
    · rw [hstate] at ht
      cases ht
    · rw [hstate]
      exact nofun

theorem Inv.onTimer (h : Inv s) (timer : TimerId) : Inv (s.onTimer timer) := by
  cases timer with
  | receive => exact h.of_controller rfl (guarded_disconnect _) (.inr rfl)
  | _ => exact h.of_controller rfl (h.guarded.setTimer nofun) (.inl rfl)

theorem Inv.onMessage (h : Inv s) (m : Message) : Inv (s.onMessage m) := by
  cases m with
  | terminate => exact h.of_controller rfl h.guarded (.inl rfl)
  | heartbeat => exact h.of_controller rfl (h.guarded.schedule .receive) (.inl rfl)
  | sampleRate m =>
    refine ⟨h.guarded.sampleRate m, fun ht => ?_, fun ht => ?_⟩
    all_goals
      have hstate := (Controller.sampleRate_state s.controller m).symm.trans ht
      split at hstate
    · cases hstate
    · exact h.hello hstate
    · cases hstate
    · exact h.collector hstate
  | unknown => exact h.of_eq rfl rfl

theorem Inv.next {a : Label} (h : Inv s) (hs : step s a = some t) : Inv t := by
  cases step_transition hs with
  | onDisconnect l => exact h.of_controller rfl (guarded_disconnect _) (.inr rfl)
  | schedule timer l => exact h.of_controller rfl (h.guarded.schedule timer) (.inl rfl)
  | clearNotifications l => exact h.of_controller rfl h.guarded (.inl rfl)
  | sentHello => exact ⟨guarded_onSentHello _, nofun, nofun⟩
  | connect htop _ | poll htop _ | stop htop =>
    exact h.of_place (by rw [htop.1]; exact nofun) h.guarded rfl
  | connected =>
    refine ⟨fun hstate => ?_, fun _ => rfl, nofun⟩
    rcases hstate with h | h <;> cases h
  | batch _ hplace _ | noBatch _ hplace _ | resolved _ hplace | unresolved _ hplace
  | unconnected _ _ hplace | notify _ _ _ _ hplace _ | stash _ _ _ _ hplace _
  | records _ _ _ hplace | popped _ _ hplace =>
    exact h.of_place (by rw [hplace]; exact nofun) h.guarded rfl
  | expire timer _ =>
    exact h.of_controller rfl (h.guarded.setTimer fun _ => Timer.armed_expire _) (.inl rfl)
  | onTimer timer => exact h.onTimer timer
  | onMessage m => exact h.onMessage m
  | _ => exact h.of_eq rfl rfl

/-! ## Processes -/

variable {p q : Process} {e : Event}

theorem inv_next (h : Inv p.thread) (hs : p.step e = some q) : Inv q.thread := by
  refine Process.thread_next (fun a t ht => h.next ht) ?_ (fun hplace _ => ?_) ?_ hs
  · refine ⟨fun hstate => ?_, nofun, nofun⟩
    rcases hstate with hstate | hstate <;> cases hstate
  · exact h.of_place (by rw [hplace]; exact nofun) h.guarded rfl
  · exact h.of_eq rfl rfl

/-! ## A lost connection -/

def Disconnected (p : Process) : Prop := p.thread.controller.state = .disconnected

def Heard (_ : Process) (e : Event) : Prop := ∃ m, e = .thread (.onMessage m)

/-- Nothing more is read from the connection. -/
def Lost (p : Path Process.step) (n : Nat) : Prop :=
  ∀ k, n ≤ k → Heard (p.state k) (p.label k) → ∃ j, n ≤ j ∧ j ≤ k ∧ Disconnected (p.state j)

/-- The waits of the receive timer that are about to begin. -/
def renewals (todo : List Instr) : Nat := todo.count (.schedule .receive)

@[simp] theorem renewals_cons (i : Instr) (l : List Instr) :
    renewals (i :: l) = renewals l + if i = .schedule .receive then 1 else 0 := by
  simp [renewals, List.count_cons]

@[simp] theorem renewals_append (l l' : List Instr) :
    renewals (l ++ l') = renewals l + renewals l' := List.count_append

@[simp] theorem renewals_polls : renewals polls = 0 := by decide

@[simp] theorem renewals_sends (n : Nat) : renewals (List.replicate n .send) = 0 := by
  simp [renewals, List.count_replicate]

@[simp] theorem renewals_rest (s : State) : renewals s.rest = renewals s.todo := by
  unfold State.rest
  split
  · rename_i htodo
    simp [htodo]
  · rfl

/-- The controller waits on a connection, behind the hello. -/
structure Waiting (p : Process) : Prop where
  inv : Inv p.thread
  lifecycle : Lifecycle.Inv p.thread
  place : p.thread.place ≠ .helloing
  state : ¬ Disconnected p

/-- What reads a message, or ends the connection. -/
def Ends (p : Process) (e : Event) : Prop := Heard p e ∨ e = .thread (.onTimer .receive)

/-- The controller goes on waiting until it is disconnected. -/
theorem Waiting.next (h : Waiting p) (hs : p.step e = some q) (hq : ¬ Disconnected q) :
    Waiting q := by
  refine ⟨inv_next h.inv hs, lifecycle_next h.lifecycle hs, ?_, hq⟩
  cases Process.step_move hs with
  | thread a t ht =>
    cases step_transition ht with
    | connected htodo hplace =>
      exact absurd (h.lifecycle.connecting (.inr hplace)).1 h.state
    | onTimer timer => cases timer <;> exact h.place
    | onMessage m => cases m <;> exact h.place
    | _ => first | exact h.place | exact nofun
  | fork | start => exact nofun
  | expire => exact h.place

/-- Where the controller waits, its watchdog is armed. -/
theorem Waiting.armed (h : Waiting p) : (p.thread.controller.timers .receive).Armed := by
  refine h.inv.guarded ?_
  cases hc : p.thread.controller.state with
  | socketConnected => exact absurd (h.inv.hello hc) h.place
  | sentHello => exact .inl rfl
  | connected => exact .inr rfl
  | disconnected => exact absurd hc h.state
  | prometheusMode => exact absurd hc h.inv.collector

end Opsian.Collector.Watchdog
