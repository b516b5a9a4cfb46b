import Opsian.Collector.Transitions
import Opsian.Lib.History

/-! # Batches of pops

The controller is asked once whether it is active, for up to ten pops of the queues.
What a pop delivers may be a send that disconnects it, and the batch goes on. -/
namespace Opsian.Collector.Batches
open Opsian.Lib.Runs Opsian.Lib.History Opsian.Collector.EventLoop Opsian.Collector.Transitions

/-- The processor thread with the exporter or without it, behind `onStart`. -/
def start (prometheusEnabled on : Bool) : State :=
  { init on with controller := construct prometheusEnabled on }

/-- `onDisconnect` has been called since the controller was last found active. -/
def note (disturbed : Bool) (s : State) (a : Label) (_ : State) : Bool :=
  match a with
  | .onTimer .receive => true
  | .run =>
    match s.todo, s.place with
    | .onDisconnect :: _, _ => true
    | [], .polling => false
    | _, _ => disturbed
  | _ => disturbed

/-- The controller is active when a record is removed. -/
def Consumed (x : State × Bool) : Label → Prop
  | .pop _ _ => x.1.controller.isActive = true
  | _ => True

def Undisturbed (x : State × Bool) : Label → Prop
  | .pop _ _ => x.2 = false
  | _ => True

/-- In a batch the controller is active until it is disconnected, and does not come
back before the batch is over. -/
def Inv (x : State × Bool) : Prop :=
  ∀ left, x.1.place = .popping left →
    (x.2 = false ∧ x.1.controller.isActive = true) ∨
      (x.2 = true ∧ x.1.controller.state = .disconnected)

variable {s t : State} {disturbed : Bool}

theorem init_inv (prometheusEnabled on : Bool) : Inv (start prometheusEnabled on, false) := nofun

theorem isActive_congr {c d : Controller} (h : d.state = c.state) : d.isActive = c.isActive := by
  unfold Controller.isActive
  rw [h]

/-- A step in the batch that leaves the controller's state alone. -/
theorem Inv.of_eq (h : Inv (s, disturbed))
    (hplace : ∀ left, t.place = .popping left → ∃ left', s.place = .popping left')
    (hstate : t.controller.state = s.controller.state) : Inv (t, disturbed) := by
  intro left hp
  obtain ⟨left', hp'⟩ := hplace left hp
  show (_ ∧ t.controller.isActive = true) ∨ (_ ∧ t.controller.state = _)
  rw [isActive_congr hstate, hstate]
  exact h left' hp'

theorem Inv.of_place (hplace : ∀ left, t.place ≠ .popping left) : Inv (t, disturbed) :=
  fun left hp => absurd hp (hplace left)

theorem Inv.of_disconnected (hstate : t.controller.state = .disconnected) : Inv (t, true) :=
  fun _ _ => .inr ⟨rfl, hstate⟩

theorem note_cons {i : Instr} {l : List Instr} (htodo : s.todo = i :: l)
    (hi : i ≠ .onDisconnect) : note disturbed s .run t = disturbed := by
  simp only [note, htodo]
  split
  · rename_i he
    exact absurd (List.cons.inj he).1 hi
  · rename_i he _
    cases he
  · rfl

theorem Inv.onTimer (h : Inv (s, disturbed)) (timer : TimerId) :
    Inv (s.onTimer timer, note disturbed s (.onTimer timer) (s.onTimer timer)) := by
  cases timer with
  | receive => exact .of_disconnected rfl
  | _ => exact h.of_eq (fun left hp => ⟨left, hp⟩) rfl

/-- In a batch a `SampleRate` is not the first one. -/
theorem Inv.sampleRate (h : Inv (s, disturbed)) (m : SampleRate) :
    Inv (s.onMessage (.sampleRate m), disturbed) := by
  intro left hp
  have hbatch := h left hp
  have hstate : (s.onMessage (.sampleRate m)).controller.state = s.controller.state := by
    refine if_neg fun he => ?_
    have hinactive : s.controller.isActive = false := by
      rw [Controller.isActive, he]
      rfl
    rcases hbatch with ⟨-, hactive⟩ | ⟨-, hdown⟩
    · cases hinactive.symm.trans hactive
    · cases he.symm.trans hdown
  exact h.of_eq (fun left hp => ⟨left, hp⟩) hstate left hp

theorem Inv.onMessage (h : Inv (s, disturbed)) (m : Message) :
    Inv (s.onMessage m, disturbed) := by
  cases m with
  | sampleRate m => exact h.sampleRate m
  | _ => exact h.of_eq (fun left hp => ⟨left, hp⟩) rfl

theorem Inv.next {a : Label} (h : Inv (s, disturbed)) (hs : step s a = some t) :
    Inv (t, note disturbed s a t) := by
  cases step_transition hs with
  | onDisconnect l htodo =>
    simp only [note, htodo]
    exact .of_disconnected rfl
  | batch htodo hplace hactive =>
    simp only [note, htodo, hplace]
    exact fun _ _ => .inl ⟨rfl, hactive⟩
  | handOver l htodo | refuse l htodo | drop l htodo | endSend l htodo | close l htodo
  | closeNothing l htodo | deleteSock l htodo | schedule timer l htodo | clearNotifications l htodo
  | attemptRead l htodo =>
    rw [note_cons htodo (by simp)]
    exact h.of_eq (fun left hp => ⟨left, hp⟩) rfl
  | sentHello | noBatch | connect | poll | stop | resolved | unresolved | connected | unconnected
  | popped => exact .of_place nofun
  | notify n left sends htodo hplace | stash n left sends htodo hplace
  | records left sends htodo hplace => exact h.of_eq (fun _ _ => ⟨_, hplace⟩) rfl
  | onTimer timer => exact h.onTimer timer
  | onMessage m => exact h.onMessage m
  | written | polled | drained | expire | expireDeadline | onDeadline | onReadError | exit =>
    exact h.of_eq (fun left hp => ⟨left, hp⟩) rfl

theorem Inv.consumed_iff {a : Label} (h : Inv (s, disturbed)) (hs : step s a = some t) :
    Consumed (s, disturbed) a ↔ Undisturbed (s, disturbed) a := by
  cases a with
  | pop sends notification =>
    obtain ⟨left, -, hplace, -⟩ := step_pop hs
    show s.controller.isActive = true ↔ disturbed = false
    rcases h _ hplace with ⟨hd, hactive⟩ | ⟨hd, hstate⟩
    · exact iff_of_true hactive hd
    · have hinactive : s.controller.isActive = false := by
        rw [Controller.isActive, hstate]
        rfl
      exact iff_of_false (by simp [hinactive]) (by simp [show disturbed = true from hd])
  | _ => exact Iff.rfl

/-- **Records are removed while the controller is active**, in exactly the runs where
no batch goes on behind a disconnect. -/
theorem consumed_iff_undisturbed (prometheusEnabled on : Bool) (labels : List Label) :
    Steps (recording step note) Consumed (start prometheusEnabled on, false) labels ↔
      Steps (recording step note) Undisturbed (start prometheusEnabled on, false) labels :=
  steps_congr (fun _ _ _ hi => next_of_step fun _ => Inv.next hi)
    (fun _ _ _ hi hs => hi.consumed_iff (recording_eq_some.mp hs).1)
    (init_inv prometheusEnabled on)

/-- A batch whose first record is lost with the connection. -/
def lost : List Label :=
  [.enter, .resolved true, .connected true, .run, .written .ok, .run, .run,
    .onMessage (.sampleRate ⟨0, 0, false, false, false, false, false⟩)] ++
    List.replicate 5 .run ++ List.replicate 9 .idle ++
    [.run, .pop 1 none, .run, .written .lost, .run, .onReadError false, .idle, .run, .run, .run,
      .run]

/-- The next pop still removes a record, which is sent to nobody. -/
theorem lost_consumed :
    ¬ Steps (recording step note) Consumed (start false true, false) (lost ++ [.pop 1 none]) :=
  not_steps_of_run rfl rfl nofun

end Opsian.Collector.Batches
