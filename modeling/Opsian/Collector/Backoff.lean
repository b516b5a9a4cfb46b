import Mathlib.Order.Monotone.Basic
import Opsian.Collector.Transitions
import Opsian.Lib.History

/-! # Between two attempts to connect

Each attempt but the first one since the latest connection sleeps before it, half as long again
as the one before and a minute at most, and up to a second more at random. -/
namespace Opsian.Collector.Backoff
open Opsian.Lib.Runs Opsian.Lib.History Opsian.Collector.EventLoop Opsian.Collector.Transitions
open Opsian.Collector.EventLoop.Controller (maxBackoffTimeInMs minBackoffTimeInMs)

/-- The sleep of `backoff`, without what is added at random. -/
def sleep (c : Controller) : Nat :=
  if c.backoffTimeInMs = 0 then 0 else c.backoff.backoffTimeInMs

/-- The sleeps before the attempts since the latest connection, the oldest first. -/
def note (sleeps : List Nat) (s : State) (a : Label) (t : State) : List Nat :=
  match a with
  | .enter => if t.place = .resolving then sleeps ++ [sleep s.controller] else sleeps
  | .connected _ => if t.place = .helloing then [] else sleeps
  | _ => sleeps

/-! ## The schedule -/

/-- `backoffTimeInMs_` behind so many attempts and one more. -/
def backedOff : Nat → Nat
  | 0 => minBackoffTimeInMs
  | n + 1 => min (backedOff n * 3 / 2) maxBackoffTimeInMs

/-- The sleep before the attempt that follows on so many. -/
def scheduled : Nat → Nat
  | 0 => 0
  | n + 1 => backedOff (n + 1)

theorem backedOff_le (n : Nat) : backedOff n ≤ maxBackoffTimeInMs := by
  cases n with
  | zero => decide
  | succ n => exact Nat.min_le_right _ _

theorem backedOff_le_succ (n : Nat) : backedOff n ≤ backedOff (n + 1) := by
  have hle := backedOff_le n
  rw [backedOff]
  omega

theorem backedOff_pos (n : Nat) : 0 < backedOff n := by
  induction n with
  | zero => decide
  | succ n ih => exact Nat.lt_of_lt_of_le ih (backedOff_le_succ n)

theorem backedOff_eq_max {n : Nat} (h : 11 ≤ n) : backedOff n = maxBackoffTimeInMs := by
  obtain ⟨k, rfl⟩ := Nat.exists_eq_add_of_le h
  induction k with
  | zero => decide
  | succ k ih =>
    have hk := ih (Nat.le_add_right 11 k)
    rw [← Nat.add_assoc, backedOff, hk]
    decide

theorem scheduled_le_succ (n : Nat) : scheduled n ≤ scheduled (n + 1) := by
  cases n with
  | zero => exact Nat.zero_le _
  | succ n => exact backedOff_le_succ (n + 1)

theorem scheduled_le (n : Nat) : scheduled n ≤ maxBackoffTimeInMs := by
  cases n with
  | zero => exact Nat.zero_le _
  | succ n => exact backedOff_le (n + 1)

/-- The sleeps are those of the schedule: they grow up to the longest, and stay there. -/
structure Spaced (sleeps : List Nat) : Prop where
  eq : sleeps = (List.range sleeps.length).map scheduled
  grow : sleeps.Pairwise (· ≤ ·)
  bounded : ∀ duration ∈ sleeps, duration ≤ maxBackoffTimeInMs
  level : ∀ n duration, 11 ≤ n → sleeps[n]? = some duration → duration = maxBackoffTimeInMs

theorem spaced_map (n : Nat) : Spaced ((List.range n).map scheduled) where
  eq := by rw [List.length_map, List.length_range]
  grow := by
    refine List.Pairwise.map scheduled (fun i j hij => ?_) List.pairwise_lt_range
    exact monotone_nat_of_le_succ scheduled_le_succ (Nat.le_of_lt hij)
  bounded := by
    intro duration hmem
    obtain ⟨i, -, rfl⟩ := List.mem_map.mp hmem
    exact scheduled_le i
  level := by
    intro i duration hi hduration
    rw [List.getElem?_map] at hduration
    obtain ⟨j, hj, rfl⟩ := Option.map_eq_some_iff.mp hduration
    obtain ⟨hlt, rfl⟩ := List.getElem?_eq_some_iff.mp hj
    rw [List.getElem_range]
    cases i with
    | zero => cases hi
    | succ i => exact backedOff_eq_max hi

theorem spaced_of_eq {sleeps : List Nat}
    (h : sleeps = (List.range sleeps.length).map scheduled) : Spaced sleeps := by
  rw [h]
  exact spaced_map _

/-! ## Runs -/

/-- `backoffTimeInMs_` behind so many attempts. -/
def behind : Nat → Nat
  | 0 => 0
  | n + 1 => backedOff n

structure Inv (x : State × List Nat) : Prop where
  sleeps : x.2 = (List.range x.2.length).map scheduled
  field : x.1.controller.backoffTimeInMs = behind x.2.length

variable {s t : State} {sleeps : List Nat} {a : Label}

theorem sleep_eq {c : Controller} {n : Nat} (h : c.backoffTimeInMs = behind n) :
    sleep c = scheduled n ∧ c.backoff.backoffTimeInMs = behind (n + 1) := by
  unfold sleep Controller.backoff
  rw [h]
  cases n with
  | zero => exact ⟨rfl, rfl⟩
  | succ n =>
    have hne : behind (n + 1) ≠ 0 := Nat.ne_of_gt (backedOff_pos n)
    simp only [if_neg hne]
    exact ⟨rfl, rfl⟩

/-- Nothing but an attempt and its success changes the field. -/
theorem Transition.kept (sleeps : List Nat) (h : Transition s a t) :
    (t.controller.backoffTimeInMs = s.controller.backoffTimeInMs ∧ note sleeps s a t = sleeps) ∨
      (t.controller.backoffTimeInMs = s.controller.backoff.backoffTimeInMs ∧
        note sleeps s a t = sleeps ++ [sleep s.controller]) ∨
      (t.controller.backoffTimeInMs = 0 ∧ note sleeps s a t = []) := by
  cases h with
  | connect htop hstate => exact .inr (.inl ⟨rfl, rfl⟩)
  | connected htodo hplace hopen => exact .inr (.inr ⟨rfl, rfl⟩)
  | onTimer timer hwaits hexpired => cases timer <;> exact .inl ⟨rfl, rfl⟩
  | onMessage m hwaits hreading => cases m <;> exact .inl ⟨rfl, rfl⟩
  | _ => exact .inl ⟨rfl, rfl⟩

theorem Inv.next {x y : State × List Nat} (h : Inv x) (hs : recording step note x a = some y) :
    Inv y := by
  obtain ⟨s, sleeps⟩ := x
  refine next_of_step (I := Inv) (fun t ht => ?_) hs
  have hlength : sleeps = _ := h.sleeps
  rcases Transition.kept sleeps (step_transition ht) with
    ⟨hfield, hnote⟩ | ⟨hfield, hnote⟩ | ⟨hfield, hnote⟩
  · rw [hnote]
    exact ⟨h.sleeps, hfield.trans h.field⟩
  · obtain ⟨hsleep, hbehind⟩ := sleep_eq h.field
    rw [hnote]
    refine ⟨?_, ?_⟩
    · simp only [List.length_append, List.length_singleton, List.range_succ, List.map_append,
        List.map_singleton]
      rw [← hlength, hsleep]
    · rw [hfield, hbehind, List.length_append, List.length_singleton]
  · rw [hnote]
    exact ⟨rfl, hfield⟩

/-- **Attempts are spaced**: in every run of the processor thread, whatever its handlers do in
between, the sleeps before the attempts to connect since the latest connection are those of the
schedule. -/
theorem attempts_spaced (on : Bool) (labels : List Label) :
    Along (recording step note) (fun x => Spaced x.2) (init on, []) labels :=
  (along_of_step (fun _ _ _ h hs => Inv.next h hs) ⟨rfl, rfl⟩ labels).mono
    fun _ h => spaced_of_eq h.sleeps

example : (List.range 12).map scheduled =
    [0, 1500, 2250, 3375, 5062, 7593, 11389, 17083, 25624, 38436, 57654, 60000] := by decide

end Opsian.Collector.Backoff
