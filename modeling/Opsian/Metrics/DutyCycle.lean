import Mathlib.Data.Nat.Find
import Opsian.Globals
import Opsian.Metrics.Loop

/-! # The window of a duty cycle

Behind its locked section a cycle has some of its window left, which the elimination loop
spends on further reads. The clock is the realtime clock, and a time it has gone back is
a negative number that is compared with unsigned ones. -/
namespace Opsian.Metrics.DutyCycle
open Opsian.Globals
open Opsian.Metrics.Loop (Action)

def deltaInNs (start stop : Timespec) : Int64 :=
  let durationSec := stop.tvSec - start.tvSec
  let durationNSec := stop.tvNsec - start.tvNsec
  durationNSec + durationSec * 1000000000

def deltaInMs (start stop : Timespec) : Int64 := deltaInNs start stop / 1000000

/-- One stretch of work: the clock before and behind it, whether metrics are enabled, and
if so what `EventRingReader::read` returns. -/
structure Round where
  startWork : Timespec
  endWork : Timespec
  enabled : Bool
  events : UInt32
  deriving DecidableEq, Repr

/-- `workInMs`, as it is compared with a `uint64_t`. -/
def Round.workInMs (r : Round) : UInt64 := (deltaInMs r.startWork r.endWork).toUInt64

def Round.hasRemainingEvents (r : Round) : Bool := r.enabled && r.events != 0

/-- The thread behind a stretch of work, with a window. -/
structure Window where
  remainingWindowInMs : UInt64
  hasRemainingEvents : Bool
  /-- The clock behind the latest read. -/
  endWork : Timespec
  deriving DecidableEq, Repr

/-- Behind the locked section, where the cycle has a window. -/
def window (sampleRateInMs : UInt64) (first : Round) : Option Window :=
  if first.workInMs < sampleRateInMs then
    some ⟨sampleRateInMs - first.workInMs, first.hasRemainingEvents, first.endWork⟩
  else none

def deduct (remainingWindowInMs workInMs : UInt64) : UInt64 :=
  if remainingWindowInMs ≤ workInMs then 0 else remainingWindowInMs - workInMs

/-- One round of the elimination loop; `break` leaves the window as it is. -/
def Window.round (w : Window) (r : Round) : Window :=
  if r.enabled then ⟨deduct w.remainingWindowInMs r.workInMs, r.hasRemainingEvents, r.endWork⟩
  else { w with hasRemainingEvents := false }

/-- The elimination loop, before its round `n` or behind its end. -/
def Window.after (w : Window) (rounds : Nat → Round) : Nat → Window
  | 0 => w
  | n + 1 =>
    let v := w.after rounds n
    if v.hasRemainingEvents then v.round (rounds n) else v

/-- What the metrics thread does next. -/
def Window.action (sampleRateInMs : UInt64) (w : Window) : Action :=
  if w.hasRemainingEvents then .poll
  else .send (toMillis w.endWork).toInt (sampleRateInMs - w.remainingWindowInMs).toInt64

/-- The cycle keeps to its window. -/
structure Budget (sampleRateInMs : UInt64) (w : Window) (rounds : Nat → Round) : Prop where
  bounded : ∀ n, (w.after rounds n).remainingWindowInMs ≤ sampleRateInMs
  exact : ∀ n t d, (w.after rounds n).action sampleRateInMs = .send t d →
    d.toUInt64.toNat + (w.after rounds n).remainingWindowInMs.toNat = sampleRateInMs.toNat
  /-- Nothing is read with the window used up. -/
  unused : ∀ n, (w.after rounds n).action sampleRateInMs = .poll → (rounds n).enabled = true →
    0 < (w.after rounds n).remainingWindowInMs
  ends : ∃ n t d, (w.after rounds n).action sampleRateInMs = .send t d

def KeepsBudget (sampleRateInMs : UInt64) (first : Round) (rounds : Nat → Round) : Prop :=
  ∀ w, window sampleRateInMs first = some w → Budget sampleRateInMs w rounds

/-- The work of the rounds before. -/
def spent (rounds : Nat → Round) : Nat → Nat
  | 0 => 0
  | n + 1 => spent rounds n + (rounds n).workInMs.toNat

/-- The cycle has no window or no events are left; or the events come to an end, or metrics
are disabled, before the reads have spent the window. -/
def InTime (sampleRateInMs : UInt64) (first : Round) (rounds : Nat → Round) : Prop :=
  sampleRateInMs ≤ first.workInMs ∨ first.hasRemainingEvents = false ∨
    ∃ n, (rounds n).hasRemainingEvents = false ∧
      (∀ i < n, (rounds i).hasRemainingEvents = true) ∧
      ∀ i ≤ n, (rounds i).enabled = true →
        spent rounds i < sampleRateInMs.toNat - first.workInMs.toNat

variable {sampleRateInMs : UInt64} {w : Window} {rounds : Nat → Round} {n : Nat}

theorem deduct_toNat (remaining work : UInt64) :
    (deduct remaining work).toNat = remaining.toNat - work.toNat := by
  unfold deduct
  split
  · rename_i hle
    exact (Nat.sub_eq_zero_of_le (UInt64.le_iff_toNat_le.mp hle)).symm
  · rename_i hlt
    exact UInt64.toNat_sub_of_le _ _ (UInt64.le_of_lt (UInt64.not_le.mp hlt))

theorem round_hasRemainingEvents (w : Window) (r : Round) :
    (w.round r).hasRemainingEvents = r.hasRemainingEvents := by
  unfold Window.round
  split
  · rfl
  · rename_i henabled
    simp [Round.hasRemainingEvents, henabled]

theorem round_le (w : Window) (r : Round) :
    (w.round r).remainingWindowInMs.toNat ≤ w.remainingWindowInMs.toNat := by
  unfold Window.round
  split
  · rw [deduct_toNat]
    exact Nat.sub_le ..
  · exact Nat.le_refl _

theorem after_le (w : Window) (rounds : Nat → Round) (n : Nat) :
    (w.after rounds n).remainingWindowInMs.toNat ≤ w.remainingWindowInMs.toNat := by
  induction n with
  | zero => exact Nat.le_refl _
  | succ n ih =>
    unfold Window.after
    simp only
    split
    · exact Nat.le_trans (round_le ..) ih
    · exact ih

/-- The loop goes on for as long as each round has left events. -/
theorem after_hasRemainingEvents (w : Window) (rounds : Nat → Round) (n : Nat) :
    (w.after rounds n).hasRemainingEvents = true ↔
      w.hasRemainingEvents = true ∧ ∀ i < n, (rounds i).hasRemainingEvents = true := by
  induction n with
  | zero => simp [Window.after]
  | succ n ih =>
    rw [Nat.forall_lt_succ_right, ← and_assoc, ← ih, Window.after]
    by_cases hloops : (w.after rounds n).hasRemainingEvents = true
    · simp only [if_pos hloops, round_hasRemainingEvents]
      exact (and_iff_right hloops).symm
    · simp only [if_neg hloops]
      exact iff_of_false hloops fun h => hloops h.1

/-- What the rounds have left of the window. -/
theorem after_remaining (h : (w.after rounds n).hasRemainingEvents = true) :
    (w.after rounds n).remainingWindowInMs.toNat =
      w.remainingWindowInMs.toNat - spent rounds n := by
  induction n with
  | zero => rfl
  | succ n ih =>
    obtain ⟨hw, hall⟩ := (after_hasRemainingEvents w rounds (n + 1)).mp h
    obtain ⟨hbefore, hn⟩ := Nat.forall_lt_succ_right.mp hall
    have hloops := (after_hasRemainingEvents w rounds n).mpr ⟨hw, hbefore⟩
    obtain ⟨henabled, -⟩ := Bool.and_eq_true_iff.mp hn
    rw [Window.after, if_pos hloops, Window.round, if_pos henabled, deduct_toNat, ih hloops,
      spent, Nat.sub_sub]

theorem action_eq_poll : w.action sampleRateInMs = .poll ↔ w.hasRemainingEvents = true := by
  unfold Window.action
  split <;> simp [*]

theorem action_eq_send {t : Int} {d : Int64} (h : w.action sampleRateInMs = .send t d) :
    d = (sampleRateInMs - w.remainingWindowInMs).toInt64 := by
  unfold Window.action at h
  split at h
  · cases h
  · cases h
    rfl

/-- The loop is left. -/
theorem exists_send_iff : (∃ t d, w.action sampleRateInMs = .send t d) ↔
    w.hasRemainingEvents = false := by
  unfold Window.action
  split <;> simp [*]

/-- A window that is left is part of the cycle, and so is what is left of it. -/
theorem bounded_of_le (h : w.remainingWindowInMs ≤ sampleRateInMs) (rounds : Nat → Round)
    (n : Nat) : (w.after rounds n).remainingWindowInMs ≤ sampleRateInMs :=
  UInt64.le_iff_toNat_le.mpr
    (Nat.le_trans (after_le w rounds n) (UInt64.le_iff_toNat_le.mp h))

theorem exact_of_le (h : w.remainingWindowInMs ≤ sampleRateInMs) {t : Int} {d : Int64}
    (hsend : w.action sampleRateInMs = .send t d) :
    d.toUInt64.toNat + w.remainingWindowInMs.toNat = sampleRateInMs.toNat := by
  rw [action_eq_send hsend, UInt64.toUInt64_toInt64, UInt64.toNat_sub_of_le _ _ h]
  exact Nat.sub_add_cancel (UInt64.le_iff_toNat_le.mp h)

/-- The loop is left in the first round that leaves no events. -/
theorem exists_first (hw : w.hasRemainingEvents = true)
    (hend : (w.after rounds n).hasRemainingEvents = false) :
    ∃ m, (rounds m).hasRemainingEvents = false ∧
      ∀ i < m, (rounds i).hasRemainingEvents = true := by
  have hexists : ∃ m, (rounds m).hasRemainingEvents = false := by
    by_contra hnone
    have hall : ∀ i < n, (rounds i).hasRemainingEvents = true := by
      intro i _
      simpa using not_exists.mp hnone i
    rw [(after_hasRemainingEvents w rounds n).mpr ⟨hw, hall⟩] at hend
    cases hend
  refine ⟨Nat.find hexists, Nat.find_spec hexists, ?_⟩
  intro i hi
  simpa using Nat.find_min hexists hi

/-- No round comes behind one that leaves no events. -/
theorem le_of_after (hlast : (rounds n).hasRemainingEvents = false) {i : Nat}
    (hloops : (w.after rounds i).hasRemainingEvents = true) : i ≤ n := by
  obtain ⟨-, hall⟩ := (after_hasRemainingEvents w rounds i).mp hloops
  by_contra hlt
  rw [hall n (Nat.not_le.mp hlt)] at hlast
  cases hlast

/-- The bounds hold anyway, and the rest is what the rounds decide. -/
theorem budget_iff (h : w.remainingWindowInMs ≤ sampleRateInMs) :
    Budget sampleRateInMs w rounds ↔ w.hasRemainingEvents = false ∨
      ∃ n, (rounds n).hasRemainingEvents = false ∧
        (∀ i < n, (rounds i).hasRemainingEvents = true) ∧
        ∀ i ≤ n, (rounds i).enabled = true → spent rounds i < w.remainingWindowInMs.toNat := by
  have hpositive : ∀ i, (w.after rounds i).hasRemainingEvents = true →
      (0 < (w.after rounds i).remainingWindowInMs ↔
        spent rounds i < w.remainingWindowInMs.toNat) := by
    intro i hloops
    rw [UInt64.lt_iff_toNat_lt, after_remaining hloops]
    exact Nat.sub_pos_iff_lt
  constructor
  · intro hbudget
    by_cases hw : w.hasRemainingEvents = true
    · obtain ⟨m, hend⟩ := hbudget.ends
      obtain ⟨n, hlast, hbefore⟩ := exists_first hw (exists_send_iff.mp hend)
      refine .inr ⟨n, hlast, hbefore, ?_⟩
      intro i hi henabled
      have hloops : (w.after rounds i).hasRemainingEvents = true :=
        (after_hasRemainingEvents w rounds i).mpr
          ⟨hw, fun j hj => hbefore j (Nat.lt_of_lt_of_le hj hi)⟩
      exact (hpositive i hloops).mp (hbudget.unused i (action_eq_poll.mpr hloops) henabled)
    · exact .inl (by simpa using hw)
  · intro htime
    refine ⟨bounded_of_le h rounds, ?_, ?_, ?_⟩
    · intro n t d hsend
      exact exact_of_le (bounded_of_le h rounds n) hsend
    · intro i hpoll henabled
      have hloops := action_eq_poll.mp hpoll
      obtain ⟨hw, -⟩ := (after_hasRemainingEvents w rounds i).mp hloops
      rcases htime with hnone | ⟨n, hlast, -, hspent⟩
      · rw [hw] at hnone
        cases hnone
      · exact (hpositive i hloops).mpr (hspent i (le_of_after hlast hloops) henabled)
    · rcases htime with hnone | ⟨n, hlast, -, -⟩
      · exact ⟨0, exists_send_iff.mpr hnone⟩
      · refine ⟨n + 1, exists_send_iff.mpr (Bool.eq_false_iff.mpr ?_)⟩
        intro hloops
        exact absurd (le_of_after hlast hloops) (Nat.not_succ_le_self n)

/-- **A cycle keeps to its window**, for whatever the clock says and the readers find, if
and only if the reads have left no events before they have spent it. -/
theorem keepsBudget_iff_inTime (sampleRateInMs : UInt64) (first : Round)
    (rounds : Nat → Round) :
    KeepsBudget sampleRateInMs first rounds ↔ InTime sampleRateInMs first rounds := by
  unfold KeepsBudget InTime window
  by_cases hwindow : first.workInMs < sampleRateInMs
  · have hle := UInt64.le_of_lt hwindow
    have hremaining : sampleRateInMs - first.workInMs ≤ sampleRateInMs := by
      rw [UInt64.le_iff_toNat_le, UInt64.toNat_sub_of_le _ _ hle]
      exact Nat.sub_le ..
    have hiff := @budget_iff sampleRateInMs
      ⟨sampleRateInMs - first.workInMs, first.hasRemainingEvents, first.endWork⟩ rounds hremaining
    simp only [UInt64.toNat_sub_of_le _ _ hle] at hiff
    simp only [if_pos hwindow, Option.some.injEq, forall_eq']
    rw [or_iff_right (UInt64.not_le.mpr hwindow)]
    exact hiff
  · simp only [if_neg hwindow, UInt64.not_lt.mp hwindow, true_or, iff_true]
    exact nofun

/-- The clock at so many seconds. -/
def atSecond (s : Int64) : Timespec := ⟨s, 0⟩

/-- One second is read for, and events are left. -/
def longRead : Round := ⟨atSecond 0, atSecond 1, true, 1⟩

/-- The first round spends all of the window, and the next one reads again. -/
theorem reads_beyond_window :
    ¬ KeepsBudget 1000 ⟨atSecond 0, atSecond 0, true, 1⟩ fun _ => longRead := by
  intro h
  have hbudget := h ⟨1000, true, atSecond 0⟩ (by decide)
  exact absurd (hbudget.unused 1 (by decide) rfl) (by decide)

end Opsian.Metrics.DutyCycle
