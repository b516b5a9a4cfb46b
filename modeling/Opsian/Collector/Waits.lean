import Mathlib.Tactic.ByContra
import Opsian.Lib.Runs

/-! # The deadline of a wait

`awaitCompletionOrTimeout` runs the event loop until its error code changes. The handler of
the timer has a copy of the code, so a timeout ends the wait only where it closes the socket
and thereby completes the operation. -/
namespace Opsian.Collector.Waits
open Opsian.Lib.Runs

/-- What is awaited. -/
inductive Operation where
  | resolve
  | connect
  | write
  deriving DecidableEq, Repr

/-- What an operation completes with, which is never `would_block`. -/
inductive ErrorCode where
  | success
  | operation_aborted
  | failed (value : Nat)
  deriving DecidableEq, Repr

/-- An operation completes before the loop runs its handler. -/
inductive Pending where
  | outstanding
  | ready (ec : ErrorCode)
  | handled
  deriving DecidableEq, Repr

/-- Where the wait and the event loop are; `none` is `would_block`. -/
structure Wait where
  operation : Operation
  /-- The error code that the loop looks at, and the copy that `boost::bind` stores. -/
  ec : Option ErrorCode
  boundEc : Option ErrorCode
  completion : Pending
  timer : Pending
  /-- The other handlers that are ready, and whether they close the socket. -/
  handlers : List Bool
  /-- The timer's handler has run, without the code of a cancelled one. -/
  timedOut : Bool
  deriving DecidableEq, Repr

/-- What `setupTimeout` is called with: whether the operation is one of the socket. -/
def Operation.doClose : Operation → Bool
  | .resolve => false
  | .connect | .write => true

def begin (operation : Operation) : Wait where
  operation := operation
  ec := none
  boundEc := none
  completion := .outstanding
  timer := .outstanding
  handlers := []
  timedOut := false

namespace Wait

/-- Closing the socket completes what is outstanding on it. -/
def closeSocket (s : Wait) : Wait :=
  if s.operation.doClose && s.completion = .outstanding then
    { s with completion := .ready .operation_aborted }
  else s

def onTimerRun (s : Wait) (error : ErrorCode) : Wait :=
  if error ≠ .operation_aborted then
    let s := { s with boundEc := some .operation_aborted, timedOut := true }
    if s.operation.doClose then s.closeSocket else s
  else s

end Wait

/-- The handlers that `run_one` chooses from. -/
inductive Handler where
  | timer
  | completion
  | other (closes : Bool)
  deriving DecidableEq, Repr

/-- One round of the loop, which takes any handler that is ready. It blocks where none is,
and is left when the error code has changed. -/
def runOne (s : Wait) (handler : Handler) : Option Wait :=
  if s.ec.isSome then none
  else
    match handler with
    | .timer =>
      match s.timer with
      | .ready error => some (Wait.onTimerRun { s with timer := .handled } error)
      | _ => none
    | .completion =>
      match s.completion with
      | .ready ec => some { s with completion := .handled, ec := some ec }
      | _ => none
    | .other closes =>
      if closes ∈ s.handlers then
        let s := { s with handlers := s.handlers.erase closes }
        some (if closes then s.closeSocket else s)
      else none

inductive Event where
  | run (handler : Handler)
  /-- The operation completes by itself. -/
  | complete (ec : ErrorCode)
  /-- The timer expires, or is cancelled. -/
  | expire (error : ErrorCode)
  | post (closes : Bool)
  deriving DecidableEq, Repr

def step (s : Wait) : Event → Option Wait
  | .run handler => runOne s handler
  | .complete ec =>
    if s.completion = .outstanding then some { s with completion := .ready ec } else none
  | .expire error => if s.timer = .outstanding then some { s with timer := .ready error } else none
  | .post closes => some { s with handlers := closes :: s.handlers }

/-- The wait has ended with an error. -/
def Failed (s : Wait) : Prop := ∃ ec, s.ec = some ec ∧ ec ≠ .success

/-- The operation ends with an error for the timeout: it is closed, or has already failed. -/
def Ending (s : Wait) : Prop :=
  (s.operation.doClose = true ∧ s.completion = .outstanding) ∨
    ∃ ec, s.completion = .ready ec ∧ ec ≠ .success

/-- The timer's handler runs when that is so. -/
def Timely (s : Wait) : Event → Prop
  | .run .timer => s.timer ≠ .ready .operation_aborted → Ending s
  | _ => True

/-! ## Waits -/

variable {s t : Wait} {handler : Handler} {event : Event}

/-- An error is ready, or has ended the wait. -/
def Failing (s : Wait) : Prop :=
  (s.ec = none ∧ ∃ ec, s.completion = .ready ec ∧ ec ≠ .success) ∨ Failed s

structure Inv (s : Wait) : Prop where
  timer : s.timedOut = true → s.timer = .handled
  completion : s.completion = .handled ↔ s.ec.isSome = true
  failing : s.timedOut = true → Failing s

theorem closeSocket_of_not_outstanding (h : s.completion ≠ .outstanding) : s.closeSocket = s := by
  unfold Wait.closeSocket
  rw [if_neg]
  rw [Bool.and_eq_true, decide_eq_true_eq]
  exact fun hboth => h hboth.2

theorem closeSocket_of_outstanding (h : s.operation.doClose = true)
    (hout : s.completion = .outstanding) :
    s.closeSocket = { s with completion := .ready .operation_aborted } := by
  unfold Wait.closeSocket
  rw [if_pos]
  rw [h, hout]
  rfl

/-- A round of the loop, by the handler it runs. -/
theorem runOne_cases (h : runOne s handler = some t) :
    s.ec = none ∧
      ((∃ error, handler = .timer ∧ s.timer = .ready error ∧
          t = Wait.onTimerRun { s with timer := .handled } error) ∨
        (∃ ec, handler = .completion ∧ s.completion = .ready ec ∧
          t = { s with completion := .handled, ec := some ec }) ∨
        ∃ closes, handler = .other closes ∧ closes ∈ s.handlers ∧
          (t = { s with handlers := s.handlers.erase closes } ∨
            t = Wait.closeSocket { s with handlers := s.handlers.erase closes })) := by
  unfold runOne at h
  split at h
  · cases h
  · rename_i hec
    refine ⟨Option.not_isSome_iff_eq_none.mp hec, ?_⟩
    cases handler with
    | timer =>
      dsimp only at h
      split at h
      · rename_i error htimer
        exact .inl ⟨error, rfl, htimer, (Option.some.inj h).symm⟩
      · cases h
    | completion =>
      dsimp only at h
      split at h
      · rename_i ec hready
        exact .inr (.inl ⟨ec, rfl, hready, (Option.some.inj h).symm⟩)
      · cases h
    | other closes =>
      dsimp only at h
      split at h
      · rename_i hmem
        refine .inr (.inr ⟨closes, rfl, hmem, ?_⟩)
        cases closes with
        | false => exact .inl (Option.some.inj h).symm
        | true => exact .inr (Option.some.inj h).symm
      · cases h

/-- A timeout leaves the operation as it is, or closes the socket. -/
theorem onTimerRun_timeout {error : ErrorCode} (h : error ≠ .operation_aborted) :
    s.onTimerRun error = if s.operation.doClose then
      Wait.closeSocket { s with boundEc := some .operation_aborted, timedOut := true }
    else { s with boundEc := some .operation_aborted, timedOut := true } := by
  unfold Wait.onTimerRun
  rw [if_pos h]

/-! ## The loop behind a timeout -/

theorem closeSocket_eq (s : Wait) :
    s.closeSocket = s ∨
      s.completion = .outstanding ∧
        s.closeSocket = { s with completion := .ready .operation_aborted } := by
  unfold Wait.closeSocket
  split
  · rename_i h
    exact .inr ⟨of_decide_eq_true (Bool.and_eq_true_iff.mp h).2, rfl⟩
  · exact .inl rfl

/-- While the loop runs, the invariant is about what is ready. -/
theorem inv_of_running (hec : s.ec = none) (hcompletion : s.completion ≠ .handled)
    (htimer : s.timedOut = true → s.timer = .handled)
    (hready : s.timedOut = true → ∃ ec, s.completion = .ready ec ∧ ec ≠ .success) : Inv s where
  timer := htimer
  completion := by
    rw [hec]
    exact ⟨fun h => absurd h hcompletion, nofun⟩
  failing h := .inl ⟨hec, hready h⟩

theorem Inv.running (h : Inv s) (hec : s.ec = none) :
    s.completion ≠ .handled ∧
      (s.timedOut = true → ∃ ec, s.completion = .ready ec ∧ ec ≠ .success) := by
  refine ⟨fun hhandled => ?_, fun htimed => ?_⟩
  · have hsome := h.completion.mp hhandled
    rw [hec] at hsome
    cases hsome
  · rcases h.failing htimed with ⟨-, hready⟩ | ⟨ec, hec', -⟩
    · exact hready
    · rw [hec] at hec'
      cases hec'

theorem Inv.run (h : Inv s) (htimely : Timely s (.run handler)) (hrun : runOne s handler = some t) :
    Inv t := by
  obtain ⟨hec, hcases⟩ := runOne_cases hrun
  obtain ⟨hnot, hready⟩ := h.running hec
  obtain ⟨error, rfl, htimer, rfl⟩ | ⟨ec, rfl, hcompletion, rfl⟩ | ⟨closes, rfl, -, ht⟩ := hcases
  · have hearly : s.timedOut = false := by
      cases htimed : s.timedOut with
      | false => rfl
      | true =>
        have hhandled := h.timer htimed
        rw [htimer] at hhandled
        cases hhandled
    by_cases herror : error = .operation_aborted
    · subst herror
      exact inv_of_running hec hnot (fun _ => rfl) (fun htimed => nomatch hearly.symm.trans htimed)
    · rw [onTimerRun_timeout herror]
      have hending := htimely (by rw [htimer]; exact fun he => herror (Pending.ready.inj he))
      rcases hending with ⟨hclose, hout⟩ | ⟨ec, hfailed, hsuccess⟩
      · rw [if_pos (by exact hclose), closeSocket_of_outstanding (by exact hclose) (by exact hout)]
        exact inv_of_running hec nofun (fun _ => rfl) fun _ => ⟨_, rfl, nofun⟩
      · rw [closeSocket_of_not_outstanding (by simp [hfailed]), ite_self]
        exact inv_of_running hec hnot (fun _ => rfl) fun _ => ⟨ec, hfailed, hsuccess⟩
  · refine ⟨h.timer, by simp, fun htimed => .inr ?_⟩
    obtain ⟨ec', hec', herror⟩ := hready htimed
    rw [hcompletion] at hec'
    exact ⟨ec, rfl, Pending.ready.inj hec' ▸ herror⟩
  · have hkept : Inv { s with handlers := s.handlers.erase closes } :=
      inv_of_running hec hnot h.timer hready
    rcases ht with rfl | rfl
    · exact hkept
    · rcases closeSocket_eq { s with handlers := s.handlers.erase closes } with heq | ⟨hout, heq⟩
      · rw [heq]
        exact hkept
      · rw [heq]
        exact inv_of_running hec nofun h.timer fun _ => ⟨_, rfl, nofun⟩

theorem Inv.step (h : Inv s) (htimely : Timely s event) (hstep : step s event = some t) :
    Inv t := by
  cases event with
  | run handler => exact h.run htimely hstep
  | complete ec =>
    rw [Waits.step] at hstep
    split at hstep
    · rename_i hout
      cases hstep
      have hec : s.ec = none := by
        cases hec : s.ec with
        | none => rfl
        | some ec =>
          have hhandled := h.completion.mpr (by rw [hec]; rfl)
          rw [hout] at hhandled
          cases hhandled
      refine inv_of_running hec nofun h.timer fun htimed => ?_
      obtain ⟨ec', hready, -⟩ := (h.running hec).2 htimed
      rw [hout] at hready
      cases hready
    · cases hstep
  | expire error =>
    rw [Waits.step] at hstep
    split at hstep
    · rename_i hout
      cases hstep
      refine ⟨fun htimed => ?_, h.completion, h.failing⟩
      have hhandled := h.timer htimed
      rw [hout] at hhandled
      cases hhandled
    · cases hstep
  | post closes =>
    cases hstep
    exact ⟨h.timer, h.completion, h.failing⟩

end Opsian.Collector.Waits
