import Mathlib.Algebra.Ring.Int.Defs
import Mathlib.Algebra.Ring.Nat
import Opsian.Lib.Runs
import Opsian.Scanner.ProcScanner

/-! # The process timer

`SignalHandler` keeps the interval it last gave to `setitimer`, and does not ask
again for the one it keeps. The kernel's timer belongs to the process: a forked
child starts without it, but with a copy of the cached interval. -/
namespace Opsian.Signals.SignalHandler
open Opsian.Lib.Runs
open Opsian.Scanner.ProcScanner (dontChangeSampleRate)

/-- The cache, the timer and what was asked for last. -/
structure State where
  currentProcessInterval : Int32
  isProcessProfiling : Bool
  /-- The interval of `ITIMER_PROF` in microseconds, 0 where it is disarmed. -/
  itimerProf : Int
  /-- The latest step was a `SampleRate` that switches on at a rate. -/
  switchedOn : Bool
  deriving DecidableEq, Repr

def init : State := ⟨0, false, 0, false⟩

def notProfiling : Int32 := 0

structure TimeVal where
  tvSec : Int
  tvUsec : Int
  deriving DecidableEq, Repr

/-- What `updateInterval` computes; the product wraps. -/
def timeVal (timingIntervalInMillis : Int32) : TimeVal where
  tvSec := timingIntervalInMillis.toInt.tdiv 1000
  tvUsec := (timingIntervalInMillis * 1000).toInt.tmod 1000000

/-- `setitimer` refuses any other value with `EINVAL`. -/
def TimeVal.Valid (tv : TimeVal) : Prop := 0 ≤ tv.tvSec ∧ 0 ≤ tv.tvUsec ∧ tv.tvUsec < 1000000

instance (tv : TimeVal) : Decidable tv.Valid := inferInstanceAs (Decidable (_ ∧ _))

/-- `setitimer` takes the interval; `granted` is whether anything else makes it fail. -/
def Accepted (timingIntervalInMillis : Int32) (granted : Bool) : Prop :=
  granted = true ∧ (timeVal timingIntervalInMillis).Valid

instance (ms : Int32) (granted : Bool) : Decidable (Accepted ms granted) :=
  inferInstanceAs (Decidable (_ ∧ _))

def armed (s : State) (ms : Int32) : State :=
  { s with itimerProf := (timeVal ms).tvSec * 1000000 + (timeVal ms).tvUsec }

/-- `updateProcessInterval`, with `updateInterval` inside. -/
def updateProcessInterval (s : State) (ms : Int32) (granted : Bool) : State :=
  if ms = s.currentProcessInterval then
    { s with isProcessProfiling := ms != notProfiling }
  else if Accepted ms granted then
    { armed s ms with
      currentProcessInterval := ms
      isProcessProfiling := ms != notProfiling }
  else s

def stopProcessProfiling (s : State) (granted : Bool) : State :=
  updateProcessInterval s notProfiling granted

/-- `static_cast<int>`. -/
def toInt (rate : UInt64) : Int32 := rate.toUInt32.toInt32

/-- The process timer's part of `startProfiling`. -/
def startProfiling (s : State) (processTimeStackSampleRateMillis : UInt64)
    (switchProcessTimeProfilingOn granted : Bool) : State :=
  if switchProcessTimeProfilingOn then
    if processTimeStackSampleRateMillis ≠ dontChangeSampleRate then
      updateProcessInterval s (toInt processTimeStackSampleRateMillis) granted
    else s
  else if s.isProcessProfiling then stopProcessProfiling s granted
  else s

inductive Label where
  | update (timingIntervalInMillis : Int32) (granted : Bool)
  | stop (granted : Bool)
  | sampleRate (rate : UInt64) (switchOn granted : Bool)
  /-- The run goes on in the child, after its `on_fork`. -/
  | fork
  deriving DecidableEq, Repr

def step (s : State) : Label → Option State
  | .update ms granted => some { updateProcessInterval s ms granted with switchedOn := false }
  | .stop granted => some { stopProcessProfiling s granted with switchedOn := false }
  | .sampleRate rate switchOn granted =>
    some { startProfiling s rate switchOn granted with
      switchedOn := switchOn && rate != dontChangeSampleRate }
  -- on_fork calls nothing of the signal handler
  | .fork => some { s with itimerProf := 0, switchedOn := false }

/-! ## The cache and the timer -/

structure Agrees (s : State) : Prop where
  interval : s.itimerProf = s.currentProcessInterval.toInt * 1000
  flag : s.isProcessProfiling = true ↔ s.itimerProf ≠ 0
  on : s.switchedOn = true → s.itimerProf ≠ 0

/-- An interval that `setitimer` is asked for and takes has no overflow. -/
def Fits (s : State) (ms : Int32) (granted : Bool) : Prop :=
  ms ≠ s.currentProcessInterval → Accepted ms granted → ms.toInt * 1000 < 2 ^ 31

/-- A fork finds the timer off, an interval fits, and a rate to switch on is an
interval; where the timer is refused, one was armed before. -/
def Sound (s : State) : Label → Prop
  | .update ms granted => Fits s ms granted
  | .stop _ => True
  | .sampleRate rate switchOn granted =>
    switchOn = true → rate ≠ dontChangeSampleRate → Fits s (toInt rate) granted ∧
      if Accepted (toInt rate) granted then toInt rate ≠ notProfiling
      else s.currentProcessInterval ≠ notProfiling
  | .fork => s.currentProcessInterval = notProfiling

variable {s t : State} {ms : Int32} {granted : Bool}

/-! ## What is armed -/

theorem toInt_mul_1000 (ms : Int32) : (ms * 1000).toInt = (ms.toInt * 1000).bmod (2 ^ 32) :=
  Int32.toInt_mul ms 1000

theorem tmod_eq_emod {x : Int} (h : 0 ≤ x.tmod 1000000) : x.tmod 1000000 = x % 1000000 := by
  have hlt := Int.emod_lt_of_pos x (show (0 : Int) < 1000000 by decide)
  rw [Int.tmod_eq_emod] at *
  split at h
  · simp [*]
  · have hb : Int.natAbs 1000000 = 1000000 := rfl
    omega

/-- `setitimer` takes no negative interval. -/
theorem toInt_nonneg (h : (timeVal ms).Valid) : 0 ≤ ms.toInt := by
  obtain ⟨hsec, husec, -⟩ := h
  simp only [timeVal] at hsec husec
  by_contra hneg
  have hsmall : -1000 < ms.toInt := by
    have hsign : Int.sign 1000 = 1 := rfl
    rw [Int.tdiv_eq_ediv] at hsec
    split at hsec <;> omega
  rw [toInt_mul_1000, Int.bmod_eq_of_le (by omega) (by omega)] at husec
  have hmod := tmod_eq_emod husec
  rw [Int.tmod_eq_emod] at hmod
  split at hmod
  · omega
  · have hb : Int.natAbs 1000000 = 1000000 := rfl
    omega

/-- What `setitimer` takes is the interval itself exactly if the product has not
overflowed. -/
theorem timeVal_exact_iff (h : (timeVal ms).Valid) :
    (timeVal ms).tvSec * 1000000 + (timeVal ms).tvUsec = ms.toInt * 1000 ↔
      ms.toInt * 1000 < 2 ^ 31 := by
  have hms := toInt_nonneg h
  have hlt : ms.toInt < 2 ^ 31 := Int32.toInt_lt ms
  have husec := tmod_eq_emod h.2.1
  have hsec : (timeVal ms).tvSec = ms.toInt / 1000 := Int.tdiv_eq_ediv_of_nonneg hms
  rw [hsec]
  simp only [timeVal] at husec ⊢
  -- The product is off by a multiple of 2 ^ 32 too small to be one of 1000000.
  obtain ⟨k, hk⟩ : ∃ k, (ms * 1000).toInt = ms.toInt * 1000 - 4294967296 * k := by
    rw [toInt_mul_1000, Int.bmod_def]
    split
    · exact ⟨ms.toInt * 1000 / 4294967296, by omega⟩
    · exact ⟨ms.toInt * 1000 / 4294967296 + 1, by omega⟩
  have hle : -2 ^ 31 ≤ (ms * 1000).toInt := Int32.le_toInt _
  have hge : (ms * 1000).toInt < 2 ^ 31 := Int32.toInt_lt _
  rw [husec]
  constructor
  · intro heq
    have hmod : 4294967296 * k % 1000000 = 0 := by omega
    omega
  · intro hfits
    have hzero : k = 0 := by omega
    omega

/-! ## Each step -/

theorem notProfiling_iff : ms = notProfiling ↔ ms.toInt = 0 :=
  ⟨fun h => by rw [h]; rfl, fun h => Int32.toInt.inj h⟩

theorem fits_notProfiling (s : State) (granted : Bool) : Fits s notProfiling granted :=
  fun _ _ => by decide

theorem bne_notProfiling : (ms != notProfiling) = true ↔ ms.toInt * 1000 ≠ 0 := by
  rw [bne_iff_ne, ne_eq, notProfiling_iff]
  omega

theorem agrees_iff {interval : Int} {w : Bool} :
    Agrees ⟨ms, ms != notProfiling, interval, w⟩ ↔
      interval = ms.toInt * 1000 ∧ (w = true → ms ≠ notProfiling) := by
  rw [← bne_iff_ne, bne_notProfiling]
  constructor
  · intro h
    obtain rfl : interval = ms.toInt * 1000 := h.interval
    exact ⟨rfl, h.on⟩
  · rintro ⟨rfl, hw⟩
    exact ⟨rfl, bne_notProfiling, hw⟩

/-- The flag says no more than the cache does. -/
theorem Agrees.flag_eq (h : Agrees s) :
    s.isProcessProfiling = (s.currentProcessInterval != notProfiling) := by
  rw [Bool.eq_iff_iff, h.flag, h.interval, bne_notProfiling]

/-- A step that leaves cache and timer as they are. -/
theorem Agrees.keep (h : Agrees s) (w : Bool) : Agrees { s with switchedOn := w } ↔
    (w = true → s.currentProcessInterval ≠ notProfiling) := by
  rw [h.flag_eq, agrees_iff]
  exact and_iff_right h.interval

/-- An update that fits keeps cache and timer in agreement, and any other does not. -/
theorem Agrees.update (h : Agrees s) (ms : Int32) (granted w : Bool) :
    Agrees { updateProcessInterval s ms granted with switchedOn := w } ↔
      Fits s ms granted ∧ (w = true →
        if Accepted ms granted then ms ≠ notProfiling
        else s.currentProcessInterval ≠ notProfiling) := by
  unfold updateProcessInterval Fits
  by_cases hms : ms = s.currentProcessInterval
  · -- No system call is made, so what it would have answered does not matter.
    have hsame : (if Accepted ms granted then ms ≠ notProfiling
        else s.currentProcessInterval ≠ notProfiling) ↔ ms ≠ notProfiling := by
      rw [← hms, ite_self]
    rw [if_pos hms, hsame]
    subst hms
    simp only [ne_eq, not_true, false_implies, true_and]
    rw [agrees_iff]
    exact and_iff_right h.interval
  · rw [if_neg hms]
    by_cases ha : Accepted ms granted
    · rw [if_pos ha, if_pos ha, armed, agrees_iff, timeVal_exact_iff ha.2]
      simp [hms, ha]
    · rw [if_neg ha, if_neg ha, h.keep]
      simp [ha]

theorem Agrees.next {a : Label} (h : Agrees s) (hs : step s a = some t) :
    Agrees t ↔ Sound s a := by
  cases a with
  | update ms granted =>
    cases hs
    exact (h.update ms granted false).trans (and_iff_left nofun)
  | stop granted =>
    cases hs
    exact ((h.update notProfiling granted false).trans (and_iff_left nofun)).trans
      (iff_true_intro (fits_notProfiling s granted))
  | sampleRate rate switchOn granted =>
    cases hs
    unfold startProfiling Sound
    cases switchOn with
    | true =>
      by_cases hr : rate = dontChangeSampleRate
      · simp only [if_true, hr, ne_eq, not_true, if_false, bne_self_eq_false, Bool.and_false,
          false_implies, implies_true, iff_true]
        exact (h.keep false).mpr nofun
      · simp only [if_true, ne_eq, hr, not_false_eq_true, true_implies, Bool.true_and]
        rw [h.update]
        simp [hr]
    | false =>
      have hstop := (h.update notProfiling granted false).mpr
        ⟨fits_notProfiling s granted, nofun⟩
      simp only [Bool.false_eq_true, if_false, Bool.false_and, false_implies, iff_true]
      split
      · exact hstop
      · exact (h.keep false).mpr nofun
  | fork =>
    cases hs
    show Agrees ⟨s.currentProcessInterval, s.isProcessProfiling, 0, false⟩ ↔ _
    rw [h.flag_eq, agrees_iff, Sound, notProfiling_iff]
    constructor
    · intro hzero
      omega
    · intro hzero
      exact ⟨by omega, nofun⟩

/-- **The cache is what is armed**, and switching on at a rate arms the timer, if
and only if every step is sound. -/
theorem agrees_iff_sound (labels : List Label) :
    Along step Agrees init labels ↔ Steps step Sound init labels :=
  along_iff_steps (fun _ _ _ h hok hs => (h.next hs).mpr hok) (fun _ h => h)
    (fun _ _ _ h _ hs ht => (h.next hs).mp ht) ⟨rfl, by decide, nofun⟩

/-- The child is asked for the interval its parent had armed. -/
theorem child_left_unarmed :
    ¬ Along step Agrees init [.sampleRate 10 true true, .fork, .sampleRate 10 true true] := by
  refine not_along_of_run (List.prefix_refl _) rfl fun h => ?_
  exact h.on rfl rfl

end Opsian.Signals.SignalHandler
