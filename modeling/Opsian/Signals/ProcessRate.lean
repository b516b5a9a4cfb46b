import Mathlib.Data.UInt
import Opsian.Collector.EventLoop
import Opsian.Signals.SignalHandler

/-! # The process rate

`startProfiling` narrows the rate for the signal handler, whose answer it ignores, and
keeps the rate as it came for the interval it reports. -/
namespace Opsian.Signals.ProcessRate
open Opsian.Lib.Runs
open Opsian.Collector.EventLoop (Controller.keptRate)
open Opsian.Scanner.ProcScanner (dontChangeSampleRate)
open Opsian.Signals.SignalHandler (Accepted TimeVal timeVal toInt)

/-- The signal handler, and what the controller reports. -/
structure State where
  signalHandler : SignalHandler.State
  processTimeStackSampleIntervalMillis : UInt64
  deriving DecidableEq, Repr

def init : State := ⟨SignalHandler.init, 0⟩

/-- What `updateInterval` answers. -/
def updateInterval (s : SignalHandler.State) (ms : Int32) (granted : Bool) : Bool :=
  ms == s.currentProcessInterval || decide (Accepted ms granted)

def startProfiling (s : State) (rate : UInt64) (switchOn granted : Bool) : State where
  signalHandler := SignalHandler.startProfiling s.signalHandler rate switchOn granted
  processTimeStackSampleIntervalMillis :=
    Controller.keptRate rate s.processTimeStackSampleIntervalMillis switchOn

inductive Label where
  /-- A `SampleRate`, or the start in Prometheus mode. -/
  | startProfiling (rate : UInt64) (switchOn granted : Bool)
  /-- `onEnd`. -/
  | stop (granted : Bool)
  /-- The run goes on in the child, after its `on_fork`. -/
  | fork
  deriving DecidableEq, Repr

def step (s : State) : Label → Option State
  | .startProfiling rate switchOn granted => some (startProfiling s rate switchOn granted)
  | .stop granted =>
    some { s with signalHandler := SignalHandler.stopProcessProfiling s.signalHandler granted }
  | .fork => some ⟨{ s.signalHandler with itimerProf := 0 }, 0⟩

/-! ## A rate that is applied -/

def micros (tv : TimeVal) : Int := tv.tvSec * 1000000 + tv.tvUsec

/-- The timer has an interval that `updateInterval` has computed and `setitimer` takes. -/
def HasInterval (s : State) (interval : Int) : Prop :=
  ∃ ms, (timeVal ms).Valid ∧ micros (timeVal ms) = interval ∧ s.signalHandler.itimerProf = interval

structure Applied (t : State) (rate : UInt64) : Prop where
  interval : HasInterval t (rate.toNat * 1000)
  reported : t.processTimeStackSampleIntervalMillis = rate

structure Rejected (s t : State) (rate : UInt64) (granted : Bool) : Prop where
  refused : updateInterval s.signalHandler (toInt rate) granted = false
  itimerProf : t.signalHandler.itimerProf = s.signalHandler.itimerProf
  isProcessProfiling : t.signalHandler.isProcessProfiling = s.signalHandler.isProcessProfiling
  reported :
    t.processTimeStackSampleIntervalMillis = s.processTimeStackSampleIntervalMillis

/-- With process profiling on, a rate is applied and reported, or rejected. -/
def Consistent (s : State) : Label → Prop
  | .startProfiling rate true granted => rate ≠ dontChangeSampleRate →
    Applied (startProfiling s rate true granted) rate ∨
      Rejected s (startProfiling s rate true granted) rate granted
  | _ => True

/-- A rate that is narrowed to the cached interval is armed already, one that `setitimer`
takes fits the product, and one that it refuses is armed or reported already. -/
def Sound (s : State) : Label → Prop
  | .startProfiling rate true granted => rate ≠ dontChangeSampleRate →
    if toInt rate = s.signalHandler.currentProcessInterval then
      s.signalHandler.itimerProf = rate.toNat * 1000
    else if Accepted (toInt rate) granted then rate.toNat * 1000 < 2 ^ 31
    else s.signalHandler.itimerProf = rate.toNat * 1000 ∨
      s.processTimeStackSampleIntervalMillis = rate
  | _ => True

variable {s t : State} {rate : UInt64} {granted : Bool} {a : Label}

/-! ## The cast -/

theorem toInt_eq_bmod (rate : UInt64) : (toInt rate).toInt = (rate.toNat : Int).bmod (2 ^ 32) := by
  show (rate.toUInt32.toBitVec).toInt = _
  rw [BitVec.toInt_eq_toNat_bmod]
  show ((rate.toUInt32.toNat : Nat) : Int).bmod (2 ^ 32) = _
  rw [UInt64.toNat_toUInt32]
  rw [Int.natCast_emod]
  exact Int.emod_bmod _ (2 ^ 32)

/-- The interval that is armed is the rate itself exactly if the product does not overflow:
a rate that the cast has changed is too far from what is left of it. -/
theorem micros_eq_iff (h : (timeVal (toInt rate)).Valid) :
    micros (timeVal (toInt rate)) = rate.toNat * 1000 ↔ rate.toNat * 1000 < 2 ^ 31 := by
  have hexact := SignalHandler.timeVal_exact_iff h
  have hms := SignalHandler.toInt_nonneg h
  have hcast := toInt_eq_bmod rate
  obtain ⟨-, husec, hlt⟩ := h
  have hsec : (timeVal (toInt rate)).tvSec = (toInt rate).toInt / 1000 :=
    Int.tdiv_eq_ediv_of_nonneg hms
  rw [Int.bmod_def] at hcast
  unfold micros
  constructor
  · intro heq
    have hsame : (toInt rate).toInt = rate.toNat := by
      split at hcast <;> omega
    have hfits := hexact.mp (heq.trans (by rw [hsame]))
    omega
  · intro hfits
    have hsame : (toInt rate).toInt = rate.toNat := by
      split at hcast <;> omega
    rw [hexact.mpr (by omega), hsame]

/-! ## Each step -/

/-- At all times the timer has a valid interval. -/
def Valid (s : State) : Prop := HasInterval s s.signalHandler.itimerProf

theorem updateProcessInterval_itimerProf (s : SignalHandler.State) (ms : Int32) (granted : Bool) :
    (SignalHandler.updateProcessInterval s ms granted).itimerProf =
      if ms = s.currentProcessInterval then s.itimerProf
      else if Accepted ms granted then micros (timeVal ms) else s.itimerProf := by
  unfold SignalHandler.updateProcessInterval SignalHandler.armed micros
  split_ifs <;> rfl

theorem Valid.update (h : Valid s) (ms : Int32) (granted : Bool) (reported : UInt64) :
    Valid ⟨SignalHandler.updateProcessInterval s.signalHandler ms granted, reported⟩ := by
  unfold Valid HasInterval
  rw [updateProcessInterval_itimerProf]
  split_ifs with hms ha
  · exact h
  · exact ⟨ms, ha.2, rfl, rfl⟩
  · exact h

theorem Valid.next (h : Valid s) (hs : step s a = some t) : Valid t := by
  cases a with
  | startProfiling rate switchOn granted =>
    cases hs
    unfold startProfiling SignalHandler.startProfiling
    split_ifs
    · exact h.update ..
    · exact h
    · exact h.update ..
    · exact h
  | stop granted =>
    cases hs
    exact h.update ..
  | fork =>
    cases hs
    exact ⟨0, by decide, rfl, rfl⟩

theorem Valid.hasInterval_iff (h : Valid s) (interval : Int) :
    HasInterval s interval ↔ s.signalHandler.itimerProf = interval := by
  constructor
  · rintro ⟨-, -, -, hs⟩
    exact hs
  · rintro rfl
    exact h

theorem startProfiling_eq (hr : rate ≠ dontChangeSampleRate) (s : State) (granted : Bool) :
    startProfiling s rate true granted =
      ⟨SignalHandler.updateProcessInterval s.signalHandler (toInt rate) granted, rate⟩ := by
  unfold startProfiling SignalHandler.startProfiling Controller.keptRate
  rw [if_pos rfl, if_pos hr, Bool.true_and]
  exact congrArg _ (if_pos (bne_iff_ne.mpr hr))

/-- What a step does, against what its rate is. -/
theorem Valid.consistent_iff (h : Valid s) (hs : step s a = some t) :
    Consistent s a ↔ Sound s a := by
  cases a with
  | startProfiling rate switchOn granted =>
    cases switchOn with
    | false => exact Iff.rfl
    | true =>
      cases hs
      refine imp_congr_right fun hr => ?_
      have ht : Valid (startProfiling s rate true granted) :=
        h.next (a := .startProfiling rate true granted) rfl
      have happlied : Applied (startProfiling s rate true granted) rate ↔
          (startProfiling s rate true granted).signalHandler.itimerProf = rate.toNat * 1000 := by
        rw [← ht.hasInterval_iff]
        exact ⟨Applied.interval, fun hi => ⟨hi, by rw [startProfiling_eq hr]⟩⟩
      rw [happlied, startProfiling_eq hr, updateProcessInterval_itimerProf]
      by_cases hms : toInt rate = s.signalHandler.currentProcessInterval
      · rw [if_pos hms, if_pos hms]
        refine or_iff_left fun hrejected => ?_
        have hanswer := hrejected.refused
        simp [updateInterval, hms] at hanswer
      · rw [if_neg hms, if_neg hms]
        by_cases ha : Accepted (toInt rate) granted
        · rw [if_pos ha, if_pos ha, ← micros_eq_iff ha.2]
          refine or_iff_left fun hrejected => ?_
          have hanswer := hrejected.refused
          simp [updateInterval, ha] at hanswer
        · rw [if_neg ha, if_neg ha]
          refine or_congr_right ⟨fun hrejected => hrejected.reported.symm, fun heq => ?_⟩
          refine ⟨by simp [updateInterval, hms, ha], ?_, ?_, heq.symm⟩
          all_goals
            unfold SignalHandler.updateProcessInterval
            rw [if_neg hms, if_neg ha]
  | _ => exact Iff.rfl

theorem valid_init : Valid init := ⟨0, by decide, rfl, rfl⟩

/-- **Every rate is applied and reported, or rejected**, if and only if every rate of the
run is sound. -/
theorem consistent_iff_sound (labels : List Label) :
    Steps step Consistent init labels ↔ Steps step Sound init labels :=
  steps_congr (I := Valid) (fun _ _ _ h hs => h.next hs) (fun _ _ _ h hs => h.consistent_iff hs)
    valid_init

/-- The cast leaves 10 of this rate, which is armed and not what is reported. -/
theorem narrowed_rate : ¬ Steps step Consistent init [.startProfiling (2 ^ 32 + 10) true true] := by
  intro h
  have hsound := (valid_init.consistent_iff rfl).mp (h _ rfl).1
  exact absurd (hsound (by decide)) (by decide)

end Opsian.Signals.ProcessRate
