import Opsian.Collector.Transitions
import Opsian.Scanner.Scan
import Opsian.Signals.SignalHandler
import Opsian.Startup.Arguments

/-! # The end of the processor

`onEnd` stops the process timer and disconnects. It does not stop the scan of the
threads, and the event loop may still handle a message while the socket is closed. -/
namespace Opsian.Collector.Shutdown
open Opsian.Lib.Runs Opsian.Scanner
open Opsian.Collector.EventLoop (Controller Network)
open Opsian.Collector.Transitions (Transition step_transition)
open Opsian.Scanner.ProcScanner (DirEntry Thread dontChangeSampleRate isScanningThreads notScanning)
open Opsian.Scanner.Scan (Blank Scanning)
open Opsian.Signals
open Opsian.Signals.SignalHandler (Accepted notProfiling timeVal toInt)
open Opsian.Startup.Arguments (ConfigurationOptions)

/-- The processor thread with both its profilers. -/
structure State where
  loop : EventLoop.State
  signalHandler : SignalHandler.State
  scanner : ProcScanner.State

/-- `startProfiling`, where `setitimer` refuses nothing but an invalid interval. -/
def startProfiling (s : State) (processTimeStackSampleRateMillis elapsedTimeStackSampleRateMillis :
    UInt64) (switchProcessTimeProfilingOn switchElapsedTimeProfilingOn : Bool) : State :=
  { s with
    signalHandler := SignalHandler.startProfiling s.signalHandler processTimeStackSampleRateMillis
      switchProcessTimeProfilingOn true
    scanner := ProcScanner.startProfiling s.scanner elapsedTimeStackSampleRateMillis
      switchElapsedTimeProfilingOn }

/-- An `int` that is passed as a `uint64_t`. -/
def toUInt64 (rate : Int32) : UInt64 := rate.toInt64.toUInt64

/-- `Processor::run` up to its loop, in a process that has just begun or been forked. The
kernel's timer is off and nothing is scanned, but the rest may be a copy of the parent's. -/
def start (c : Controller) (network : Network) (handler : SignalHandler.State) (th : Thread)
    (prometheus : Bool) (options : ConfigurationOptions) : State :=
  let s : State :=
    { loop :=
        { controller := { c with state := if prometheus then .prometheusMode else .disconnected }
          network := network
          processorRunning := true
          place := .top
          todo := [] }
      signalHandler := { handler with itimerProf := 0 }
      scanner := ProcScanner.onProcessorThreadStart ProcScanner.init th }
  if prometheus then
    startProfiling s (toUInt64 options.prometheusProcessSampleRate)
      (toUInt64 options.prometheusElapsedSampleRate) true true
  else s

inductive Label where
  | loop (a : EventLoop.Label)
  | metricsStart (th : Thread)
  | scan (opened : Bool) (entries : List DirEntry)
  deriving DecidableEq, Repr

/-- What the thread's step does to the profilers. The loop ends with `onEnd`. -/
def profile (s : State) (loop : EventLoop.State) : EventLoop.Label → State
  | .onMessage (.sampleRate m) =>
    startProfiling { s with loop := loop } m.processTimeStackSampleRateMillis
      m.elapsedTimeStackSampleRateMillis m.switchProcessTimeProfilingOn
      m.switchElapsedTimeProfilingOn
  | .enter =>
    if loop.place = .ended then
      { s with
        loop := loop
        signalHandler := SignalHandler.stopProcessProfiling s.signalHandler true }
    else { s with loop := loop }
  | _ => { s with loop := loop }

def scannerStep (s : State) (a : ProcScanner.Label) : Option State :=
  (ProcScanner.step s.scanner a).map fun scanner => { s with scanner := scanner }

def step (s : State) : Label → Option State
  | .loop a => (EventLoop.step s.loop a).map fun loop => profile s loop a
  | .metricsStart th => scannerStep s (.metricsStart th)
  | .scan opened entries => scannerStep s (.scan opened entries)

/-- `Processor::run` has returned. -/
def Returned (s : State) : Prop := s.loop.place = .ended ∧ s.loop.todo = []

/-- Nothing samples, and behind the next scan no timer is armed. -/
structure Off (s : State) : Prop where
  process : s.signalHandler.itimerProf = 0
  elapsed : isScanningThreads s.scanner = false
  timers : ∀ opened entries t, step s (.scan opened entries) = some t →
    ∀ timer ∈ t.scanner.timers, timer.interval = 0

/-- No rate switches the scan on, and behind the stop of the process timer no rate arms it. -/
def Sound (s : State) : Label → Prop
  | .loop (.onMessage (.sampleRate m)) =>
    (m.switchElapsedTimeProfilingOn = true →
      m.elapsedTimeStackSampleRateMillis = dontChangeSampleRate) ∧
    (s.loop.place = .ended → m.switchProcessTimeProfilingOn = true →
      Accepted (toInt m.processTimeStackSampleRateMillis) true →
        toInt m.processTimeStackSampleRateMillis = notProfiling)
  | _ => True

variable {s t : State} {a : Label}

/-! ## The place -/

theorem onTimer_place (s : EventLoop.State) (timer : EventLoop.TimerId) :
    (s.onTimer timer).place = s.place := by
  cases timer <;> rfl

theorem onMessage_place (s : EventLoop.State) (m : EventLoop.Message) :
    (s.onMessage m).place = s.place := by
  cases m <;> rfl

/-- The loop ends at its head only. -/
theorem ended_of_step {s t : EventLoop.State} {a : EventLoop.Label}
    (hs : EventLoop.step s a = some t) (ht : t.place = .ended) : s.place = .ended ∨ a = .enter := by
  cases step_transition hs with
  | stop htop => exact .inr rfl
  | onTimer timer _ _ => exact .inl ((onTimer_place s timer).symm.trans ht)
  | onMessage m _ _ => exact .inl ((onMessage_place s m).symm.trans ht)
  | _ => first | exact .inl ht | cases ht

/-! ## The process timer -/

/-- A cache that says the timer is off is right. -/
def Settled (s : SignalHandler.State) : Prop :=
  s.currentProcessInterval = notProfiling → s.itimerProf = 0

theorem Settled.update {s : SignalHandler.State} (h : Settled s) (ms : Int32) :
    Settled (SignalHandler.updateProcessInterval s ms true) := by
  unfold SignalHandler.updateProcessInterval
  split_ifs
  · exact h
  · rintro rfl
    rfl
  · exact h

theorem stopProcessProfiling_off (s : SignalHandler.State) :
    (SignalHandler.stopProcessProfiling s true).currentProcessInterval = notProfiling := by
  unfold SignalHandler.stopProcessProfiling SignalHandler.updateProcessInterval
  split_ifs with hsame haccepted
  · exact hsame.symm
  · rfl
  · exact absurd (by decide) haccepted

theorem Settled.startProfiling {s : SignalHandler.State} (h : Settled s) (rate : UInt64)
    (switchOn : Bool) : Settled (SignalHandler.startProfiling s rate switchOn true) := by
  unfold SignalHandler.startProfiling
  split_ifs
  · exact h.update _
  · exact h
  · exact h.update _
  · exact h

/-- A rate that arms nothing leaves a timer off that was off. -/
theorem startProfiling_off {s : SignalHandler.State} {rate : UInt64} {switchOn : Bool}
    (h : s.currentProcessInterval = notProfiling)
    (hrate : switchOn = true → Accepted (toInt rate) true → toInt rate = notProfiling) :
    (SignalHandler.startProfiling s rate switchOn true).currentProcessInterval = notProfiling := by
  unfold SignalHandler.startProfiling
  split_ifs with hon
  · unfold SignalHandler.updateProcessInterval
    split_ifs with hsame haccepted
    · exact h
    · exact hrate hon haccepted
    · exact h
  · exact h
  · exact stopProcessProfiling_off s
  · exact h

/-! ## The invariant -/

structure Inv (s : State) : Prop where
  blank : Blank s.scanner
  quiet : s.scanner.atomicIntervalInNs = notScanning
  settled : Settled s.signalHandler
  ended : s.loop.place = .ended → s.signalHandler.currentProcessInterval = notProfiling

theorem not_isScanning {p : ProcScanner.State} (h : p.atomicIntervalInNs = notScanning) :
    isScanningThreads p = false := by
  rw [isScanningThreads, h]
  rfl

theorem startProfiling_quiet {p : ProcScanner.State} (h : p.atomicIntervalInNs = notScanning)
    {rate : UInt64} {switchOn : Bool} (hrate : switchOn = true → rate = dontChangeSampleRate) :
    ProcScanner.startProfiling p rate switchOn = p := by
  unfold ProcScanner.startProfiling
  cases switchOn with
  | true => rw [if_pos rfl, if_neg (not_not_intro (hrate rfl))]
  | false => rw [if_neg Bool.false_ne_true, not_isScanning h, if_neg Bool.false_ne_true]

theorem Inv.startProfiling (h : Inv s) {process elapsed : UInt64} {processOn elapsedOn : Bool}
    (helapsed : elapsedOn = true → elapsed = dontChangeSampleRate)
    (hprocess : s.loop.place = .ended → processOn = true → Accepted (toInt process) true →
      toInt process = notProfiling) :
    Inv (startProfiling s process elapsed processOn elapsedOn) := by
  unfold Shutdown.startProfiling
  rw [startProfiling_quiet h.quiet helapsed]
  exact ⟨h.blank, h.quiet, h.settled.startProfiling process processOn,
    fun hended => startProfiling_off (h.ended hended) (hprocess hended)⟩

/-- A step that leaves the profilers alone. -/
theorem Inv.keep (h : Inv s) {loop : EventLoop.State}
    (hplace : loop.place = .ended → s.loop.place = .ended) : Inv { s with loop := loop } :=
  ⟨h.blank, h.quiet, h.settled, fun hended => h.ended (hplace hended)⟩

theorem Inv.loop (h : Inv s) {a : EventLoop.Label} {loop : EventLoop.State}
    (hs : EventLoop.step s.loop a = some loop) (hok : Sound s (.loop a)) :
    Inv (profile s loop a) := by
  have hplace : a ≠ .enter → loop.place = .ended → s.loop.place = .ended :=
    fun hne hended => (ended_of_step hs hended).resolve_right hne
  cases a with
  | onMessage m =>
    have hkeep : Inv { s with loop := loop } := h.keep (hplace nofun)
    cases m with
    | sampleRate m =>
      exact hkeep.startProfiling hok.1 fun hended => hok.2 (hplace nofun hended)
    | _ => exact hkeep
  | enter =>
    unfold profile
    simp only
    split_ifs with hended
    · exact ⟨h.blank, h.quiet, h.settled.update notProfiling,
        fun _ => stopProcessProfiling_off s.signalHandler⟩
    · exact h.keep fun he => absurd he hended
  | _ => exact h.keep (hplace nofun)

/-- What was never asked to scan does not begin to. -/
theorem scan_quiet {p q : ProcScanner.State} (hb : Blank p)
    (hquiet : p.atomicIntervalInNs = notScanning) {opened : Bool} {entries : List DirEntry}
    (hs : ProcScanner.step p (.scan opened entries) = some q) :
    q.atomicIntervalInNs = notScanning ∧ q.timers = [] := by
  cases Scan.step_effect hb hs with
  | request _ v w _ ha => cases ha
  | skipped _ _ _ hlocal l w _ => exact ⟨hquiet, hb.timers hlocal⟩
  | unread _ hscanning => exact absurd hquiet hscanning.2.2
  | read _ hscanning => exact absurd hquiet hscanning.2.2

theorem Inv.next (h : Inv s) (hok : Sound s a) (hs : step s a = some t) : Inv t := by
  cases a with
  | loop a =>
    obtain ⟨loop, hloop, rfl⟩ := Option.map_eq_some_iff.mp hs
    exact h.loop hloop hok
  | metricsStart th =>
    obtain ⟨q, hq, rfl⟩ := Option.map_eq_some_iff.mp hs
    have hb := h.blank.next hq
    obtain ⟨-, hq⟩ := Option.ite_none_left_eq_some.mp hq
    cases hq
    exact ⟨hb, h.quiet, h.settled, h.ended⟩
  | scan opened entries =>
    obtain ⟨q, hq, rfl⟩ := Option.map_eq_some_iff.mp hs
    exact ⟨h.blank.next hq, (scan_quiet h.blank h.quiet hq).1, h.settled, h.ended⟩

theorem Inv.off (h : Inv s) (hs : Returned s) : Off s where
  process := h.settled (h.ended hs.1)
  elapsed := not_isScanning h.quiet
  timers := by
    intro opened entries t ht timer htimer
    obtain ⟨q, hq, rfl⟩ := Option.map_eq_some_iff.mp ht
    rw [(scan_quiet h.blank h.quiet hq).2] at htimer
    cases htimer

theorem start_inv (c : Controller) (network : Network) (handler : SignalHandler.State)
    (th : Thread) {prometheus : Bool} {options : ConfigurationOptions}
    (h : prometheus = true → options.prometheusElapsedSampleRate = 0) :
    Inv (start c network handler th prometheus options) := by
  have hb : Blank (ProcScanner.onProcessorThreadStart ProcScanner.init th) :=
    Scan.init_blank.next (a := .processorStart th) rfl
  unfold start
  cases prometheus with
  | true =>
    refine Inv.startProfiling ⟨hb, rfl, fun _ => rfl, fun hended => ?_⟩ (fun _ => ?_)
      fun hended => ?_
    · cases hended
    · rw [h rfl]
      rfl
    · cases hended
  | false =>
    refine ⟨hb, rfl, fun _ => rfl, ?_⟩
    intro hended
    cases hended

/-- **Nothing samples when the processor has returned**, whatever it has started with, if
no rate has switched the scan on and none has armed the timer behind its stop. -/
theorem off_of_sound (c : Controller) (network : Network) (handler : SignalHandler.State)
    (th : Thread) (prometheus : Bool) (options : ConfigurationOptions)
    (h : prometheus = true → options.prometheusElapsedSampleRate = 0) (labels : List Label)
    (hok : Steps step Sound (start c network handler th prometheus options) labels) :
    Along step (fun s => Returned s → Off s) (start c network handler th prometheus options)
      labels :=
  Along.mono (along_of_invariant (I := Inv) (fun _ _ _ hi hs ht => hi.next hs ht)
    (start_inv c network handler th h) hok) fun _ hi => hi.off

/-- A child whose parent profiled; the cache is a copy of the parent's. -/
def child : State :=
  start (EventLoop.construct false true) ⟨false, false, false, false, false, .idle⟩
    ⟨10, true, 0, false⟩ ⟨3, 0⟩ false (.init false)

def greeted : List Label :=
  ([.enter, .resolved true, .connected true, .run, .written .ok, .run, .run] :
    List EventLoop.Label).map .loop

/-- A rate of 20 ms for the process timer, and none for the scan. -/
def sampleRate : Label := .loop (.onMessage (.sampleRate ⟨20, 0, true, false, false, false, false⟩))

/-- The process exits, and the socket is drained. -/
def exited : List Label :=
  (List.replicate 5 .run ++ List.replicate 9 .idle ++
    [.exit, .run, .pop 0 none, .popped, .enter, .run, .run, .onReadError false, .idle, .run] :
      List EventLoop.Label).map .loop

theorem child_ends_off :
    (∃ s, run step child (greeted ++ [sampleRate]) = some s ∧ s.signalHandler.itimerProf = 20000) ∧
    (∃ s, run step child (greeted ++ sampleRate :: exited) = some s ∧ Returned s) ∧
    Along step (fun s => Returned s → Off s) child (greeted ++ sampleRate :: exited) := by
  have hgreeted : ∀ a ∈ greeted, ∀ s, Sound s a := by simp [greeted, Sound]
  have hexited : ∀ a ∈ exited, ∀ s, Sound s a := by simp [exited, Sound]
  have hsampled : ∃ s, run step child greeted = some s ∧ Sound s sampleRate ∧
      ∃ t, step s sampleRate = some t := ⟨_, rfl, ⟨nofun, nofun⟩, _, rfl⟩
  obtain ⟨s, hrun, hsound, t, hstep⟩ := hsampled
  have hok : Steps step Sound child (greeted ++ sampleRate :: exited) :=
    .append hrun (.of_labels hgreeted) (.cons hstep hsound (.of_labels hexited))
  exact ⟨⟨_, rfl, rfl⟩, ⟨_, rfl, rfl, rfl⟩, off_of_sound _ _ _ _ false _ nofun _ hok⟩

/-- The two labels after which the processor ends, and what is left to run. -/
def ending : List Label := [.loop .exit, .loop .enter, .loop .run, .loop .run]

/-- In Prometheus mode the threads are scanned by default, and go on being scanned. -/
theorem prometheus_scans_on : ¬ Along step (fun s => Returned s → Off s)
    (start (EventLoop.construct true true) ⟨false, false, false, false, false, .idle⟩
      SignalHandler.init ⟨3, 0⟩ true (.init false)) ending := by
  refine not_along_of_run (List.prefix_refl _) rfl fun h => ?_
  have helapsed := (h ⟨rfl, rfl⟩).elapsed
  exact absurd helapsed (by decide)

end Opsian.Collector.Shutdown
