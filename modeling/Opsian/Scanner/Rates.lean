import Mathlib.Algebra.Ring.Nat
import Opsian.Collector.EventLoop
import Opsian.Scanner.Scan

/-! # The elapsed rate

An interval is a number of nanoseconds up to `set_timer_interval`, which puts all of it
into `tv_nsec` and none of it into `tv_sec`. -/
namespace Opsian.Scanner.Rates
open Opsian.Lib.Runs Opsian.Scanner.ProcScanner Opsian.Scanner.Scan
open Opsian.Collector.EventLoop (Controller.keptRate)

/-- The scanner, and what the controller reports. -/
structure State where
  scanner : ProcScanner.State
  elapsedTimeStackSampleIntervalMillis : UInt64
  /-- What `update_scanning_threads_interval` was last called with. -/
  passed : Option UInt64
  deriving DecidableEq, Repr

def init : State := ⟨ProcScanner.init, 0, none⟩

inductive Label where
  | metricsStart (th : Thread)
  | processorStart (th : Thread)
  /-- `startProfiling`, for a `SampleRate` or at the start in Prometheus mode. -/
  | sampleRate (rate : UInt64) (switchOn : Bool)
  | scan (opened : Bool) (entries : List DirEntry)
  | fork
  deriving DecidableEq, Repr

def Label.call : Label → ProcScanner.Label
  | .metricsStart th => .metricsStart th
  | .processorStart th => .processorStart th
  | .sampleRate rate switchOn => .sampleRate rate switchOn
  | .scan opened entries => .scan opened entries
  | .fork => .fork

/-- To stop is to pass the sentinel. -/
def passedRate (s : State) (rate : UInt64) (switchOn : Bool) : Option UInt64 :=
  if switchOn then
    if rate ≠ dontChangeSampleRate then some rate else s.passed
  else if isScanningThreads s.scanner then some notScanning
  else s.passed

/-- The controller's part of a step. -/
def control (s : State) (a : Label) (scanner : ProcScanner.State) : State :=
  match a with
  | .sampleRate rate switchOn =>
    ⟨scanner, Controller.keptRate rate s.elapsedTimeStackSampleIntervalMillis switchOn,
      passedRate s rate switchOn⟩
  | .fork => ⟨scanner, 0, none⟩
  | _ => { s with scanner := scanner }

def step (s : State) (a : Label) : Option State :=
  (ProcScanner.step s.scanner a.call).map (control s a)

/-! ## What the timers are given -/

/-- Both fields of an `itimerspec`. -/
structure ITimerSpec where
  tvSec : Int
  tvNsec : Int
  deriving DecidableEq, Repr

/-- `set_timer_interval`. -/
def timerSpec (intervalNs : Int) : ITimerSpec := ⟨0, intervalNs⟩

def ITimerSpec.Valid (spec : ITimerSpec) : Prop :=
  0 ≤ spec.tvSec ∧ 0 ≤ spec.tvNsec ∧ spec.tvNsec < 1000000000

def ITimerSpec.nanos (spec : ITimerSpec) : Int := spec.tvSec * 1000000000 + spec.tvNsec

/-- The calls of `timer_settime` that `start_profiling_thread` leads to. -/
def startCalls (live : List Thread) (s : ProcScanner.State) (tid : Nat) : List ITimerSpec :=
  match timerCreate live tid with
  | none => []
  | some _ => [timerSpec s.localIntervalInNs.toInt64.toInt]

/-- Those of `on_interval_change`. -/
def changeCalls (live : List Thread) (s : ProcScanner.State) (atomicIntervalInNs : UInt64) :
    List ITimerSpec :=
  if atomicIntervalInNs = notScanning then []
  else if s.localIntervalInNs = notScanning then
    s.lastScanThreads.flatMap
      (startCalls live { s with localIntervalInNs := atomicIntervalInNs })
  else s.timers.map fun _ => timerSpec atomicIntervalInNs.toInt64.toInt

/-- Those of one round of the `readdir` loop. -/
def entryCalls (live : List Thread) (s : ProcScanner.State) : DirEntry → List ITimerSpec
  | .dot => []
  | .task th =>
    if th.tid = s.metricsThreadId ∨ th.tid = s.processorThreadId then []
    else if th.tid ∈ s.lastScanThreads then []
    else startCalls live s th.tid

/-- Those of `scan_threads`. -/
def scanCalls (s : ProcScanner.State) (opened : Bool) (entries : List DirEntry) :
    List ITimerSpec :=
  let live := threads entries
  if s.metricsThreadStarted && s.processorThreadStarted then
    let calls :=
      if s.atomicIntervalInNs ≠ s.localIntervalInNs then changeCalls live s s.atomicIntervalInNs
      else []
    let s := checkInterval live s
    if s.localIntervalInNs = notScanning then calls
    else if opened then calls ++ entries.flatMap (entryCalls live s)
    else calls
  else []

/-- A rate whose nanoseconds are a `long`. -/
def InDomain (rate : UInt64) : Prop := 0 < rate.toNat ∧ rate.toNat * 1000000 < 2 ^ 63

instance (rate : UInt64) : Decidable (InDomain rate) := inferInstanceAs (Decidable (_ ∧ _))

/-- Behind a scan the rate is what every timer was given and has, and what is reported. -/
structure InForce (s : State) (opened : Bool) (entries : List DirEntry) (rate : UInt64) :
    Prop where
  calls : ∀ spec ∈ scanCalls s.scanner opened entries,
    spec.Valid ∧ spec.nanos = rate.toNat * 1000000
  timers : ∀ timer ∈ (scanThreads s.scanner opened entries).timers,
    timer.interval = rate.toNat * 1000000
  reported : s.elapsedTimeStackSampleIntervalMillis = rate

def Encoded (s : State) : Label → Prop
  | .scan opened entries => ∀ rate, s.passed = some rate → InDomain rate →
    InForce s opened entries rate
  | _ => True

/-- The scan has a timer to arm, or one that is armed. -/
def Touches (s : ProcScanner.State) (opened : Bool) (entries : List DirEntry) : Prop :=
  Scanning s ∧ (s.timers ≠ [] ∨ opened = true ∧ ∃ th ∈ threads entries, fresh s th = true)

/-- A scan that touches a timer finds a rate below a second. -/
def Short (s : State) : Label → Prop
  | .scan opened entries => ∀ rate, s.passed = some rate → InDomain rate →
    Touches s.scanner opened entries → rate.toNat < 1000
  | _ => True

variable {s t : State} {p : ProcScanner.State} {a : Label} {rate : UInt64}

/-! ## What timers have -/

/-- An interval that `timer_settime` takes from `set_timer_interval`. -/
def Settable (intervalNs : Int) : Prop := 0 ≤ intervalNs ∧ intervalNs ≤ 999999999

instance (intervalNs : Int) : Decidable (Settable intervalNs) :=
  inferInstanceAs (Decidable (_ ∧ _))

theorem valid_timerSpec_iff {intervalNs : Int} :
    (timerSpec intervalNs).Valid ↔ Settable intervalNs := by
  simp only [ITimerSpec.Valid, timerSpec, Settable]
  omega

theorem settable_zero : Settable 0 := by decide

/-- An interval that can be set is the interval of all timers, and no other one ever is. -/
structure Armed (p : ProcScanner.State) : Prop where
  range : ∀ timer ∈ p.timers, Settable timer.interval
  same : Settable p.localIntervalInNs.toInt64.toInt →
    ∀ timer ∈ p.timers, timer.interval = p.localIntervalInNs.toInt64.toInt

theorem setTimerInterval_interval (intervalNs : Int) (timer : Timer) :
    (setTimerInterval intervalNs timer).interval =
      if 0 ≤ intervalNs ∧ intervalNs ≤ 999999999 then intervalNs else timer.interval := by
  unfold setTimerInterval
  split <;> rfl

theorem setTimerInterval_settable {intervalNs : Int} {timer : Timer}
    (h : Settable timer.interval) : Settable (setTimerInterval intervalNs timer).interval := by
  rw [setTimerInterval_interval]
  split
  · assumption
  · exact h

/-- Nothing else of the scanner counts. -/
theorem Armed.of_eq {q : ProcScanner.State} (h : Armed p) (ht : q.timers = p.timers)
    (hl : q.localIntervalInNs = p.localIntervalInNs) : Armed q := by
  constructor
  · rw [ht]
    exact h.range
  · rw [ht, hl]
    exact h.same

theorem Armed.of_nil (h : p.timers = []) : Armed p := by
  constructor <;> simp [h]

/-- The timers have all been set anew. -/
theorem Armed.set (h : ∀ timer ∈ p.timers, Settable timer.interval) (v : UInt64) :
    Armed { p with
      localIntervalInNs := v
      timers := p.timers.map (setTimerInterval v.toInt64.toInt) } := by
  constructor
  · intro timer ht
    obtain ⟨old, hold, rfl⟩ := List.mem_map.mp ht
    exact setTimerInterval_settable (h old hold)
  · intro hv timer ht
    obtain ⟨old, -, rfl⟩ := List.mem_map.mp ht
    exact (setTimerInterval_interval ..).trans (if_pos hv)

theorem Armed.start (h : Armed p) (live : List Thread) (tid : Nat) :
    Armed (startProfilingThread live p tid) := by
  unfold startProfilingThread startTimer
  split
  · exact h
  · constructor
    · intro timer ht
      rcases List.mem_append.mp ht with hold | hnew
      · exact h.range timer hold
      · rw [List.mem_singleton.mp hnew]
        refine setTimerInterval_settable ?_
        exact settable_zero
    · intro hv timer ht
      rcases List.mem_append.mp ht with hold | hnew
      · exact h.same hv timer hold
      · rw [List.mem_singleton.mp hnew, setTimerInterval_interval]
        exact if_pos hv

theorem Armed.readEntries (h : Armed p) (live : List Thread) (entries : List DirEntry)
    (cur : List Nat) : Armed (entries.foldl (readEntry live) (p, cur)).1 := by
  induction entries generalizing p cur with
  | nil => exact h
  | cons entry entries ih =>
    cases entry with
    | dot => exact ih h cur
    | task th =>
      rw [List.foldl_cons, readEntry_task]
      split_ifs
      · exact ih h _
      · exact ih h _
      · exact ih (h.start live th.tid) _

theorem Armed.checkInterval (h : Armed p) (hb : Blank p) (live : List Thread) :
    Armed (checkInterval live p) := by
  unfold ProcScanner.checkInterval onIntervalChange
  simp only
  split_ifs with hne hstop hold
  · exact .of_nil rfl
  · rw [hb.threads hold]
    exact .of_nil (hb.timers hold)
  · exact Armed.set h.range p.atomicIntervalInNs
  · exact h

theorem Armed.scan (h : Armed p) (hb : Blank p) (opened : Bool) (entries : List DirEntry) :
    Armed (scanThreads p opened entries) := by
  unfold scanThreads
  have hcheck := h.checkInterval hb (threads entries)
  simp only
  split_ifs
  · exact hcheck.of_eq rfl rfl
  · have hread := Armed.readEntries
      (p := { ProcScanner.checkInterval (threads entries) p with
        live := threads entries, lastScan := some p.wanted })
      (hcheck.of_eq rfl rfl) (threads entries) entries []
    exact hread.of_eq rfl rfl
  · exact hcheck.of_eq rfl rfl
  · exact h

/-! ## What timers are given -/

theorem startCalls_eq {live : List Thread} {tid : Nat} {spec : ITimerSpec}
    (h : spec ∈ startCalls live p tid) : spec = timerSpec p.localIntervalInNs.toInt64.toInt := by
  unfold startCalls at h
  split at h
  · cases h
  · exact List.mem_singleton.mp h

theorem changeCalls_eq (hb : Blank p) {live : List Thread} {v : UInt64} {spec : ITimerSpec}
    (h : spec ∈ changeCalls live p v) :
    v ≠ notScanning ∧ spec = timerSpec v.toInt64.toInt ∧ p.timers ≠ [] := by
  unfold changeCalls at h
  split_ifs at h with hstop hold
  · cases h
  · rw [hb.threads hold] at h
    cases h
  · obtain ⟨timer, ht, rfl⟩ := List.mem_map.mp h
    exact ⟨hstop, rfl, List.ne_nil_of_mem ht⟩

theorem entryCalls_eq {live : List Thread} {entries : List DirEntry} {spec : ITimerSpec}
    (h : spec ∈ entries.flatMap (entryCalls live p)) :
    spec = timerSpec p.localIntervalInNs.toInt64.toInt ∧
      ∃ th ∈ threads entries, fresh p th = true := by
  obtain ⟨entry, hentry, hspec⟩ := List.mem_flatMap.mp h
  cases entry with
  | dot => cases hspec
  | task th =>
    unfold entryCalls at hspec
    simp only at hspec
    split_ifs at hspec with hagent hlast
    · cases hspec
    · cases hspec
    · refine ⟨startCalls_eq hspec, th, List.mem_filterMap.mpr ⟨_, hentry, rfl⟩, ?_⟩
      simp [fresh, AgentId, hagent, hlast]

/-- Whatever a scan gives to a timer is the word's interval, and then it touches one. -/
theorem scanCalls_eq (hb : Blank p) {opened : Bool} {entries : List DirEntry} {spec : ITimerSpec}
    (h : spec ∈ scanCalls p opened entries) :
    spec = timerSpec p.atomicIntervalInNs.toInt64.toInt ∧ Touches p opened entries := by
  unfold scanCalls at h
  simp only at h
  by_cases hstarted : (p.metricsThreadStarted && p.processorThreadStarted) = true
  · obtain ⟨hm, hp⟩ := Bool.and_eq_true_iff.mp hstarted
    rw [if_pos hstarted] at h
    by_cases hs : p.atomicIntervalInNs = notScanning
    · have hlocal := hb.quiet hs
      simp [hs, hlocal, checkInterval] at h
    · obtain ⟨ts, hts, hc⟩ := checkInterval_eq hb hs (threads entries)
      have hchange : ∀ spec ∈ (if p.atomicIntervalInNs ≠ p.localIntervalInNs then
          changeCalls (threads entries) p p.atomicIntervalInNs else []),
          spec = timerSpec p.atomicIntervalInNs.toInt64.toInt ∧ Touches p opened entries := by
        intro spec hspec
        split_ifs at hspec
        · obtain ⟨-, rfl, hne⟩ := changeCalls_eq hb hspec
          exact ⟨rfl, ⟨hm, hp, hs⟩, .inl hne⟩
        · cases hspec
      rw [hc] at h
      simp only [if_neg hs] at h
      cases opened with
      | false => exact hchange spec h
      | true =>
        rcases List.mem_append.mp h with hspec | hspec
        · exact hchange spec hspec
        · obtain ⟨rfl, th, hth, hfresh⟩ := entryCalls_eq hspec
          exact ⟨rfl, ⟨hm, hp, hs⟩, .inr ⟨rfl, th, hth, hfresh⟩⟩
  · rw [if_neg hstarted] at h
    cases h

/-- A scan that touches no timer leaves none, and any other one leaves some at the word. -/
theorem timers_scan (hb : Blank p) {opened : Bool} {entries : List DirEntry}
    (hn : ((threads entries).map Thread.tid).Nodup) :
    ((scanThreads p opened entries).timers ≠ [] ↔ Touches p opened entries) ∧
      (Touches p opened entries →
        (scanThreads p opened entries).localIntervalInNs = p.atomicIntervalInNs) := by
  unfold Touches
  generalize hq : scanThreads p opened entries = q
  have heffect : Effect p (.scan opened entries) q := hq ▸ scan_effect hb hn
  cases heffect with
  | request _ v w _ ha => cases ha
  | skipped _ _ hno hlocal l w hw =>
    exact ⟨iff_of_false (fun hne => hne (hb.timers hlocal)) fun h => hno h.1,
      fun h => absurd h.1 hno⟩
  | unread _ hsc ts hts =>
    refine ⟨?_, fun _ => rfl⟩
    rw [ne_eq, ← List.map_eq_nil_iff (f := Timer.thread), hts]
    simp [hsc]
  | read _ hsc hn ts n cur hts hcur =>
    refine ⟨?_, fun _ => rfl⟩
    rw [ne_eq, ← List.map_eq_nil_iff (f := Timer.thread), hts]
    simp [hsc, Classical.or_iff_not_imp_left]

/-! ## Each step -/

structure Inv (s : State) : Prop where
  blank : Blank s.scanner
  word : ∀ rate, s.passed = some rate → s.scanner.atomicIntervalInNs = rate * msToNs
  reported : ∀ rate, s.passed = some rate → rate ≠ notScanning →
    s.elapsedTimeStackSampleIntervalMillis = rate
  armed : Armed s.scanner

theorem init_inv : Inv init := ⟨init_blank, nofun, nofun, .of_nil rfl⟩

/-- A request changes the word, and what is reported. -/
theorem Inv.request (h : Inv s) {v reported : UInt64} {w : Bool} {passed : Option UInt64}
    (hb : Blank { s.scanner with atomicIntervalInNs := v, wanted := w })
    (hword : ∀ rate, passed = some rate → v = rate * msToNs)
    (hreported : ∀ rate, passed = some rate → rate ≠ notScanning → reported = rate) :
    Inv ⟨{ s.scanner with atomicIntervalInNs := v, wanted := w }, reported, passed⟩ :=
  ⟨hb, hword, hreported, h.armed.of_eq rfl rfl⟩

theorem Inv.sampleRate (h : Inv s) {rate : UInt64} {switchOn : Bool}
    (hs : step s (.sampleRate rate switchOn) = some t) : Inv t := by
  obtain ⟨q, hq, rfl⟩ := Option.map_eq_some_iff.mp hs
  have hb := h.blank.next hq
  cases hq
  unfold startProfiling at hb
  unfold control Controller.keptRate passedRate startProfiling
  cases switchOn with
  | true =>
    by_cases hr : rate = dontChangeSampleRate
    · have hsame : (rate != Collector.EventLoop.dontChangeSampleRate) = false :=
        bne_eq_false_iff_eq.mpr hr
      simp only [if_true, if_neg (not_not_intro hr), hsame, Bool.and_false,
        Bool.false_eq_true, if_false] at hb ⊢
      exact h.request hb h.word h.reported
    · have hne : (rate != Collector.EventLoop.dontChangeSampleRate) = true := bne_iff_ne.mpr hr
      simp only [if_true, if_pos hr, hne, Bool.and_true, updateScanningThreadsInterval] at hb ⊢
      refine h.request hb (fun r hp => ?_) fun r hp _ => Option.some.inj hp
      rw [Option.some.inj hp]
  | false =>
    simp only [Bool.false_eq_true, if_false, Bool.false_and] at hb ⊢
    by_cases hscan : isScanningThreads s.scanner = true
    · simp only [if_pos hscan, stopScanningThreads, updateScanningThreadsInterval] at hb ⊢
      refine h.request hb (fun r hp => ?_) fun r hp hne => ?_
      · rw [Option.some.inj hp]
      · exact absurd (Option.some.inj hp).symm hne
    · simp only [if_neg hscan] at hb ⊢
      exact h.request hb h.word h.reported

/-- A scan leaves the word to the processor thread. -/
theorem scanThreads_word (hb : Blank p) {opened : Bool} {entries : List DirEntry}
    (hn : ((threads entries).map Thread.tid).Nodup) :
    (scanThreads p opened entries).atomicIntervalInNs = p.atomicIntervalInNs := by
  generalize hq : scanThreads p opened entries = q
  have heffect : Effect p (.scan opened entries) q := hq ▸ scan_effect hb hn
  cases heffect with
  | request _ v w _ ha => cases ha
  | _ => rfl

theorem Inv.next (h : Inv s) (hs : step s a = some t) : Inv t := by
  cases a with
  | sampleRate rate switchOn => exact h.sampleRate hs
  | metricsStart th =>
    obtain ⟨q, hq, rfl⟩ := Option.map_eq_some_iff.mp hs
    have hb := h.blank.next hq
    obtain ⟨-, hq⟩ := Option.ite_none_left_eq_some.mp hq
    cases hq
    exact ⟨hb, h.word, h.reported, h.armed.of_eq rfl rfl⟩
  | processorStart th =>
    obtain ⟨q, hq, rfl⟩ := Option.map_eq_some_iff.mp hs
    have hb := h.blank.next hq
    obtain ⟨-, hq⟩ := Option.ite_none_left_eq_some.mp hq
    cases hq
    exact ⟨hb, h.word, h.reported, h.armed.of_eq rfl rfl⟩
  | scan opened entries =>
    obtain ⟨q, hq, rfl⟩ := Option.map_eq_some_iff.mp hs
    have hb := h.blank.next hq
    obtain ⟨hn, rfl⟩ := Option.ite_some_none_eq_some.mp hq
    exact ⟨hb, fun rate hp => (scanThreads_word h.blank hn).trans (h.word rate hp), h.reported,
      h.armed.scan h.blank opened entries⟩
  | fork =>
    cases hs
    exact init_inv

theorem toInt_mul_msToNs (h : InDomain rate) :
    (rate * msToNs).toInt64.toInt = rate.toNat * 1000000 := by
  show (rate * msToNs).toBitVec.toInt = _
  rw [BitVec.toInt_eq_toNat_bmod]
  show (((rate * msToNs).toNat : Nat) : Int).bmod (2 ^ 64) = _
  have hmul : (rate * msToNs).toNat = rate.toNat * 1000000 := by
    rw [UInt64.toNat_mul]
    exact Nat.mod_eq_of_lt (Nat.lt_trans h.2 (by decide))
  have hlt := h.2
  rw [hmul, Int.bmod_eq_of_le (by omega) (by omega)]
  omega

theorem InDomain.ne_notScanning (h : InDomain rate) : rate ≠ notScanning := by
  rintro rfl
  exact absurd h.2 (by decide)

/-- What a scan does with a rate, against what it is. -/
theorem Inv.encoded_iff (h : Inv s) (hs : step s a = some t) : Encoded s a ↔ Short s a := by
  cases a with
  | scan opened entries =>
    obtain ⟨q, hq, -⟩ := Option.map_eq_some_iff.mp hs
    obtain ⟨hn, rfl⟩ := Option.ite_some_none_eq_some.mp hq
    obtain ⟨htouched, hlocal⟩ := @timers_scan _ h.blank opened _ hn
    have harmed := h.armed.scan h.blank opened entries
    refine forall_congr' fun rate => imp_congr_right fun hp => imp_congr_right fun hdomain => ?_
    have hword := h.word rate hp
    have hns := toInt_mul_msToNs hdomain
    constructor
    · intro hforce htouch
      obtain ⟨timer, ht⟩ := List.exists_mem_of_ne_nil _ (htouched.mpr htouch)
      have hrange := (harmed.range timer ht).2
      rw [hforce.timers timer ht] at hrange
      omega
    · intro hshort
      have hsettable : Touches s.scanner opened entries → Settable (rate.toNat * 1000000) := by
        intro htouch
        have hlt := hshort htouch
        unfold Settable
        omega
      refine ⟨?_, ?_, h.reported rate hp hdomain.ne_notScanning⟩
      · intro spec hspec
        obtain ⟨rfl, htouch⟩ := scanCalls_eq h.blank hspec
        rw [hword, hns]
        refine ⟨valid_timerSpec_iff.mpr (hsettable htouch), ?_⟩
        simp [ITimerSpec.nanos, timerSpec]
      · intro timer ht
        have htouch := htouched.mp (List.ne_nil_of_mem ht)
        have hsame := harmed.same
        rw [hlocal htouch, hword, hns] at hsame
        exact hsame (hsettable htouch) timer ht
  | _ => exact Iff.rfl

/-- **An elapsed rate is a valid timer**, which every timer is given and has behind the
scan, if and only if it is below a second wherever the scan touches a timer. -/
theorem encoded_iff_short (labels : List Label) :
    Steps step Encoded init labels ↔ Steps step Short init labels :=
  steps_congr (I := Inv) (fun _ _ _ h hs => h.next hs) (fun _ _ _ h hs => h.encoded_iff hs)
    init_inv

/-- Both agents have started, and a second is asked for. -/
def everySecond : List Label :=
  [.metricsStart ⟨2, 0⟩, .processorStart ⟨3, 0⟩, .sampleRate 1000 true]

/-- A second is no number of nanoseconds. -/
theorem whole_second : ¬ Steps step Encoded init
    (everySecond ++ [.scan true [.task ⟨1, 0⟩, .task ⟨2, 0⟩, .task ⟨3, 0⟩]]) := by
  refine not_steps_of_run rfl rfl fun h => ?_
  have hforce : InForce _ _ _ 1000 := h 1000 rfl (by decide)
  have hcall := hforce.calls (timerSpec 1000000000) (by decide)
  exact absurd (valid_timerSpec_iff.mp hcall.1) (by decide)

end Opsian.Scanner.Rates
