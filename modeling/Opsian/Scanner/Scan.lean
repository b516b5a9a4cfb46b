import Mathlib.Data.List.Nodup
import Opsian.Scanner.ProcScanner

/-! # What one step of the scanner does

A request is never the sentinel, not even the one to stop, so what the scanner
knows is blank until the first scan and the interval is never given up again. A
scan therefore either leaves all timers as they are but for their interval, or
adds one for each new thread. -/
namespace Opsian.Scanner.Scan
open Opsian.Lib.Runs Opsian.Scanner.ProcScanner

/-- A scan now gets past the started checks and is asked to scan. -/
def Scanning (s : State) : Prop :=
  s.metricsThreadStarted = true ∧ s.processorThreadStarted = true ∧
    s.atomicIntervalInNs ≠ notScanning

def AgentId (s : State) (tid : Nat) : Prop :=
  tid = s.metricsThreadId ∨ tid = s.processorThreadId

instance (s : State) (tid : Nat) : Decidable (AgentId s tid) :=
  inferInstanceAs (Decidable (_ ∨ _))

theorem threads_cons_task (th : Thread) (entries : List DirEntry) :
    threads (.task th :: entries) = th :: threads entries := rfl

theorem timerCreate_of_mem {live : List Thread} {th : Thread}
    (hn : (live.map Thread.tid).Nodup) (h : th ∈ live) : timerCreate live th.tid = some th := by
  unfold timerCreate
  rcases hf : live.find? fun u => u.tid == th.tid with _ | u
  · have := List.find?_eq_none.mp hf th h
    simp at this
  · have hu : u.tid = th.tid := by simpa using List.find?_some hf
    rw [hf, List.inj_on_of_nodup_map hn (List.mem_of_find?_eq_some hf) h hu]

@[simp] theorem setTimerInterval_thread (ns : Int) (timer : Timer) :
    (setTimerInterval ns timer).thread = timer.thread := by
  unfold setTimerInterval
  split <;> rfl

theorem startProfilingThread_eq {live : List Thread} {tid : Nat} {th : Thread}
    (s : State) (h : timerCreate live tid = some th) :
    ∃ timer : Timer, timer.thread = th ∧ startProfilingThread live s tid =
      { s with timers := s.timers ++ [timer], nextTimer := s.nextTimer + 1 } := by
  refine ⟨setTimerInterval s.localIntervalInNs.toInt64.toInt ⟨s.nextTimer, th, 0⟩, ?_, ?_⟩
  · simp
  · simp [startProfilingThread, startTimer, h]

/-- The threads a scan starts a timer for. -/
def fresh (s : State) (th : Thread) : Bool :=
  ¬ AgentId s th.tid ∧ th.tid ∉ s.lastScanThreads

theorem readEntry_task (live : List Thread) (s : State) (cur : List Nat) (th : Thread) :
    readEntry live (s, cur) (.task th) =
      if AgentId s th.tid then (s, cur)
      else if th.tid ∈ s.lastScanThreads then (s, cur.insert th.tid)
      else (startProfilingThread live s th.tid, cur.insert th.tid) := rfl

theorem readEntries_eq {live : List Thread} {entries : List DirEntry}
    (hc : ∀ th ∈ threads entries, timerCreate live th.tid = some th) (s : State) (cur : List Nat) :
    ∃ ts n cur', entries.foldl (readEntry live) (s, cur) =
        ({ s with timers := s.timers ++ ts, nextTimer := n }, cur') ∧
      ts.map Timer.thread = (threads entries).filter (fresh s) ∧
      ∀ tid, tid ∈ cur' ↔
        tid ∈ cur ∨ ∃ th ∈ threads entries, ¬ AgentId s th.tid ∧ th.tid = tid := by
  induction entries generalizing s cur with
  | nil => exact ⟨[], s.nextTimer, cur, by simp, rfl, by simp [threads]⟩
  | cons e entries ih =>
    cases e with
    | dot => exact ih hc s cur
    | task th =>
      rw [threads_cons_task] at hc ⊢
      have hcs := fun u hu => hc u (List.mem_cons_of_mem _ hu)
      have hth := hc th List.mem_cons_self
      by_cases ha : AgentId s th.tid
      · obtain ⟨ts, n, cur', he, hts, hcur⟩ := ih hcs s cur
        refine ⟨ts, n, cur', ?_, by simpa [fresh, ha] using hts, by simpa [ha] using hcur⟩
        rw [List.foldl_cons, readEntry_task, if_pos ha, he]
      · by_cases hl : th.tid ∈ s.lastScanThreads
        · obtain ⟨ts, n, cur', he, hts, hcur⟩ := ih hcs s (cur.insert th.tid)
          refine ⟨ts, n, cur', ?_, by simpa [fresh, hl] using hts, fun tid => ?_⟩
          · rw [List.foldl_cons, readEntry_task, if_neg ha, if_pos hl, he]
          · rw [hcur, List.mem_insert_iff]
            simp [ha, or_assoc, or_left_comm, eq_comm]
        · obtain ⟨timer, htimer, hstart⟩ := startProfilingThread_eq s hth
          obtain ⟨ts, n, cur', he, hts, hcur⟩ := ih hcs
            { s with timers := s.timers ++ [timer], nextTimer := s.nextTimer + 1 }
            (cur.insert th.tid)
          refine ⟨timer :: ts, n, cur', ?_, ?_, fun tid => ?_⟩
          · rw [List.foldl_cons, readEntry_task, if_neg ha, if_neg hl, hstart, he]
            simp
          · have hf : fresh s th = true := by simp [fresh, ha, hl]
            rw [List.map_cons, hts, htimer, List.filter_cons_of_pos hf]
            rfl
          · rw [hcur, List.mem_insert_iff]
            change _ ∨ (∃ u ∈ threads entries, ¬ AgentId s u.tid ∧ _) ↔ _
            simp [ha, or_assoc, or_left_comm, eq_comm]

/-! ## Requests -/

/-- A multiple of a million is even, the sentinel is not. -/
theorem mul_msToNs_ne (ms : UInt64) : ms * msToNs ≠ notScanning := by
  intro h
  have hm : ms.toNat * 1000000 % 2 ^ 64 = 2 ^ 64 - 1 := by
    simpa [msToNs, notScanning, UInt64.toNat_mul] using congrArg UInt64.toNat h
  omega

/-- Whatever is asked for, the word for the metrics thread is all that changes. -/
theorem startProfiling_eq (s : State) (rate : UInt64) (switchOn : Bool) :
    ∃ v, (v = s.atomicIntervalInNs ∨ v ≠ notScanning) ∧
      startProfiling s rate switchOn = { s with atomicIntervalInNs := v } := by
  unfold startProfiling
  split
  · split
    · exact ⟨_, Or.inr (mul_msToNs_ne rate), rfl⟩
    · exact ⟨_, Or.inl rfl, rfl⟩
  · split
    · exact ⟨_, Or.inr (mul_msToNs_ne notScanning), rfl⟩
    · exact ⟨_, Or.inl rfl, rfl⟩

/-! ## The steps -/

/-- Nothing is known to the scanner before its first interval. -/
structure Blank (s : State) : Prop where
  quiet : s.atomicIntervalInNs = notScanning → s.localIntervalInNs = notScanning
  started : s.localIntervalInNs ≠ notScanning →
    s.metricsThreadStarted = true ∧ s.processorThreadStarted = true
  threads : s.localIntervalInNs = notScanning → s.lastScanThreads = []
  timers : s.localIntervalInNs = notScanning → s.timers = []
  listing : s.localIntervalInNs = notScanning → s.listing = []

theorem checkInterval_eq {s : State} (hb : Blank s) (hs : s.atomicIntervalInNs ≠ notScanning)
    (live : List Thread) : ∃ ts, ts.map Timer.thread = s.timers.map Timer.thread ∧
      checkInterval live s =
        { s with timers := ts, localIntervalInNs := s.atomicIntervalInNs } := by
  unfold checkInterval onIntervalChange
  by_cases h : s.atomicIntervalInNs = s.localIntervalInNs
  · refine ⟨s.timers, rfl, ?_⟩
    rw [if_neg (not_not.mpr h)]
    exact (congrArg (fun v => { s with localIntervalInNs := v }) h).symm
  · rw [if_pos h]
    simp only [if_neg hs]
    by_cases hl : s.localIntervalInNs = notScanning
    · refine ⟨s.timers, rfl, ?_⟩
      rw [if_pos hl, hb.threads hl]
      simp
    · refine ⟨_, ?_, if_neg hl⟩
      simp

/-- The labels of the processor thread's requests. -/
def isRequest : Label → Bool
  | .update _ | .stop | .sampleRate _ _ => true
  | _ => false

/-- What a step has done to the state. -/
inductive Effect (s : State) : Label → State → Prop where
  | metricsStart (th : Thread) (h : s.metricsThreadStarted = false) :
      Effect s (.metricsStart th) (onMetricsThreadStart s th)
  | processorStart (th : Thread) (h : s.processorThreadStarted = false) :
      Effect s (.processorStart th) (onProcessorThreadStart s th)
  | request (a : Label) (v : UInt64) (w : Bool)
      (hv : v = s.atomicIntervalInNs ∨ v ≠ notScanning) (ha : isRequest a = true) :
      Effect s a { s with atomicIntervalInNs := v, wanted := w }
  | skipped (opened : Bool) (entries : List DirEntry) (h : ¬ Scanning s)
      (hl : s.localIntervalInNs = notScanning) (l : List Thread) (w : Option Bool)
      (hw : w = s.lastScan ∨ s.atomicIntervalInNs = notScanning ∧ w = some s.wanted) :
      Effect s (.scan opened entries) { s with live := l, lastScan := w }
  | unread (entries : List DirEntry) (h : Scanning s) (ts : List Timer)
      (hts : ts.map Timer.thread = s.timers.map Timer.thread) :
      Effect s (.scan false entries)
        { s with
          timers := ts
          localIntervalInNs := s.atomicIntervalInNs
          live := threads entries
          lastScan := some s.wanted }
  | read (entries : List DirEntry) (h : Scanning s)
      (hn : ((threads entries).map Thread.tid).Nodup) (ts : List Timer) (n : Nat) (cur : List Nat)
      (hts : ts.map Timer.thread =
        s.timers.map Timer.thread ++ (threads entries).filter (fresh s))
      (hcur : ∀ tid, tid ∈ cur ↔ ∃ th ∈ threads entries, ¬ AgentId s th.tid ∧ th.tid = tid) :
      Effect s (.scan true entries)
        { s with
          lastScanThreads := cur
          timers := ts
          localIntervalInNs := s.atomicIntervalInNs
          nextTimer := n
          listing := threads entries
          live := threads entries
          lastScan := some s.wanted }
  | fork : Effect s .fork init

theorem scan_effect {s : State} (hb : Blank s) {opened : Bool} {entries : List DirEntry}
    (hn : ((threads entries).map Thread.tid).Nodup) :
    Effect s (.scan opened entries) (scanThreads s opened entries) := by
  unfold scanThreads
  by_cases hst : (s.metricsThreadStarted && s.processorThreadStarted) = true
  · rw [if_pos hst]
    by_cases hs : s.atomicIntervalInNs = notScanning
    · have hl := hb.quiet hs
      have hc : checkInterval (threads entries) s = s := by simp [checkInterval, hs, hl]
      simp only [hc, if_pos hl]
      exact .skipped opened entries (fun h => h.2.2 hs) hl _ _ (Or.inr ⟨hs, rfl⟩)
    · have hsc : Scanning s := by simpa [Scanning, hs] using hst
      obtain ⟨ts, hts, hc⟩ := checkInterval_eq hb hs (threads entries)
      simp only [hc, if_neg hs]
      cases opened with
      | false => exact .unread entries hsc ts hts
      | true =>
        obtain ⟨us, n, cur, he, hus, hcur⟩ := readEntries_eq
          (fun th => timerCreate_of_mem hn)
          { s with
            timers := ts
            localIntervalInNs := s.atomicIntervalInNs
            live := threads entries
            lastScan := some s.wanted } []
        simp only [he]
        refine .read entries hsc hn (ts ++ us) n cur ?_ fun tid => ?_
        · rw [List.map_append, hts, hus]
          rfl
        · simpa [AgentId] using hcur tid
  · rw [if_neg hst]
    have hl : s.localIntervalInNs = notScanning := by
      by_contra h
      exact hst (by simp [hb.started h])
    have hsc : ¬ Scanning s := fun h => hst (by simp [h.1, h.2.1])
    exact .skipped opened entries hsc hl s.live s.lastScan (Or.inl rfl)

theorem step_effect {s t : State} {a : Label} (hb : Blank s) (h : step s a = some t) :
    Effect s a t := by
  cases a with
  | metricsStart th =>
    by_cases hm : s.metricsThreadStarted = true
    · simp [step, hm] at h
    · rw [← Option.some.inj ((if_neg hm).symm.trans h)]
      exact .metricsStart th (by simpa using hm)
  | processorStart th =>
    by_cases hm : s.processorThreadStarted = true
    · simp [step, hm] at h
    · rw [← Option.some.inj ((if_neg hm).symm.trans h)]
      exact .processorStart th (by simpa using hm)
  | update ms =>
    rw [← Option.some.inj h, updateScanningThreadsInterval]
    exact .request _ (ms * msToNs) true (Or.inr (mul_msToNs_ne ms)) rfl
  | stop =>
    rw [← Option.some.inj h, stopScanningThreads, updateScanningThreadsInterval]
    exact .request _ (notScanning * msToNs) false (Or.inr (mul_msToNs_ne notScanning)) rfl
  | sampleRate rate switchOn =>
    cases h
    obtain ⟨v, hv, he⟩ := startProfiling_eq s rate switchOn
    rw [he]
    exact .request _ v _ hv rfl
  | scan opened entries =>
    by_cases hn : ((threads entries).map Thread.tid).Nodup
    · rw [← Option.some.inj ((if_pos hn).symm.trans h)]
      exact scan_effect hb hn
    · simp [step, hn] at h
  | fork =>
    cases h
    exact .fork

theorem init_blank : Blank init :=
  ⟨fun _ => rfl, fun h => absurd rfl h, fun _ => rfl, fun _ => rfl, fun _ => rfl⟩

theorem Blank.next {s t : State} {a : Label} (hb : Blank s) (h : step s a = some t) : Blank t := by
  cases step_effect hb h with
  | metricsStart th _ =>
    exact ⟨hb.quiet, fun hl => ⟨rfl, (hb.started hl).2⟩, hb.threads, hb.timers, hb.listing⟩
  | processorStart th _ =>
    exact ⟨hb.quiet, fun hl => ⟨(hb.started hl).1, rfl⟩, hb.threads, hb.timers, hb.listing⟩
  | request _ v w hv _ =>
    refine ⟨fun he => ?_, hb.started, hb.threads, hb.timers, hb.listing⟩
    rcases hv with hv | hv
    · exact hb.quiet (hv.symm.trans he)
    · exact absurd he hv
  | skipped opened entries _ hl l w _ =>
    exact ⟨hb.quiet, hb.started, hb.threads, hb.timers, hb.listing⟩
  | unread entries hs ts hts =>
    exact ⟨fun he => he, fun _ => ⟨hs.1, hs.2.1⟩, fun he => absurd he hs.2.2,
      fun he => absurd he hs.2.2, fun he => absurd he hs.2.2⟩
  | read entries hs hn ts n cur hts hcur =>
    exact ⟨fun he => he, fun _ => ⟨hs.1, hs.2.1⟩, fun he => absurd he hs.2.2,
      fun he => absurd he hs.2.2, fun he => absurd he hs.2.2⟩
  | fork => exact init_blank

end Opsian.Scanner.Scan
