import Opsian.Scanner.Scan

/-! # Timers match threads

A scan starts a timer for every thread it has not met in the scan before, and
never gives one up. So the timers match the latest listing for as long as no
thread of it exits. -/
namespace Opsian.Scanner.Timers
open Opsian.Lib.Runs Opsian.Scanner.ProcScanner Opsian.Scanner.Scan

/-- The metrics and the processor thread, which run the scanner. -/
def Agent (s : State) (th : Thread) : Prop :=
  s.metricsThread = some th ∨ s.processorThread = some th

instance (s : State) (th : Thread) : Decidable (Agent s th) :=
  inferInstanceAs (Decidable (_ ∨ _))

/-- The thread is one that the latest listing wants a timer for. -/
def Profiled (s : State) (th : Thread) : Prop :=
  th ∈ s.listing ∧ ¬ Agent s th

instance (s : State) (th : Thread) : Decidable (Profiled s th) :=
  inferInstanceAs (Decidable (_ ∧ _))

/-- One timer for each profiled thread, and none for a thread that has exited. -/
structure Matched (s : State) : Prop where
  count : ∀ th, (s.timers.map Timer.thread).count th = if Profiled s th then 1 else 0
  alive : ∀ timer ∈ s.timers, timer.thread ∈ s.live

def TimersMatch (s : State) : Prop :=
  s.localIntervalInNs ≠ notScanning → Matched s

/-- No profiled thread has exited since it was listed, and no thread has come to
the `tid` of an agent that has. -/
def Steady (s : State) : Label → Prop
  | .scan opened entries => Scanning s →
      (∀ th, Profiled s th → th ∈ threads entries) ∧
      (opened = true → ∀ th ∈ threads entries, AgentId s th.tid → Agent s th)
  | _ => True

/-! ## The invariant -/

structure Inv (s : State) : Prop where
  blank : Blank s
  metrics : ∀ th, s.metricsThread = some th → th.tid = s.metricsThreadId
  processor : ∀ th, s.processorThread = some th → th.tid = s.processorThreadId
  last : ∀ tid, tid ∈ s.lastScanThreads ↔ ∃ th, Profiled s th ∧ th.tid = tid
  apart : ∀ th, Profiled s th → ¬ AgentId s th.tid
  matched : Matched s

variable {s t : State} {th : Thread} {entries : List DirEntry}

theorem Inv.agentId (h : Inv s) (ha : Agent s th) : AgentId s th.tid := by
  rcases ha with ha | ha
  · exact Or.inl (h.metrics th ha)
  · exact Or.inr (h.processor th ha)

theorem Matched.mem_iff (h : Matched s) : th ∈ s.timers.map Timer.thread ↔ Profiled s th := by
  rw [← List.count_pos_iff, h.count]
  split <;> simp [*]

theorem Matched.live (h : Matched s) (hp : Profiled s th) : th ∈ s.live := by
  obtain ⟨timer, hmem, rfl⟩ := List.mem_map.mp (h.mem_iff.mpr hp)
  exact h.alive timer hmem

/-- Before the first interval there is nothing to match. -/
theorem inv_of_blank (hb : Blank s) (hl : s.localIntervalInNs = notScanning)
    (hm : ∀ th, s.metricsThread = some th → th.tid = s.metricsThreadId)
    (hp : ∀ th, s.processorThread = some th → th.tid = s.processorThreadId) : Inv s := by
  have hno : ∀ th, ¬ Profiled s th := fun th h => by simp [Profiled, hb.listing hl] at h
  refine ⟨hb, hm, hp, fun tid => ?_, fun th h => absurd h (hno th), fun th => ?_, ?_⟩
  · simp [hb.threads hl, hno]
  · simp [hb.timers hl, hno]
  · simp [hb.timers hl]

theorem init_inv : Inv init := inv_of_blank init_blank rfl nofun nofun

/-! ## A scan that reads the listing -/

/-- What a listing is filtered for is what it has a timer wanted for. -/
theorem Inv.agent_iff (h : Inv s) (hok : ∀ u ∈ threads entries, AgentId s u.tid → Agent s u)
    (hth : th ∈ threads entries) : AgentId s th.tid ↔ Agent s th :=
  ⟨hok th hth, h.agentId⟩

/-- A thread of the new listing is met for the first time exactly if it was not
profiled so far. -/
theorem Inv.fresh_iff (h : Inv s) (hn : ((threads entries).map Thread.tid).Nodup)
    (hlive : ∀ u, Profiled s u → u ∈ threads entries)
    (hok : ∀ u ∈ threads entries, AgentId s u.tid → Agent s u) (hth : th ∈ threads entries) :
    fresh s th = true ↔ ¬ Agent s th ∧ ¬ Profiled s th := by
  have hlast : th.tid ∈ s.lastScanThreads ↔ Profiled s th := by
    refine (h.last th.tid).trans ⟨?_, fun hp => ⟨th, hp, rfl⟩⟩
    rintro ⟨u, hu, he⟩
    exact List.inj_on_of_nodup_map hn (hlive u hu) hth he ▸ hu
  simp [fresh, h.agent_iff hok hth, hlast]

theorem Inv.count_read (h : Inv s) (hn : ((threads entries).map Thread.tid).Nodup)
    (hlive : ∀ u, Profiled s u → u ∈ threads entries)
    (hok : ∀ u ∈ threads entries, AgentId s u.tid → Agent s u) (th : Thread) :
    (s.timers.map Timer.thread ++ (threads entries).filter (fresh s)).count th =
      if th ∈ threads entries ∧ ¬ Agent s th then 1 else 0 := by
  have hnew := (hn.of_map _).filter (fresh s)
  rw [List.count_append, h.matched.count, hnew.count]
  simp only [List.mem_filter]
  by_cases hth : th ∈ threads entries
  · have hfresh := h.fresh_iff hn hlive hok hth
    by_cases hp : Profiled s th
    · simp [hth, hp, hfresh, hp.2]
    · by_cases ha : Agent s th <;> simp [hth, hp, hfresh, ha]
  · have hp : ¬ Profiled s th := fun hp => hth (hlive th hp)
    simp [hth, hp]

/-! ## Steps -/

theorem Inv.next {a : Label} (h : Inv s) (hok : Steady s a) (hs : step s a = some t) : Inv t := by
  have hb := h.blank.next hs
  cases step_effect h.blank hs with
  | metricsStart u hu =>
    refine inv_of_blank hb ?_ (fun v hv => ?_) h.processor
    · by_contra hl
      simp [(h.blank.started hl).1] at hu
    · cases hv; rfl
  | processorStart u hu =>
    refine inv_of_blank hb ?_ h.metrics fun v hv => ?_
    · by_contra hl
      simp [(h.blank.started hl).2] at hu
    · cases hv; rfl
  | request _ v w _ _ =>
    exact ⟨hb, h.metrics, h.processor, h.last, h.apart, ⟨h.matched.count, h.matched.alive⟩⟩
  | skipped opened es _ hl l w _ => exact inv_of_blank hb hl h.metrics h.processor
  | unread es hsc ts hts =>
    obtain ⟨hlive, -⟩ := hok hsc
    refine ⟨hb, h.metrics, h.processor, h.last, h.apart, fun v => ?_, fun timer htimer => ?_⟩
    · exact (congrArg (List.count v) hts).trans (h.matched.count v)
    · have hmem : timer.thread ∈ ts.map Timer.thread := List.mem_map_of_mem htimer
      rw [hts] at hmem
      exact hlive _ (h.matched.mem_iff.mp hmem)
  | read es hsc hn ts n cur hts hcur =>
    obtain ⟨hlive, hagent⟩ := hok hsc
    have hagent := hagent rfl
    have hcount := h.count_read hn hlive hagent
    refine ⟨hb, h.metrics, h.processor, fun tid => ?_, ?_, fun v => ?_, fun timer htimer => ?_⟩
    · refine (hcur tid).trans ⟨?_, ?_⟩
      · rintro ⟨u, hu, ha, he⟩
        exact ⟨u, ⟨hu, fun hau => ha (h.agentId hau)⟩, he⟩
      · rintro ⟨u, ⟨hu, ha⟩, he⟩
        exact ⟨u, hu, fun hau => ha (hagent u hu hau), he⟩
    · rintro u ⟨hu, ha⟩ hau
      exact ha (hagent u hu hau)
    · exact (congrArg (List.count v) hts).trans (hcount v)
    · have hmem : timer.thread ∈ ts.map Timer.thread := List.mem_map_of_mem htimer
      rw [hts, ← List.count_pos_iff, hcount] at hmem
      by_contra hth
      simp [show timer.thread ∉ threads es from hth] at hmem
  | fork => exact init_inv

/-- A timer for a thread that has exited, or a thread passed over, shows. -/
theorem Inv.steady {a : Label} (h : Inv s) (hs : step s a = some t) (ht : TimersMatch t) :
    Steady s a := by
  cases step_effect h.blank hs with
  | unread es hsc ts hts =>
    have hm := ht hsc.2.2
    refine fun _ => ⟨fun u hu => ?_, nofun⟩
    exact hm.live (hm.mem_iff.mp (hts ▸ h.matched.mem_iff.mpr hu))
  | read es hsc hn ts n cur hts hcur =>
    have hm := ht hsc.2.2
    have hmem (u : Thread) : Profiled _ u ↔
        u ∈ s.timers.map Timer.thread ∨ u ∈ (threads es).filter (fresh s) :=
      hm.mem_iff.symm.trans (by rw [hts, List.mem_append])
    refine fun _ => ⟨fun u hu => ?_, fun _ u hu hau => ?_⟩
    · exact hm.live ((hmem u).mpr (Or.inl (h.matched.mem_iff.mpr hu)))
    · by_contra hna
      rcases (hmem u).mp ⟨hu, hna⟩ with hold | hnew
      · exact h.apart u (h.matched.mem_iff.mp hold) hau
      · have hf := List.of_mem_filter hnew
        simp [fresh, hau] at hf
  | skipped opened es hsc _ _ _ _ => exact fun h => absurd h hsc
  | request a v w _ ha =>
    cases a with
    | scan o es => cases ha
    | _ => trivial
  | _ => trivial

/-- **Timers match threads**, in every state of a run, if and only if at every
scan the profiled threads of the latest listing are all alive, and an agent's
`tid` is an agent's. -/
theorem match_iff_steady (labels : List Label) :
    Along step TimersMatch init labels ↔ Steps step Steady init labels :=
  along_iff_steps (I := Inv) (fun _ _ _ h hok hs => h.next hok hs) (fun _ h _ => h.matched)
    (fun _ _ _ h _ hs ht => h.steady hs ht) init_inv

/-- Both agents have started, and a scan is asked for. -/
def started : List Label := [.metricsStart ⟨2, 0⟩, .processorStart ⟨3, 0⟩, .update 10]

/-- The timer of a thread that exits between two scans stays. -/
theorem exited_thread_keeps_timer :
    ¬ Along step TimersMatch init (started ++
      [.scan true [.dot, .dot, .task ⟨1, 0⟩, .task ⟨2, 0⟩, .task ⟨3, 0⟩, .task ⟨4, 0⟩],
        .scan true [.dot, .dot, .task ⟨1, 0⟩, .task ⟨2, 0⟩, .task ⟨3, 0⟩]]) := by
  refine not_along_of_run (List.prefix_refl _) rfl fun h => ?_
  have halive := (h (by decide)).alive ⟨1, ⟨4, 0⟩, 10000000⟩ (by decide)
  exact absurd halive (by decide)

end Opsian.Scanner.Timers
