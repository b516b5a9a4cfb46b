import Opsian.Collector.Forks
import Opsian.Metrics.Listener
import Opsian.Scanner.ProcScanner

/-! # What a forked child begins with

`Profiler::on_fork` resets one component after the other by hand. It closes the
network behind the controller's reset, and a close drains the event loop: what was
queued in the parent runs in the child. Of the network nothing is reset but the socket. -/
namespace Opsian.Fork.Reset
open Opsian.Lib Opsian.Lib.Runs Opsian.Collector Opsian.Collector.EventLoop
  Opsian.Collector.Transitions Opsian.Collector.Forks Opsian.Scanner

/-- The variables of `proc_scanner.cpp`. -/
structure ScanVariables where
  lastScanThreads : List Nat
  timers : List ProcScanner.Timer
  metricsThreadId : Nat
  processorThreadId : Nat
  metricsThreadStarted : Bool
  processorThreadStarted : Bool
  atomicIntervalInNs : UInt64
  localIntervalInNs : UInt64
  deriving DecidableEq, Repr

def scanVariables (s : ProcScanner.State) : ScanVariables where
  lastScanThreads := s.lastScanThreads
  timers := s.timers
  metricsThreadId := s.metricsThreadId
  processorThreadId := s.processorThreadId
  metricsThreadStarted := s.metricsThreadStarted
  processorThreadStarted := s.processorThreadStarted
  atomicIntervalInNs := s.atomicIntervalInNs
  localIntervalInNs := s.localIntervalInNs

def resetScanThreads (s : ProcScanner.State) : ProcScanner.State :=
  { s with
    lastScanThreads := []
    timers := []
    metricsThreadId := 0
    processorThreadId := 0
    metricsThreadStarted := false
    processorThreadStarted := false
    atomicIntervalInNs := ProcScanner.notScanning
    localIntervalInNs := ProcScanner.notScanning }

/-- The fields of `Metrics`, its mutex left out. A reader is there or it is null. -/
structure Metrics where
  mustSendDurationMetric : Bool
  enabled : Bool
  sampleRateMillis : UInt64
  eventRingReader : Bool
  cpudataReader : Bool
  metricNameToId : Table String UInt32
  needsToSendConstantMetrics : Bool

def defaultMetricsSampleRateMillis : UInt64 := 1000

namespace Metrics

/-- The constructor of `Metrics`. -/
def construct : Metrics where
  mustSendDurationMetric := false
  enabled := false
  sampleRateMillis := defaultMetricsSampleRateMillis
  eventRingReader := false
  cpudataReader := false
  metricNameToId := ∅
  needsToSendConstantMetrics := false

def onFork (m : Metrics) : Metrics :=
  { m with
    mustSendDurationMetric := false
    enabled := false
    sampleRateMillis := defaultMetricsSampleRateMillis
    cpudataReader := false
    eventRingReader := false
    metricNameToId := ∅
    needsToSendConstantMetrics := false }

end Metrics

/-- The components of the agent, with its processor thread. -/
structure Agent where
  process : Process
  metrics : Metrics
  scanner : ProcScanner.State

/-- The agent when its threads start. -/
def Agent.construct (prometheusEnabled on : Bool) : Agent where
  process := { Process.init on with
    thread := { EventLoop.init on with controller := EventLoop.construct prometheusEnabled on } }
  metrics := .construct
  scanner := ProcScanner.init

/-- The forking thread in the child, on its way through `Profiler::on_fork`. -/
structure Child where
  process : Process
  scanner : ProcScanner.State

/-- What a handler does to the scanner: a sample rate starts or stops it. -/
def scannerStep (s : ProcScanner.State) : Label → ProcScanner.State
  | .onMessage (.sampleRate m) =>
    ProcScanner.startProfiling s m.elapsedTimeStackSampleRateMillis m.switchElapsedTimeProfilingOn
  | _ => s

/-- Until the processor thread starts there is nobody else to fork. -/
def childStep (s : Child) : Event → Option Child
  | .thread a => (s.process.step (.thread a)).map fun p => ⟨p, scannerStep s.scanner a⟩
  | .expire => (s.process.step .expire).map fun p => ⟨p, s.scanner⟩
  | .fork | .start => none

/-- The components are as they are when the threads of a new agent start, apart from the
switch `on_`. -/
structure Fresh (prometheusEnabled : Bool) (s : Agent) : Prop where
  process : s.process =
    (Agent.construct prometheusEnabled s.process.thread.controller.on).process
  metrics : s.metrics = Metrics.construct
  scanner : scanVariables s.scanner = scanVariables ProcScanner.init

/-- A message that leaves a controller alone which is not connected. -/
def Harmless : Message → Prop
  | .heartbeat => False
  | .sampleRate m =>
    Controller.keptRate m.processTimeStackSampleRateMillis 0 m.switchProcessTimeProfilingOn = 0 ∧
      Controller.keptRate m.elapsedTimeStackSampleRateMillis 0 m.switchElapsedTimeProfilingOn = 0 ∧
      m.threadStateOn = false ∧ m.switchMemoryProfilingOn = false ∧ m.switchMetricsOn = false
  | .terminate | .unknown => True

/-- What is still to come of a timer. -/
def timerLeft (t : Timer) : Nat := t.expired + if t.wait then 1 else 0

/-- The timers of connects and writes whose handlers have not run. -/
def deadlinesLeft (p : Process) : Nat := p.deadlines + timerLeft p.thread.network.deadline

def HandlesRead : Label → Prop
  | .onMessage _ | .onReadError _ => True
  | _ => False

variable {s t : State} {a : Label} {l : List Instr}

/-! ## What is left of the network -/

/-- No send is left to do, and what is outstanding is accounted for. -/
structure Accounted (s : State) (a : Label) (t : State) : Prop where
  isSending : t.network.isSending = s.network.isSending
  sends : ∀ i ∈ t.todo, i ≠ .send ∧ i ≠ .endSend
  deadline : timerLeft t.network.deadline + (if a = .onDeadline then 1 else 0) =
    timerLeft s.network.deadline
  reading : t.network.reading = true ↔ s.network.reading = true ∧ ¬ HandlesRead a

/-- A step that handles nothing the parent had outstanding. -/
theorem Accounted.of_eq (hs : t.network.isSending = s.network.isSending)
    (hi : ∀ i ∈ t.todo, i ≠ .send ∧ i ≠ .endSend)
    (hd : timerLeft t.network.deadline = timerLeft s.network.deadline)
    (hr : t.network.reading = s.network.reading) (ha : a ≠ .onDeadline)
    (hh : ¬ HandlesRead a) : Accounted s a t where
  isSending := hs
  sends := hi
  deadline := by rw [if_neg ha, Nat.add_zero, hd]
  reading := by rw [hr, and_iff_left hh]

theorem timerLeft_expire {t : Timer} (h : t.wait = true) : timerLeft t.expire = timerLeft t := by
  simp [timerLeft, Timer.expire, h]

theorem timerLeft_take {t : Timer} (h : 0 < t.expired) : timerLeft t.take + 1 = timerLeft t := by
  rcases t with ⟨wait, expired⟩
  have hpos : 0 < expired := h
  show expired - 1 + (if wait then 1 else 0) + 1 = expired + if wait then 1 else 0
  omega

theorem sends_call {n : Network} {c : Controller} {is : List Instr} (h : Closing s)
    (hw : s.waits = true) (hi : ∀ i ∈ s.todo, i ≠ .send ∧ i ≠ .endSend)
    (his : ∀ i ∈ is, i ≠ .send ∧ i ≠ .endSend) :
    ∀ i ∈ ({ s with controller := c, network := n }.call is).todo, i ≠ .send ∧ i ≠ .endSend := by
  intro i hm
  rcases List.mem_append.mp hm with hm | hm
  · exact his i hm
  · exact hi i ((h.waits hw).1 ▸ hm)

theorem accounted_of_closing (h : Closing s) (hi : ∀ i ∈ s.todo, i ≠ .send ∧ i ≠ .endSend)
    (ha : ∀ timer, a ≠ .onTimer timer) (hs : step s a = some t) : Accounted s a t := by
  have htail {i : Instr} {l : List Instr} (htodo : s.todo = i :: l) :
      ∀ j ∈ l, j ≠ .send ∧ j ≠ .endSend := fun j hj => hi j (htodo ▸ List.mem_cons_of_mem _ hj)
  have hclosing := (h.next hs).1
  cases step_transition hs with
  | handOver l htodo | refuse l htodo | drop l htodo =>
    exact absurd rfl (hi .send (by rw [htodo]; exact List.mem_cons_self)).1
  | endSend l htodo =>
    exact absurd rfl (hi .endSend (by rw [htodo]; exact List.mem_cons_self)).2
  | close l htodo =>
    refine .of_eq rfl (fun i hm => ?_) rfl rfl nofun id
    rcases List.mem_append.mp (show i ∈ [.drain, .deleteSock] ++ l from hm) with hm | hm
    · exact ⟨by rintro rfl; simp at hm, by rintro rfl; simp at hm⟩
    · exact htail htodo i hm
  | closeNothing l htodo | schedule _ l htodo | deleteSock l htodo | clearNotifications l htodo
  | drained l htodo | polled l htodo => exact .of_eq rfl (htail htodo) rfl rfl nofun id
  | onDisconnect l htodo =>
    exact absurd rfl (h.instrs .onDisconnect (by rw [htodo]; exact List.mem_cons_self)).2.1
  | written _ l htodo =>
    exact absurd rfl (h.instrs .awaitWrite (by rw [htodo]; exact List.mem_cons_self)).1
  | attemptRead l htodo =>
    have hreading : s.network.attemptRead.reading = s.network.reading := by
      show (s.network.reading || s.network.isConnected) = _
      rw [h.not_connected htodo nofun, Bool.or_false]
    exact .of_eq rfl (htail htodo) rfl hreading nofun id
  | connect htop | poll htop | stop htop => cases h.place.symm.trans htop.1
  | sentHello _ hplace | batch _ hplace _ | noBatch _ hplace _ | resolved _ hplace
  | unresolved _ hplace | connected _ hplace _ | unconnected _ _ hplace
  | notify _ _ _ _ hplace _ | stash _ _ _ _ hplace _ | records _ _ _ hplace
  | popped _ _ hplace => cases h.place.symm.trans hplace
  | expire | exit => exact .of_eq rfl hi rfl rfl nofun id
  | expireDeadline =>
    obtain ⟨hwait, -⟩ := Option.ite_some_none_eq_some.mp hs
    exact .of_eq rfl hi (timerLeft_expire hwait) rfl nofun id
  | onTimer timer => exact absurd rfl (ha timer)
  | onDeadline hw =>
    obtain ⟨⟨-, hexpired⟩, -⟩ := Option.ite_some_none_eq_some.mp hs
    have hclose (n : Network) : n.closeSocket.deadline = n.deadline ∧
        n.closeSocket.isSending = n.isSending := by
      unfold Network.closeSocket
      split <;> exact ⟨rfl, rfl⟩
    refine ⟨(hclose _).2, sends_call (c := s.controller) h hw hi nofun, ?_, ?_⟩
    · show timerLeft (Network.closeSocket _).deadline + 1 = _
      rw [(hclose _).1]
      exact timerLeft_take hexpired
    · show (Network.closeSocket _).reading = true ↔ _
      rw [Network.closeSocket_reading]
      exact (and_iff_left id).symm
  | onMessage m hw =>
    refine ⟨?_, ?_, ?_, ?_⟩
    · cases m <;> rfl
    · rw [todo_onMessage h]
      intro i hm
      rcases List.mem_cons.mp hm with rfl | hm
      · simp
      · exact hi i ((h.waits hw).1 ▸ hm)
    · cases m <;> rfl
    · refine iff_of_false ?_ fun h => h.2 trivial
      cases m <;> exact nofun
  | onReadError body hw =>
    refine ⟨rfl, sends_call (c := s.controller) h hw hi ?_, rfl,
      iff_of_false nofun fun h => h.2 trivial⟩
    cases body <;> simp

/-! ## The child -/

/-- Nothing is pending, and all is as constructed. -/
structure Blank (s : Child) : Prop where
  still : ¬ Pending s.process.thread
  controller : s.process.thread.controller =
    EventLoop.construct false s.process.thread.controller.on
  scanner : scanVariables s.scanner = scanVariables ProcScanner.init

/-- Something is pending, or what a message has changed stays so. -/
def Spoilt (s : Child) : Prop :=
  Pending s.process.thread ∨ (¬ Pending s.process.thread ∧
    s.process.thread.network.reading = false ∧ s.process.thread.controller ≠
      EventLoop.construct false s.process.thread.controller.on)

variable {p q : Child} {e : Event} {events : List Event}

/-- Every step of the child is one of these. -/
inductive ChildMove (p : Child) : Event → Child → Prop where
  | thread (a : Label) (q : Child) (hs : step p.process.thread a = some q.process.thread)
      (hscanner : q.scanner = scannerStep p.scanner a)
      (hdeadlines : q.process.deadlines = p.process.deadlines) : ChildMove p (.thread a) q
  | expire (h : 0 < p.process.deadlines) : ChildMove p .expire ⟨p.process.expire, p.scanner⟩

theorem childStep_move (h : childStep p e = some q) : ChildMove p e q := by
  cases e with
  | thread a =>
    obtain ⟨r, hr, rfl⟩ := Option.map_eq_some_iff.mp h
    obtain ⟨t, ht, rfl⟩ := Option.map_eq_some_iff.mp hr
    exact .thread a _ ht rfl rfl
  | expire =>
    obtain ⟨r, hr, rfl⟩ := Option.map_eq_some_iff.mp h
    obtain ⟨hd, rfl⟩ := Option.ite_some_none_eq_some.mp hr
    exact .expire hd
  | fork | start => cases h

theorem childStep_process (h : childStep p e = some q) : p.process.step e = some q.process := by
  cases e with
  | thread a | expire =>
    obtain ⟨r, hr, rfl⟩ := Option.map_eq_some_iff.mp h
    exact hr
  | fork | start => cases h

theorem closing_next (h : Closing p.process.thread) (hs : childStep p e = some q) :
    Closing q.process.thread := by
  cases childStep_move hs with
  | thread a q ht => exact (h.next ht).1
  | expire => exact ⟨h.place, h.instrs, h.closed, h.state⟩

theorem Spoilt.next (h : Spoilt p) (hclosing : Closing p.process.thread)
    (hs : childStep p e = some q) : Spoilt q := by
  cases childStep_move hs with
  | expire => exact h
  | thread a q ht =>
    have he := (hclosing.next ht).2
    rcases h with hp | ⟨hp, hr, hc⟩
    · exact .inl (hp.next hclosing he)
    · have hm (m : Message) : a ≠ .onMessage m := by
        rintro rfl
        cases hr.symm.trans he.of_message.2
      obtain ⟨hstill, hsame, hreading⟩ := he.still hp hm
      refine .inr ⟨hstill, ?_, ?_⟩
      · by_contra ht
        cases hr.symm.trans (hreading (by simpa using ht))
      · rw [hsame]
        exact hc

/-- A controller that is not connected, and what a sample rate makes of it. -/
theorem sampleRate_construct_iff (on : Bool) (m : SampleRate) :
    (construct false on).sampleRate m = construct false on ↔ Harmless (.sampleRate m) := by
  simp only [Controller.sampleRate, construct, Harmless, Controller.mk.injEq]
  simp

/-- The rate that a harmless message sets is none. -/
theorem startProfiling_harmless {sc : ProcScanner.State} {rate : UInt64} {switchOn : Bool}
    (h : Controller.keptRate rate 0 switchOn = 0)
    (hs : scanVariables sc = scanVariables ProcScanner.init) :
    ProcScanner.startProfiling sc rate switchOn = sc := by
  have hoff : sc.atomicIntervalInNs = ProcScanner.notScanning :=
    congrArg ScanVariables.atomicIntervalInNs hs
  unfold ProcScanner.startProfiling
  cases switchOn with
  | true =>
    rw [if_pos rfl, if_neg]
    intro hrate
    have hchange : rate ≠ dontChangeSampleRate := hrate
    have hkept : Controller.keptRate rate 0 true = rate := if_pos (by simpa using hchange)
    exact hrate (hkept.symm.trans h)
  | false =>
    rw [if_neg (by simp), if_neg]
    simp [ProcScanner.isScanningThreads, hoff]

/-- A message other than a heartbeat leaves nothing pending. -/
theorem still_onMessage {m : Message} (hp : ¬ Pending s) (hc : Closing s) (hm : m ≠ .heartbeat) :
    ¬ Pending (s.onMessage m) := by
  rintro (⟨timer, harmed⟩ | ⟨timer, hmem⟩)
  · rw [timers_onMessage hm] at harmed
    exact hp (.inl ⟨timer, harmed⟩)
  · rw [todo_onMessage hc, List.mem_cons, or_iff_right nofun] at hmem
    exact hp (.inr ⟨timer, State.mem_of_mem_rest hmem⟩)

/-- What a message makes of a blank child. -/
theorem Blank.onMessage {m : Message} (h : Blank p) (hc : Closing p.process.thread)
    (hs : childStep p (.thread (.onMessage m)) = some q) :
    (Harmless m → Blank q) ∧ (¬ Harmless m → Spoilt q) := by
  cases childStep_move hs with | thread _ q hthread hscanner =>
  obtain ⟨hq, -⟩ := (hc.next hthread).2.of_message
  by_cases hm : m = .heartbeat
  · subst hm
    refine ⟨False.elim, fun _ => .inl ?_⟩
    rw [hq]
    exact pending_heartbeat _
  have hstill : ¬ Pending q.process.thread := by
    rw [hq]
    exact still_onMessage h.still hc hm
  cases m with
  | heartbeat => exact absurd rfl hm
  | terminate =>
    refine ⟨fun _ => ⟨hstill, ?_, hscanner ▸ h.scanner⟩, fun hm => absurd trivial hm⟩
    rw [hq]
    show { p.process.thread.controller with on := false } = EventLoop.construct false false
    rw [h.controller]
    rfl
  | unknown =>
    refine ⟨fun _ => ⟨hstill, ?_, hscanner ▸ h.scanner⟩, fun hm => absurd trivial hm⟩
    rw [hq]
    exact h.controller
  | sampleRate m =>
    have hcontroller : q.process.thread.controller =
        (EventLoop.construct false p.process.thread.controller.on).sampleRate m := by
      rw [hq, ← h.controller]
      rfl
    have hon : q.process.thread.controller.on = p.process.thread.controller.on := by
      rw [hcontroller]
      rfl
    constructor
    · intro hm
      refine ⟨hstill, ?_, ?_⟩
      · rw [hon, hcontroller]
        exact (sampleRate_construct_iff _ m).mpr hm
      · rw [hscanner, scannerStep, startProfiling_harmless hm.2.1 h.scanner]
        exact h.scanner
    · intro hm
      refine .inr ⟨hstill, by rw [hq]; rfl, fun heq => hm ?_⟩
      rw [hon, hcontroller] at heq
      exact (sampleRate_construct_iff _ m).mp heq

theorem Blank.next (h : Blank p) (hc : Closing p.process.thread) (hs : childStep p e = some q)
    (hm : ∀ m, e ≠ .thread (.onMessage m)) : Blank q := by
  cases childStep_move hs with
  | expire => exact ⟨h.still, h.controller, h.scanner⟩
  | thread a q hthread hscanner =>
    have hm (m : Message) : a ≠ .onMessage m := fun ha => hm m (ha ▸ rfl)
    obtain ⟨hstill, hsame, -⟩ := (hc.next hthread).2.still h.still hm
    refine ⟨hstill, ?_, ?_⟩
    · rw [hsame]
      exact h.controller
    · have hsc : scannerStep p.scanner a = p.scanner := by
        unfold scannerStep
        split
        · exact absurd rfl (hm _)
        · rfl
      rw [hscanner, hsc]
      exact h.scanner

/-- Once it is spoilt, the child does not end up as constructed. -/
theorem Spoilt.run (h : Spoilt p) (hc : Closing p.process.thread)
    (hs : run childStep p events = some q) (htodo : q.process.thread.todo = []) :
    q.process.thread.controller ≠ EventLoop.construct false q.process.thread.controller.on := by
  have hinv : Along childStep (fun p => Spoilt p ∧ Closing p.process.thread) p events :=
    along_of_step (fun p e q ⟨h, hc⟩ hs => ⟨h.next hc hs, closing_next hc hs⟩) ⟨h, hc⟩ events
  rcases (along_iff_reached.mp hinv events (List.prefix_refl _) q hs).1 with hp | hp
  · intro heq
    rcases hp with ⟨timer, harmed⟩ | ⟨timer, hmem⟩
    · rw [heq] at harmed
      exact Timer.not_armed.mpr rfl harmed
    · rw [htodo] at hmem
      cases hmem
  · exact hp.2.2

/-- A blank child ends up as constructed exactly when every message it is still given
is harmless. -/
theorem Blank.run (h : Blank p) (hc : Closing p.process.thread)
    (hs : run childStep p events = some q) (htodo : q.process.thread.todo = []) :
    (q.process.thread.controller = EventLoop.construct false q.process.thread.controller.on ∧
      scanVariables q.scanner = scanVariables ProcScanner.init) ↔
      ∀ m, .thread (.onMessage m) ∈ events → Harmless m := by
  induction events generalizing p with
  | nil =>
    cases hs
    exact iff_of_true ⟨h.controller, h.scanner⟩ nofun
  | cons e events ih =>
    obtain ⟨r, hr, hrest⟩ := Option.bind_eq_some_iff.mp hs
    have hc' := closing_next hc hr
    by_cases hm : ∃ m, e = .thread (.onMessage m)
    · obtain ⟨m, rfl⟩ := hm
      by_cases hharm : Harmless m
      · rw [ih ((h.onMessage hc hr).1 hharm) hc' hrest]
        simp [hharm]
      · have hspoilt := (h.onMessage hc hr).2 hharm
        exact iff_of_false (fun hq => hspoilt.run hc' hrest htodo hq.1)
          fun hall => hharm (hall m List.mem_cons_self)
    · have hm' (m : Message) : e ≠ .thread (.onMessage m) := fun heq => hm ⟨m, heq⟩
      rw [ih (h.next hc hr hm') hc' hrest]
      simp [fun m => Ne.symm (hm' m)]

/-- A child with nothing pending is given no completion of the controller's timers. -/
theorem not_onTimer (hp : ¬ Pending s) (hs : step s a = some t) (timer : TimerId) :
    a ≠ .onTimer timer := by
  rintro rfl
  obtain ⟨⟨-, hexpired⟩, -⟩ := Option.ite_some_none_eq_some.mp hs
  exact hp (.inl ⟨timer, .inr hexpired⟩)

/-- A step uses up of what is outstanding what it handles. -/
theorem accounted_of_childStep (h : ¬ Pending p.process.thread) (hc : Closing p.process.thread)
    (hi : ∀ i ∈ p.process.thread.todo, i ≠ .send ∧ i ≠ .endSend) (hs : childStep p e = some q) :
    (∀ i ∈ q.process.thread.todo, i ≠ .send ∧ i ≠ .endSend) ∧
      q.process.thread.network.isSending = p.process.thread.network.isSending ∧
      deadlinesLeft q.process + (if e = .thread .onDeadline then 1 else 0) =
        deadlinesLeft p.process ∧
      (q.process.thread.network.reading = true ↔ p.process.thread.network.reading = true ∧
        ∀ a, HandlesRead a → e ≠ .thread a) := by
  cases childStep_move hs with
  | thread a q hthread hscanner hdeadlines =>
    have hstep := accounted_of_closing hc hi (not_onTimer h hthread) hthread
    refine ⟨hstep.sends, hstep.isSending, ?_, ?_⟩
    · have hd := hstep.deadline
      simp only [deadlinesLeft, hdeadlines, Event.thread.injEq]
      omega
    · rw [hstep.reading]
      refine and_congr_right fun _ => ⟨fun hnot b hb heq => ?_, fun hall ha => hall a ha rfl⟩
      cases heq
      exact hnot hb
  | expire hd =>
    refine ⟨hi, rfl, ?_, ?_⟩
    · show p.process.deadlines - 1 + (p.process.thread.network.deadline.expired + 1 +
        if p.process.thread.network.deadline.wait then 1 else 0) + 0 = p.process.deadlines + _
      simp only [timerLeft]
      omega
    · exact (and_iff_left fun _ _ => nofun).symm

/-- What the network of a blank child is left with. -/
theorem Blank.account (h : Blank p) (hc : Closing p.process.thread)
    (hi : ∀ i ∈ p.process.thread.todo, i ≠ .send ∧ i ≠ .endSend)
    (hs : Runs.run childStep p events = some q)
    (hm : ∀ m, .thread (.onMessage m) ∈ events → Harmless m) :
    q.process.thread.network.isSending = p.process.thread.network.isSending ∧
      deadlinesLeft q.process + events.count (.thread .onDeadline) = deadlinesLeft p.process ∧
      (q.process.thread.network.reading = true ↔ p.process.thread.network.reading = true ∧
        ∀ a, HandlesRead a → .thread a ∉ events) := by
  induction events generalizing p with
  | nil =>
    cases hs
    exact ⟨rfl, rfl, by simp⟩
  | cons e events ih =>
    obtain ⟨r, hr, hrest⟩ := Option.bind_eq_some_iff.mp hs
    have hblank : Blank r := by
      by_cases hmessage : ∃ m, e = .thread (.onMessage m)
      · obtain ⟨m, rfl⟩ := hmessage
        exact (h.onMessage hc hr).1 (hm m List.mem_cons_self)
      · exact h.next hc hr fun m heq => hmessage ⟨m, heq⟩
    obtain ⟨hi', hsending', hleft', hreading'⟩ := accounted_of_childStep h.still hc hi hr
    obtain ⟨hsending, hleft, hreading⟩ := ih hblank (closing_next hc hr) hi' hrest
      fun m hmem => hm m (List.mem_cons_of_mem _ hmem)
    refine ⟨hsending.trans hsending', ?_, ?_⟩
    · have hcount : (e :: events).count (.thread .onDeadline) =
          events.count (.thread .onDeadline) + if e = .thread .onDeadline then 1 else 0 := by
        simp [List.count_cons]
      omega
    · rw [hreading, hreading', and_assoc, ← forall_and]
      refine and_congr_right fun _ => forall_congr' fun a => ?_
      rw [← imp_and, List.mem_cons, not_or]
      exact imp_congr_right fun _ => and_congr_left' ne_comm

/-! ## The fork -/

variable {parent child : Agent} {prometheusEnabled : Bool}

/-- What is known of the forking thread when the new thread starts. -/
structure Ready (s : Child) : Prop where
  closing : Closing s.process.thread
  lifecycle : Lifecycle.Inv s.process.thread
  withSocket : WithSocket s.process

theorem Ready.next (h : Ready p) (hs : childStep p e = some q) : Ready q where
  closing := closing_next h.closing hs
  lifecycle := lifecycle_next h.lifecycle (childStep_process hs)
  withSocket := h.withSocket.next (childStep_process hs)

theorem Ready.run (h : Ready p) (hs : run childStep p events = some q) : Ready q :=
  along_iff_reached.mp (along_of_step (fun _ _ _ h hs => h.next hs) h events) events
    (List.prefix_refl _) q hs

/-- A collector's agent while it connects for the first time. -/
def connecting : Agent :=
  { Agent.construct false true with
    process := ⟨{ EventLoop.init true with
      controller := { EventLoop.construct false true with backoffTimeInMs := 1000 }
      network := ⟨false, false, true, true, false, ⟨true, 0⟩⟩
      place := .connecting }, false, 0, 0⟩ }

end Opsian.Fork.Reset
