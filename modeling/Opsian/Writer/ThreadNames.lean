import Mathlib.Logic.Function.Basic
import Opsian.Lib.Runs
import Opsian.Writer.Envelopes

/-! # The names of threads

A thread's name is asked for once for each key of `threadIdToInformation`, which is the
thread's `pthread_t` cut to an `int`. Threads come and go, and the C library gives the
`pthread_t` of one that is gone to another. -/
namespace Opsian.Writer.ThreadNames
open Opsian.Lib.Runs Opsian.Writer.Envelopes Opsian.Writer.Messages

/-- The threads, by numbers that are never used again, and the log writer. -/
structure State where
  /-- The `pthread_t` that each thread was given, in the order in which they were created. -/
  threads : List UInt64
  /-- The thread that has a `pthread_t` now. -/
  alive : UInt64 → Option Nat
  /-- What `pthread_getname_np` answers now. -/
  nameAnswer : UInt64 → NameAnswer
  writer : Envelopes.State
  /-- The traces recorded so far, with the answer there was for each at the time. -/
  recorded : List (UInt64 × NameAnswer)
  /-- The name of the thread whose trace was recorded last, if it was alive then. -/
  expected : Option String
  /-- The samples handed over to the network, with what was expected of each. -/
  samples : List (StackSample × Option String)

def init : State where
  threads := []
  alive := fun _ => none
  nameAnswer := fun _ => .error
  writer := Envelopes.init
  recorded := []
  expected := none
  samples := []

inductive Label where
  | created (threadId : UInt64) (answer : NameAnswer)
  | exited (threadId : UInt64)
  /-- The thread is renamed, or there is another answer for some other reason. -/
  | answers (threadId : UInt64) (answer : NameAnswer)
  /-- A trace of a thread. -/
  | recordStackTrace (thread : Nat) (c : StackTrace)
  /-- Whatever else the log writer does. -/
  | writer (a : Envelopes.Label)

/-- The name that a trace's sample should carry. -/
def expectedName (s : State) (thread : Nat) (c : StackTrace) : Option String :=
  if s.alive c.trace.threadId = some thread then some c.nameAnswer.threadName else none

def samplesOf (ms : List AgentEnvelope) : List StackSample :=
  ms.filterMap fun
    | .stackSample sample => some sample
    | _ => none

def isRecordStackTrace : Envelopes.Label → Bool
  | .recordStackTrace _ => true
  | _ => false

/-- Another step of the log writer, with what it hands over. -/
def written (s : State) (x : List AgentEnvelope × Envelopes.State) : State :=
  { s with
    writer := x.2
    samples := s.samples ++ (samplesOf x.1).map fun sample => (sample, s.expected) }

def step (s : State) : Label → Option State
  | .created threadId answer =>
    if s.alive threadId = none then
      some { s with
        threads := s.threads ++ [threadId]
        alive := Function.update s.alive threadId (some s.threads.length)
        nameAnswer := Function.update s.nameAnswer threadId answer }
    else none
  | .exited threadId => some { s with alive := Function.update s.alive threadId none }
  | .answers threadId answer =>
    some { s with nameAnswer := Function.update s.nameAnswer threadId answer }
  | .recordStackTrace thread c =>
    if s.threads[thread]? = some c.trace.threadId ∧
        c.nameAnswer = s.nameAnswer c.trace.threadId then
      (Envelopes.step .reused s.writer (.recordStackTrace c)).map fun x =>
        { s with
          writer := x.2
          recorded := s.recorded ++ [(c.trace.threadId, c.nameAnswer)]
          expected := expectedName s thread c }
    else none
  | .writer a =>
    if isRecordStackTrace a then none else (Envelopes.step .reused s.writer a).map (written s)

/-- The sample that is filled in carries its own thread's name, and so does each that was
handed over. -/
def Named (s : State) : Prop :=
  (s.writer.walk ≠ none → ∀ name, s.expected = some name →
    s.writer.frameAgentEnvelope.mutableStackSample.threadName = name) ∧
  ∀ sample name, (sample, some name) ∈ s.samples → sample.threadName = name

/-- The first trace recorded with the same lower half of its `pthread_t`. -/
def earliest (s : State) (threadId : UInt64) : Option (UInt64 × NameAnswer) :=
  s.recorded.find? fun x => toInt32 x.1 == toInt32 threadId

/-- Of a living thread's trace, the earliest with the same key was answered the same name. -/
def Shared (s : State) : Label → Prop
  | .recordStackTrace thread c =>
    s.alive c.trace.threadId = some thread → ∀ x, earliest s c.trace.threadId = some x →
      x.2.threadName = c.nameAnswer.threadName
  | _ => True

/-- The map keeps the earliest answers. -/
def Cached (s : State) : Prop :=
  ∀ threadId, s.writer.threadIdToInformation.lookup (toInt32 threadId) =
    (earliest s threadId).map fun x => x.2.threadName

variable {s t : State} {w w' : Envelopes.State} {ms : List AgentEnvelope}

/-! ## The log writer -/

/-- A step that begins no sample: it changes no name, and hands over the sample in progress
at most. -/
structure Keeps (w : Envelopes.State) (x : List AgentEnvelope × Envelopes.State) : Prop where
  map : x.2.threadIdToInformation = w.threadIdToInformation
  walk : x.2.walk ≠ none → w.walk ≠ none ∧
    x.2.frameAgentEnvelope.mutableStackSample.threadName =
      w.frameAgentEnvelope.mutableStackSample.threadName
  samples : ∀ sample ∈ samplesOf x.1, w.walk ≠ none ∧
    sample.threadName = w.frameAgentEnvelope.mutableStackSample.threadName

theorem keeps_of_idle {x y : List AgentEnvelope × Envelopes.State} (h : idle w x = some y)
    (hmap : x.2.threadIdToInformation = w.threadIdToInformation) (hwalk : x.2.walk = w.walk)
    (hsamples : samplesOf x.1 = []) : Keeps w y := by
  obtain ⟨hnone, rfl⟩ := idle_eq_some.mp h
  refine ⟨hmap, fun hw => absurd (hwalk.trans hnone) hw, fun sample hmem => ?_⟩
  rw [hsamples] at hmem
  cases hmem

theorem keeps_of_same {x : List AgentEnvelope × Envelopes.State}
    (hmap : x.2.threadIdToInformation = w.threadIdToInformation) (hwalk : x.2.walk = w.walk)
    (hframe : x.2.frameAgentEnvelope = w.frameAgentEnvelope) (hsamples : samplesOf x.1 = []) :
    Keeps w x := by
  refine ⟨hmap, fun hw => ⟨hwalk ▸ hw, by rw [hframe]⟩, fun sample hmem => ?_⟩
  rw [hsamples] at hmem
  cases hmem

theorem samplesOf_stashed (k : Supply) (e : AgentEnvelope) (ns : List Notification) :
    samplesOf (stashedEnvelopes k e ns) = [] := by
  rw [stashedEnvelopes_eq, samplesOf, List.filterMap_map, List.filterMap_eq_nil_iff]
  exact fun _ _ => rfl

theorem keeps_of_step {a : Envelopes.Label} {x : List AgentEnvelope × Envelopes.State}
    (ha : ¬ isRecordStackTrace a = true) (h : Envelopes.step .reused w a = some x) :
    Keeps w x := by
  cases a with
  | recordStackTrace c => exact absurd rfl ha
  | lookedUp locations =>
    obtain ⟨_, _, _, _, hwalk, rfl⟩ := step_lookedUp h
    exact ⟨rfl, fun _ => ⟨by rw [hwalk]; exact Option.some_ne_none _, rfl⟩, nofun⟩
  | endStackTrace =>
    obtain ⟨_, _, hwalk, rfl⟩ := step_endStackTrace h
    refine ⟨rfl, fun hw => absurd rfl hw, fun sample hmem => ?_⟩
    obtain rfl := List.mem_singleton.mp hmem
    exact ⟨by rw [hwalk]; exact Option.some_ne_none _, rfl⟩
  | onNewFile | onNewFunction | recordAllocationTable | sendHeartbeat
  | onAgentStatisticsTimer | onDisconnect =>
    cases h
    exact keeps_of_same rfl rfl rfl rfl
  | recordNotification category initialPayload value =>
    unfold Envelopes.step recordNotification at h
    by_cases hconnected : w.isConnected = true
    · simp only [if_pos hconnected] at h
      exact keeps_of_idle h rfl rfl rfl
    · simp only [if_neg hconnected] at h
      exact keeps_of_idle h rfl rfl rfl
  | recordMetricInformation | recordMetricSamples | recordConstantMetricsComplete
  | recordAllocation => exact keeps_of_idle h rfl rfl rfl
  | onSampleRate controller first =>
    cases first with
    | true =>
      cases h
      exact keeps_of_same rfl rfl rfl (samplesOf_stashed _ _ _)
    | false =>
      cases h
      exact keeps_of_same rfl rfl rfl rfl

/-! ## One step -/

/-- What the threads do, and what the log writer does between samples. -/
theorem Cached.of_eq (h : Cached s) (hrecorded : t.recorded = s.recorded)
    (hmap : t.writer.threadIdToInformation = s.writer.threadIdToInformation) : Cached t := by
  intro threadId
  unfold earliest
  rw [hmap, hrecorded]
  exact h threadId

theorem Named.of_eq (h : Named s) (hwriter : t.writer = s.writer)
    (hexpected : t.expected = s.expected) (hsamples : t.samples = s.samples) : Named t := by
  unfold Named
  rw [hwriter, hexpected, hsamples]
  exact h

theorem Named.written (h : Named s) {x : List AgentEnvelope × Envelopes.State}
    (hx : Keeps s.writer x) : Named (written s x) := by
  refine ⟨fun hwalk name hname => ?_, fun sample name hmem => ?_⟩
  · obtain ⟨hwas, hsame⟩ := hx.walk hwalk
    exact hsame.trans (h.1 hwas name hname)
  · rcases List.mem_append.mp hmem with hold | hnew
    · exact h.2 sample name hold
    · obtain ⟨sample', hsample, he⟩ := List.mem_map.mp hnew
      obtain ⟨rfl, hname⟩ := Prod.mk.inj he
      obtain ⟨hwas, hsame⟩ := hx.samples sample' hsample
      exact hsame.trans (h.1 hwas name hname)

/-- What a record step leaves. -/
theorem record_eq_some {thread : Nat} {c : StackTrace}
    (hs : step s (.recordStackTrace thread c) = some t) :
    t = { s with
      writer := Envelopes.recordStackTrace .reused s.writer c
      recorded := s.recorded ++ [(c.trace.threadId, c.nameAnswer)]
      expected := expectedName s thread c } := by
  obtain ⟨-, hs⟩ := Option.ite_none_right_eq_some.mp hs
  obtain ⟨x, hx, rfl⟩ := Option.map_eq_some_iff.mp hs
  obtain ⟨-, rfl⟩ := Option.ite_some_none_eq_some.mp (hx : idle _ _ = some x)
  rfl

/-- A name that is not in the map yet is behind the others. -/
theorem Cached.record (h : Cached s) (c : StackTrace) {x : Option String} :
    Cached { s with
      writer := Envelopes.recordStackTrace .reused s.writer c
      recorded := s.recorded ++ [(c.trace.threadId, c.nameAnswer)]
      expected := x } := by
  intro threadId
  have hc := h c.trace.threadId
  have ht := h threadId
  change (threadName s.writer c.trace.threadId c.nameAnswer).2.lookup _ = _
  unfold earliest at hc ht ⊢
  unfold threadName
  rw [List.find?_append]
  cases hlookup : s.writer.threadIdToInformation.lookup (toInt32 c.trace.threadId) with
  | some name =>
    -- The map stays as it is, and there was a trace with this key before.
    rw [ht]
    by_cases hkey : toInt32 c.trace.threadId = toInt32 threadId
    · rw [hkey] at hlookup hc
      rw [hlookup] at hc
      obtain ⟨y, hy, -⟩ := Option.map_eq_some_iff.mp hc.symm
      rw [hy, Option.some_or]
    · have hnone : [(c.trace.threadId, c.nameAnswer)].find?
          (fun x => toInt32 x.1 == toInt32 threadId) = none := by simp [hkey]
      rw [hnone, Option.or_none]
  | none =>
    simp only
    rw [List.lookup_append, ht]
    by_cases hkey : toInt32 c.trace.threadId = toInt32 threadId
    · rw [hkey] at hlookup hc
      rw [hlookup] at hc
      rw [Option.map_eq_none_iff.mp hc.symm]
      simp [hkey]
    · have hnone : [(c.trace.threadId, c.nameAnswer)].find?
          (fun x => toInt32 x.1 == toInt32 threadId) = none := by simp [hkey]
      have hnone' : [(toInt32 c.trace.threadId, c.nameAnswer.threadName)].lookup
          (toInt32 threadId) = none := by
        rw [List.lookup_cons, beq_false_of_ne (Ne.symm hkey)]
        rfl
      rw [hnone, hnone', Option.or_none, Option.or_none]

theorem threadName_eq (h : Cached s) (threadId : UInt64) (answer : NameAnswer) :
    (threadName s.writer threadId answer).1 =
      ((earliest s threadId).map fun x => x.2.threadName).getD answer.threadName := by
  rw [← h threadId]
  unfold threadName
  cases s.writer.threadIdToInformation.lookup (toInt32 threadId) <;> rfl

/-- A trace's sample carries its thread's name exactly when the key is shared with none, or
with one of the same name. -/
theorem shared_iff (h : Cached s) (thread : Nat) (c : StackTrace) :
    Shared s (.recordStackTrace thread c) ↔
      ∀ name, expectedName s thread c = some name →
        (threadName s.writer c.trace.threadId c.nameAnswer).1 = name := by
  rw [threadName_eq h]
  unfold Shared expectedName
  by_cases halive : s.alive c.trace.threadId = some thread
  · simp only [halive, if_true, Option.some.injEq, forall_const]
    cases earliest s c.trace.threadId <;> simp
  · simp [halive]

theorem next {a : Label} (h : Cached s ∧ Named s) (hok : Shared s a) (hs : step s a = some t) :
    Cached t ∧ Named t := by
  obtain ⟨hcached, hnamed⟩ := h
  cases a with
  | created threadId answer =>
    obtain ⟨-, rfl⟩ := Option.ite_some_none_eq_some.mp hs
    exact ⟨hcached.of_eq rfl rfl, hnamed.of_eq rfl rfl rfl⟩
  | exited | answers =>
    cases hs
    exact ⟨hcached.of_eq rfl rfl, hnamed.of_eq rfl rfl rfl⟩
  | recordStackTrace thread c =>
    obtain rfl := record_eq_some hs
    refine ⟨hcached.record c, fun _ => (shared_iff hcached thread c).mp hok, hnamed.2⟩
  | writer a =>
    obtain ⟨ha, hs⟩ := Option.ite_none_left_eq_some.mp hs
    obtain ⟨x, hx, rfl⟩ := Option.map_eq_some_iff.mp hs
    have hkeeps := keeps_of_step ha hx
    exact ⟨hcached.of_eq rfl hkeeps.map, hnamed.written hkeeps⟩

theorem shared_of_next {a : Label} (h : Cached s) (hs : step s a = some t) (ht : Named t) :
    Shared s a := by
  cases a with
  | recordStackTrace thread c =>
    obtain rfl := record_eq_some hs
    exact (shared_iff h thread c).mpr fun name hname => ht.1 (Option.some_ne_none _) name hname
  | _ => trivial

/-- **Each sample carries its own thread's name** if and only if, of all traces with the same
lower half of their `pthread_t`, the first was answered the name that each of the living
threads among them has. -/
theorem named_iff_shared (labels : List Label) :
    Along step Named init labels ↔ Steps step Shared init labels :=
  along_iff_steps (I := fun s => Cached s ∧ Named s) (fun _ _ _ h hok hs => next h hok hs)
    (fun _ h => h.2) (fun _ _ _ h _ hs ht => shared_of_next h.1 hs ht)
    ⟨fun _ => rfl, fun h => absurd rfl h, nofun⟩

/-- A trace without frames. -/
def emptyTrace (threadId : UInt64) (name : String) : StackTrace :=
  ⟨⟨0, 0⟩, ⟨0, threadId, []⟩, 27, 0, .valid name⟩

/-- Of two threads whose ids have the same lower half, the second is given the name of the
first. -/
theorem name_of_another : ¬ Along step Named init
    [.created 0x7f00a0000700 (.valid "main"), .created 0x7f01a0000700 (.valid "worker"),
      .recordStackTrace 0 (emptyTrace 0x7f00a0000700 "main"), .writer .endStackTrace,
      .recordStackTrace 1 (emptyTrace 0x7f01a0000700 "worker"), .writer .endStackTrace] := by
  refine not_along_of_run (List.prefix_refl _) rfl fun h => ?_
  exact absurd (h.2 _ "worker" (List.mem_cons_of_mem _ List.mem_cons_self)) (by decide)

end Opsian.Writer.ThreadNames
