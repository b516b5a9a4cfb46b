import Opsian.Metrics.Loop
import Opsian.Queue.Owners

/-! # What a forked child waits for

Memory is copied as it is, but of the threads only the forking one is left.
`Profiler::on_fork` writes neither the queues nor `readersMutex`, so whatever another
thread was in the middle of stays so in the child. -/
namespace Opsian.Fork.Inherited
open Opsian.Lib Opsian.Lib.Runs Opsian.Queue.InternalQueue Opsian.Queue

inductive QueueId where
  | main
  | allocation
  | stack
  deriving DecidableEq, Repr

def QueueId.size : QueueId → Nat
  | .main => 2048
  | .allocation => 32768
  | .stack => 2048

/-- The queues with their producers and the processor as their consumer, the metrics
thread, and `readersMutex`. -/
structure Process (P : Type) where
  queues : QueueId → State P
  metrics : Metrics.Loop.State
  /-- The processor is inside `enable` or `disable`. -/
  processorInside : Bool
  /-- The mutex was locked by a thread that a fork has left behind. -/
  orphaned : Bool

def init (P : Type) : Process P where
  queues := fun _ => InternalQueue.init P
  metrics := Metrics.Loop.init
  processorInside := false
  orphaned := false

inductive Label (P : Type) where
  | queue (id : QueueId) (a : InternalQueue.Label P)
  | metrics (a : Metrics.Loop.Action)
  /-- `onMetricsExit`. -/
  | exit
  /-- The processor locks the mutex in `enable` or `disable`. -/
  | enter
  | enable
  | disable
  /-- The run goes on in the child, behind `Profiler::on_fork`. -/
  | fork
  deriving DecidableEq, Repr

variable {P : Type}

/-- `readersMutex` is held. -/
def Process.held (s : Process P) : Bool :=
  s.metrics.pc.locked || s.processorInside || s.orphaned

/-- A queue's words are as they were; its producers and its consumer begin anew. -/
def forkQueue (q : State P) : State P :=
  { q with
    writers := fun _ => .start
    reader := .start
    returned := q.returned.take q.released }

/-- The main queue's records stay in the metrics thread's view of it. -/
def Process.onFork (s : Process P) : Process P where
  queues id := forkQueue (s.queues id)
  metrics := { Metrics.Loop.init with queue := s.metrics.queue }
  processorInside := false
  orphaned := s.held

/-- The metrics thread is about to lock the mutex. -/
def locks : Metrics.Loop.Pc → Bool
  | .lock | .lockPoll => true
  | _ => false

section Steps
variable [DecidableEq P]

def step (s : Process P) : Label P → Option (Process P)
  | .queue id a =>
    (InternalQueue.step id.size (s.queues id) a).map fun q =>
      { s with queues := Function.update s.queues id q }
  | .metrics a =>
    if locks s.metrics.pc && s.held then none
    else (Metrics.Loop.threadStep s.metrics s.metrics.pc a).map fun m => { s with metrics := m }
  | .exit => some { s with metrics := { s.metrics with running := false } }
  | .enter => if s.held then none else some { s with processorInside := true }
  | .enable =>
    if s.processorInside then
      some { s with metrics := Metrics.Loop.enable s.metrics, processorInside := false }
    else none
  | .disable =>
    if s.processorInside then
      some { s with metrics := Metrics.Loop.disable s.metrics, processorInside := false }
    else none
  | .fork => some s.onFork

end Steps

/-- Every slot between `output` and `input` is committed, and the mutex is free. -/
structure Ready (s : Process P) : Prop where
  committed : ∀ id, ∀ i ∈ Ring.window (capacity (QueueId.size id)) (s.queues id).output
    (s.queues id).input, (s.queues id).isCommitted i = true
  free : s.held = false

/-- A fork leaves nothing to wait for. -/
def Sound (s : Process P) : Label P → Prop
  | .fork => Ready s.onFork
  | _ => True

/-- No producer is between its claim and its commit, the processor not between the two
stores of `commitRead`, and neither it nor the metrics thread holds the mutex. -/
structure Settled (s : Process P) : Prop where
  writers : ∀ id p i r, ¬ ((s.queues id).writers p).Holds i r
  reader : ∀ id i, (s.queues id).reader ≠ .uncommitted i
  metrics : s.metrics.pc.locked = false
  processor : s.processorInside = false

/-- A fork finds nobody in the middle of anything. -/
def Quiet (s : Process P) : Label P → Prop
  | .fork => Settled s
  | _ => True

/-- The step is not a claim on a full queue. -/
def NotFull (s : Process P) : Label P → Prop
  | .queue id a => Safety.NotFull id.size (s.queues id) a
  | _ => True

/-! ## Each queue for itself -/

variable {s t : Process P}

theorem Settled.not_orphaned (h : Settled s) (ho : s.orphaned = false) : s.held = false := by
  rw [Process.held, h.metrics, h.processor, ho]
  rfl

theorem Settled.owners (h : Settled s) {id : QueueId} (hi : Owners.Inv id.size (s.queues id)) :
    Owners.Inv id.size (forkQueue (s.queues id)) where
  output := hi.output
  input := hi.input
  loaded := nofun
  accounted i hb := by
    have hmem := hb.resolve_right fun hr => Owners.not_reading_start hr.1
    exact .inl (hi.committed (h.writers id) (h.reader id) i hmem)

/-- The records that the child finds are all there, and none of them has been read. -/
theorem Settled.safety (h : Settled s) {id : QueueId} (hi : Safety.Inv id.size (s.queues id)) :
    Safety.Inv id.size (forkQueue (s.queues id)) := by
  have hcount := hi.counters
  have hle := hi.returned_le
  have hlen : (forkQueue (s.queues id)).returned.length = (s.queues id).released := by
    rw [forkQueue, List.length_take]
    omega
  have hcleared : (s.queues id).cleared = (s.queues id).released := by
    have hphase := hi.phase
    have hreader := h.reader id
    unfold Safety.Phase at hphase
    split at hphase
    · exact hphase.2
    · exact hphase.2.2
    · exact hphase.2.2
    · exact hphase.2.2
    · exact absurd (by assumption) (hreader _)
  have hnone (p : P) (i r : Nat) : ¬ ((forkQueue (s.queues id)).writers p).Holds i r :=
    Writer.not_holds_start
  exact { hi with
    phase := ⟨hlen, hcleared⟩
    returned := by
      rw [hlen]
      show (s.queues id).returned.take (s.queues id).released = _
      conv_lhs => rw [hi.returned]
      rw [← List.map_take, List.take_range, Nat.min_eq_left (by omega)]
    returned_le := by rw [hlen]; exact Nat.le_trans (by omega) hle
    returned_committed := by
      intro r hr
      rw [hlen] at hr
      exact hi.returned_committed r (by omega)
    holds := fun p i r hp => absurd hp (hnone p i r)
    filled := nofun
    distinct := fun p q i j r hp => absurd hp (hnone p i r) }

section Steps
variable [DecidableEq P]

/-- What every step of a queue preserves of it, and a fork that is quiet, every step
preserves. -/
theorem each_next {I : QueueId → State P → Prop} {a : Label P}
    (hnext : ∀ id b q, a = .queue id b → I id (s.queues id) →
      InternalQueue.step id.size (s.queues id) b = some q → I id q)
    (hfork : a = .fork → ∀ id, I id (s.queues id) → I id (forkQueue (s.queues id)))
    (h : ∀ id, I id (s.queues id)) (hs : step s a = some t) : ∀ id, I id (t.queues id) := by
  cases a with
  | queue id b =>
    obtain ⟨q, hq, rfl⟩ := Option.map_eq_some_iff.mp hs
    intro id'
    show I id' (Function.update s.queues id q id')
    by_cases he : id' = id
    · subst he
      rw [Function.update_self]
      exact hnext id' b q rfl (h id') hq
    · rw [Function.update_of_ne he]
      exact h id'
  | metrics b =>
    obtain ⟨-, hs⟩ := Option.ite_none_left_eq_some.mp hs
    obtain ⟨m, -, rfl⟩ := Option.map_eq_some_iff.mp hs
    exact h
  | exit =>
    cases hs
    exact h
  | enter =>
    obtain ⟨-, hs⟩ := Option.ite_none_left_eq_some.mp hs
    cases hs
    exact h
  | enable =>
    obtain ⟨-, rfl⟩ := Option.ite_some_none_eq_some.mp hs
    exact h
  | disable =>
    obtain ⟨-, rfl⟩ := Option.ite_some_none_eq_some.mp hs
    exact h
  | fork =>
    cases hs
    exact fun id => hfork rfl id (h id)

/-- Only a fork leaves the mutex behind. -/
theorem orphaned_next {a : Label P} (h : s.orphaned = false) (hq : Quiet s a)
    (hs : step s a = some t) : t.orphaned = false := by
  cases a with
  | queue id b =>
    obtain ⟨q, -, rfl⟩ := Option.map_eq_some_iff.mp hs
    exact h
  | metrics b =>
    obtain ⟨-, hs⟩ := Option.ite_none_left_eq_some.mp hs
    obtain ⟨m, -, rfl⟩ := Option.map_eq_some_iff.mp hs
    exact h
  | exit =>
    cases hs
    exact h
  | enter =>
    obtain ⟨-, hs⟩ := Option.ite_none_left_eq_some.mp hs
    cases hs
    exact h
  | enable =>
    obtain ⟨-, rfl⟩ := Option.ite_some_none_eq_some.mp hs
    exact h
  | disable =>
    obtain ⟨-, rfl⟩ := Option.ite_some_none_eq_some.mp hs
    exact h
  | fork =>
    cases hs
    exact hq.not_orphaned h

/-! ## Runs -/

/-- Every slot that is not committed has somebody at work on it, and the mutex its holder. -/
def Inv (s : Process P) : Prop :=
  (∀ id : QueueId, Owners.Inv id.size (s.queues id)) ∧ s.orphaned = false

theorem Inv.next {a : Label P} (h : Inv s) (hq : Quiet s a) (hs : step s a = some t) : Inv t := by
  refine ⟨each_next (I := fun id => Owners.Inv id.size) ?_ ?_ h.1 hs, orphaned_next h.2 hq hs⟩
  · intro id b q _ hi hb
    exact hi.next hb
  · rintro rfl id hi
    exact hq.owners hi

omit [DecidableEq P] in
theorem Inv.sound {a : Label P} (h : Inv s) (hq : Quiet s a) : Sound s a := by
  cases a with
  | fork =>
    refine ⟨fun id => ?_, ?_⟩
    · exact (h.1 id).committed (hq.writers id) (hq.reader id)
    · exact hq.not_orphaned h.2
  | _ => trivial

def InOrder (s : Process P) : Prop := ∀ id : QueueId, Safety.Inv id.size (s.queues id)

omit [DecidableEq P] in
/-- Where the queues are in order, a fork that leaves nothing to wait for was quiet. -/
theorem InOrder.quiet {a : Label P} (h : InOrder s) (hs : Sound s a) : Quiet s a := by
  cases a with
  | fork =>
    have hheld : s.held = false := (Bool.or_eq_false_iff.mp hs.free).2
    have hfree := (Bool.or_eq_false_iff.mp hheld).1
    refine ⟨fun id p i r hp => ?_, fun id i hr => ?_, ?_, ?_⟩
    · obtain ⟨hmem, hnot⟩ := Owners.uncommitted_of_holds (h id) hp
      exact hnot (hs.committed id i hmem)
    · obtain ⟨hmem, hnot⟩ := Owners.uncommitted_of_reader (h id) hr
      exact hnot (hs.committed id i hmem)
    · exact (Bool.or_eq_false_iff.mp hfree).1
    · exact (Bool.or_eq_false_iff.mp hfree).2
  | _ => trivial

theorem InOrder.next {a : Label P} (h : InOrder s) (hfull : NotFull s a) (hq : Quiet s a)
    (hs : step s a = some t) : InOrder t := by
  refine each_next (I := fun id => Safety.Inv id.size) ?_ ?_ h hs
  · intro id b q ha hi hb
    subst ha
    exact hi.next hfull hb
  · rintro rfl id hi
    exact hq.safety hi

/-- **Forks leave nothing to wait for** in every run whose forks find nobody in the
middle of anything; and where no claim is made on a full queue, only in these. -/
theorem sound_of_quiet (labels : List (Label P)) :
    (Steps step Quiet (init P) labels → Steps step Sound (init P) labels) ∧
      (Steps step NotFull (init P) labels → Steps step Sound (init P) labels →
        Steps step Quiet (init P) labels) := by
  constructor
  · intro h
    exact h.transfer (I := Inv) (fun _ _ _ hi hq hs => hi.next hq hs) (fun _ _ hi hq => hi.sound hq)
      ⟨fun _ => Owners.init_inv, rfl⟩
  · intro hfull h
    refine (hfull.and h).transfer (I := InOrder) (fun _ _ _ hi hok hs => ?_)
      (fun _ _ hi hok => hi.quiet hok.2) (fun _ => Safety.init_inv)
    exact hi.next hok.1 (hi.quiet hok.2) hs

end Steps

/-- A producer's next step at the stack queue. -/
def produce : Label Unit := .queue .stack (.producer ())

/-- A fork behind a whole push, from the load of `input` to the commit. -/
theorem push_sound : Steps step Sound (init Unit)
    [produce, produce, produce, produce, produce, .fork] := by
  refine (sound_of_quiet _).1 ?_
  refine .cons rfl trivial (.cons rfl trivial (.cons rfl trivial (.cons rfl trivial (.cons rfl
    trivial (.cons rfl ⟨fun id p i r hp => ?_, fun id i hi => ?_, rfl, rfl⟩ trivial)))))
  · cases id <;> rcases hp with hp | hp <;> cases hp
  · cases id <;> cases hi

/-- A producer has claimed a slot when another thread forks. -/
theorem claim_inherited : ¬ Steps step Sound (init Unit) [produce, produce, produce, .fork] := by
  intro h
  have hfork := (((h _ rfl).2 _ rfl).2 _ rfl).2
  have hready : Ready _ := (hfork _ rfl).1
  cases hready.committed .stack 0 (by decide)

end Opsian.Fork.Inherited
