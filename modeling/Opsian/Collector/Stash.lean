import Mathlib.Data.List.Nodup
import Opsian.Collector.Exclusion
import Opsian.Collector.Session

/-! # Stashed notifications

The first `SampleRate` of a connection sends the stash and clears it. The loop does not
look at what becomes of its sends: what one of them does not write is gone. -/
namespace Opsian.Collector.Stash
open Opsian.Lib.Runs Opsian.Lib.History Opsian.Collector.EventLoop Opsian.Collector.Transitions
open Opsian.Collector.Session

/-- A stashed notification is in the stash or was written once, in the order of stashing. -/
def Kept (x : State × History) : Prop :=
  (∀ i < x.2.stashed, i ∈ stash x.1 x.2 ∨ x.2.written.count i = 1) ∧
    x.2.written.Pairwise (· < ·)

/-- No send of a stashed notification is refused or fails. -/
def Delivered (x : State × History) : Label → Prop
  | .run => ∀ i l, x.1.todo = .send :: l → x.2.pending.head? = some (.stashed i) →
      x.1.network.isConnected = true ∧ x.1.network.isSending = false
  | .written result => ∀ i, x.2.writing = some (.stashed i) → result = .ok
  | _ => True

/-- The stashed notifications among the messages. -/
def numbers (ms : List AgentEnvelope) : List Nat :=
  ms.filterMap fun
    | .stashed i => some i
    | _ => none

/-- Between two calls of `sendStashedNotifications`. -/
structure Resting (x : State × History) : Prop where
  todo : .clearNotifications ∉ x.1.todo
  pending : ∀ i, .stashed i ∉ x.2.pending
  writing : ∀ i, x.2.writing ≠ some (.stashed i)
  written : x.2.written = List.range (x.2.stashed - x.1.controller.notifications.length)

/-- In a call: `before` and `ms` are left to do before the stash is cleared. -/
structure Sending (before behind : List Instr) (ms rest : List AgentEnvelope)
    (x : State × History) : Prop where
  todo : x.1.todo = before ++ .clearNotifications :: behind
  notBefore : .clearNotifications ∉ before
  notBehind : .clearNotifications ∉ behind
  pending : x.2.pending = ms ++ rest
  length : ms.length = sends before
  others : ∀ i, .stashed i ∉ rest
  writing : ∀ i, x.2.writing = some (.stashed i) → .awaitWrite ∈ before
  written : x.2.written ++ (numbers x.2.writing.toList ++ numbers ms) = List.range x.2.stashed
  stash : x.2.stashed - x.1.controller.notifications.length ≤ x.2.written.length
  state : x.1.controller.state ≠ .sentHello

def Phase (x : State × History) : Prop :=
  Resting x ∨ ∃ before behind ms rest, Sending before behind ms rest x

structure Inv (x : State × History) : Prop where
  exclusion : Exclusion.Inv x.1
  size : x.1.controller.notifications.length ≤ x.2.stashed
  phase : Phase x

variable {s t : State} {g g' : History} {before before' behind l : List Instr}
  {ms rest : List AgentEnvelope}

theorem init_inv (on : Bool) : Inv (init on, start) where
  exclusion := Exclusion.init_inv on
  size := Nat.le_refl _
  phase := .inl ⟨List.not_mem_nil, fun _ => List.not_mem_nil, nofun, rfl⟩

/-! ## What was written -/

theorem eq_range_of_append {l l' : List Nat} {n : Nat} (h : l ++ l' = List.range n) :
    l = List.range l.length ∧ l.length ≤ n := by
  have hlength : l.length + l'.length = n := by simpa using congrArg List.length h
  have htake : l = (List.range n).take l.length := by rw [← h, List.take_left]
  rw [List.take_range, Nat.min_eq_left (by omega)] at htake
  exact ⟨htake, by omega⟩

theorem kept_of_range (hs : s.controller.notifications.length ≤ g.stashed) {n : Nat}
    (hw : g.written = List.range n) (hn : g.stashed - s.controller.notifications.length ≤ n) :
    Kept (s, g) := by
  refine ⟨fun i hi => ?_, ?_⟩
  · by_cases hin : i < n
    · right
      show g.written.count i = 1
      rw [hw]
      exact List.count_eq_one_of_mem List.nodup_range (List.mem_range.mpr hin)
    · left
      have hi' : i < g.stashed := hi
      refine List.mem_range'_1.mpr ?_
      show g.stashed - s.controller.notifications.length ≤ i ∧
        i < g.stashed - s.controller.notifications.length + s.controller.notifications.length
      omega
  · show g.written.Pairwise _
    rw [hw]
    exact List.pairwise_lt_range

theorem Inv.kept {x : State × History} (h : Inv x) : Kept x := by
  rcases h.phase with hr | ⟨before, behind, ms, rest, hs⟩
  · exact kept_of_range h.size hr.written (Nat.le_refl _)
  · exact kept_of_range h.size (eq_range_of_append hs.written).1 hs.stash

/-! ## Outside a call -/

theorem Resting.of_kept (h : Resting (s, g))
    (htodo : .clearNotifications ∈ t.todo → .clearNotifications ∈ s.todo)
    (hpending : ∀ i, .stashed i ∈ g'.pending → .stashed i ∈ g.pending)
    (hwriting : ∀ i, g'.writing = some (.stashed i) → g.writing = some (.stashed i))
    (hwritten : g'.written = g.written)
    (hstash : g'.stashed - t.controller.notifications.length =
      g.stashed - s.controller.notifications.length) : Resting (t, g') where
  todo hm := h.todo (htodo hm)
  pending i hm := h.pending i (hpending i hm)
  writing i hw := h.writing i (hwriting i hw)
  written := by
    show g'.written = List.range _
    rw [hwritten, hstash]
    exact h.written

/-- What is to be done is all that changes. -/
theorem Resting.of_todo (h : Resting (s, g))
    (htodo : .clearNotifications ∈ t.todo → .clearNotifications ∈ s.todo)
    (hstash : t.controller.notifications.length = s.controller.notifications.length) :
    Resting (t, g) :=
  h.of_kept htodo (fun _ => id) (fun _ => id) rfl (by rw [hstash])

theorem not_stashed_push (hms : numbers ms = []) {i : Nat}
    (hm : .stashed i ∈ (g.push ms).pending) : .stashed i ∈ g.pending := by
  refine (List.mem_append.mp hm).resolve_left fun hi => ?_
  have hnumber : i ∈ numbers ms := List.mem_filterMap.mpr ⟨_, hi, rfl⟩
  rw [hms] at hnumber
  cases hnumber

theorem Resting.call (h : Resting (s, g)) (ms : List AgentEnvelope) {is : List Instr}
    (his : .clearNotifications ∉ is)
    (htodo : t.todo = is ++ s.rest) (hms : numbers ms = [])
    (hstash : t.controller.notifications = s.controller.notifications) :
    Resting (t, g.push ms) := by
  refine h.of_kept (fun hm => ?_) (fun i => not_stashed_push hms) (fun _ => id) rfl
    (by rw [hstash]; rfl)
  rw [htodo] at hm
  exact State.mem_of_mem_rest ((List.mem_append.mp hm).resolve_left his)

theorem not_mem_sends (n : Nat) : .clearNotifications ∉ List.replicate n Instr.send :=
  fun hm => by cases List.eq_of_mem_replicate hm

theorem numbers_records (n : Nat) : numbers (List.replicate n .record) = [] := by
  simp [numbers]

theorem mem_written {result : Written} (hm : .clearNotifications ∈ (s.written l result).todo) :
    .clearNotifications ∈ l := by
  unfold State.written at hm
  split at hm <;> simpa using hm

theorem endWrite_written (h : ∀ i, g.writing ≠ some (.stashed i)) {result : Written} :
    (g.endWrite result).written = g.written := by
  unfold History.endWrite
  split
  · rename_i i hw
    exact absurd hw (h i)
  · rfl

/-! ## In a call -/

theorem Sending.of_before (h : Sending before behind ms rest (s, g)) {ns : List AgentEnvelope}
    (htodo : t.todo = before' ++ .clearNotifications :: behind)
    (hnot : .clearNotifications ∉ before') (hpending : g'.pending = ns ++ g.pending)
    (hns : numbers ns = []) (hsends : sends before' = ns.length + sends before)
    (hwriting : g'.writing = g.writing) (hwrite : .awaitWrite ∈ before → .awaitWrite ∈ before')
    (hwritten : g'.written = g.written) (hstashed : g'.stashed = g.stashed)
    (hstash : t.controller.notifications = s.controller.notifications)
    (hstate : t.controller.state ≠ .sentHello) :
    Sending before' behind (ns ++ ms) rest (t, g') where
  todo := htodo
  notBefore := hnot
  notBehind := h.notBehind
  pending := by
    show g'.pending = _
    rw [hpending, show g.pending = _ from h.pending, List.append_assoc]
  length := by rw [List.length_append, hsends, h.length]
  others := h.others
  writing i hw := hwrite (h.writing i (hwriting ▸ hw))
  written := by
    have hnumbers : numbers (ns ++ ms) = numbers ms := by
      rw [numbers, List.filterMap_append, show ns.filterMap _ = [] from hns]
      rfl
    show g'.written ++ (numbers g'.writing.toList ++ numbers (ns ++ ms)) = List.range g'.stashed
    rw [hnumbers, hwritten, hwriting, hstashed]
    exact h.written
  stash := by
    show g'.stashed - t.controller.notifications.length ≤ g'.written.length
    rw [hstashed, hstash, hwritten]
    exact h.stash
  state := hstate

/-- The next instruction is one before the clear. -/
theorem Sending.cons (h : Sending before behind ms rest (s, g)) {i : Instr}
    (htodo : s.todo = i :: l) (hi : i ≠ .clearNotifications) :
    ∃ b, before = i :: b ∧ l = b ++ .clearNotifications :: behind := by
  have heq : i :: l = before ++ .clearNotifications :: behind := htodo.symm.trans h.todo
  cases before with
  | nil => exact absurd (List.cons.inj heq).1 hi
  | cons j b =>
    obtain ⟨rfl, hl⟩ := List.cons.inj heq
    exact ⟨b, rfl, hl⟩

theorem rest_before (htodo : s.todo = before ++ .clearNotifications :: behind) :
    ∃ b, s.rest = b ++ .clearNotifications :: behind ∧ sends b = sends before ∧
      (∀ i, i ∈ b → i ∈ before) ∧ (.awaitWrite ∈ before → .awaitWrite ∈ b) := by
  unfold State.rest
  split
  · rename_i l hrun
    cases before with
    | nil => cases hrun.symm.trans htodo
    | cons j b =>
      obtain ⟨rfl, rfl⟩ := List.cons.inj (hrun.symm.trans htodo)
      exact ⟨b, rfl, by simp, fun i => .tail _, fun hm => by simpa using hm⟩
  · exact ⟨before, htodo, rfl, fun i => id, id⟩

theorem Sending.call (h : Sending before behind ms rest (s, g)) (ns : List AgentEnvelope)
    {is : List Instr} (his : .clearNotifications ∉ is) (htodo : t.todo = is ++ s.rest)
    (hns : numbers ns = []) (hlength : sends is = ns.length)
    (hstash : t.controller.notifications = s.controller.notifications)
    (hg : g' = { g with pending := ns ++ g.pending, granted := g'.granted })
    (hstate : t.controller.state ≠ .sentHello) : Phase (t, g') := by
  obtain ⟨b, hrest, hsends, hmem, hwrite⟩ := rest_before h.todo
  refine .inr ⟨is ++ b, behind, ns ++ ms, rest,
    h.of_before (by rw [htodo, hrest, List.append_assoc]) ?_ (by rw [hg]) hns ?_ (by rw [hg]) ?_
      (by rw [hg]) (by rw [hg]) hstash hstate⟩
  · intro hm
    exact (List.mem_append.mp hm).elim his fun hm => h.notBefore (hmem _ hm)
  · rw [sends_append, hsends, hlength]
  · exact fun hm => List.mem_append_right _ (hwrite hm)

/-! ## One step -/

theorem numbers_stashed (ns : List Nat) : numbers (ns.map .stashed) = ns := by
  simp [numbers, List.filterMap_map]

theorem numbers_writing (h : ∀ i, g.writing ≠ some (.stashed i)) :
    numbers g.writing.toList = [] := by
  cases hw : g.writing with
  | none => rfl
  | some m =>
    cases m with
    | stashed i => exact absurd hw (h i)
    | _ => rfl

theorem range_append_stash (hsize : s.controller.notifications.length ≤ g.stashed) :
    List.range (g.stashed - s.controller.notifications.length) ++ stash s g =
      List.range g.stashed := by
  have happend := List.range'_append_1 (s := 0)
    (m := g.stashed - s.controller.notifications.length)
    (n := s.controller.notifications.length)
  rw [Nat.zero_add, Nat.sub_add_cancel hsize] at happend
  rw [stash, List.range_eq_range', List.range_eq_range', happend]

/-- The first `SampleRate` calls `sendStashedNotifications`. -/
theorem Resting.sampleRate (h : Resting (s, g))
    (hsize : s.controller.notifications.length ≤ g.stashed)
    (hstate : s.controller.state = .sentHello) (m : SampleRate) :
    Sending (s.controller.notifications.map fun _ => .send)
      ([.schedule .send, .schedule .receive, .schedule .agentStatistics, .attemptRead] ++ s.rest)
      ((stash s g).map .stashed) g.pending
      (s.onMessage (.sampleRate m),
        note g s (.onMessage (.sampleRate m)) (s.onMessage (.sampleRate m))) where
  todo := by
    show State.firstSampleRate s.controller ++ s.rest = _
    rw [State.firstSampleRate, if_pos hstate, List.append_assoc]
    rfl
  notBefore := by simp
  notBehind hm := by
    rcases List.mem_append.mp hm with hm | hm
    · simp at hm
    · exact h.todo (State.mem_of_mem_rest hm)
  pending := by simp [note, History.push, History.sampleRate, hstate]
  length := by simp [stash, List.map_const']
  others := h.pending
  writing i hw := absurd hw (h.writing i)
  written := by
    show g.written ++ (numbers g.writing.toList ++ _) = List.range g.stashed
    rw [numbers_writing h.writing, numbers_stashed, List.nil_append,
      show g.written = _ from h.written]
    exact range_append_stash hsize
  stash := by
    have hwritten : g.written = _ := h.written
    have hlength : g.written.length = g.stashed - s.controller.notifications.length := by
      rw [hwritten, List.length_range]
    exact Nat.le_of_eq hlength.symm
  state := by
    show (if s.controller.state = .sentHello then .connected else s.controller.state) ≠ _
    rw [if_pos hstate]
    simp

theorem Resting.onTimer (h : Resting (s, g)) (timer : TimerId) :
    Resting (s.onTimer timer, note g s (.onTimer timer) (s.onTimer timer)) := by
  cases timer with
  | receive => exact h.call [] (by simp) rfl rfl rfl
  | _ => exact h.call _ (by simp) rfl rfl rfl

theorem Resting.onMessage (h : Resting (s, g))
    (hsize : s.controller.notifications.length ≤ g.stashed) (m : Message) :
    Phase (s.onMessage m, note g s (.onMessage m) (s.onMessage m)) := by
  cases m with
  | sampleRate m =>
    by_cases hstate : s.controller.state = .sentHello
    · exact .inr ⟨_, _, _, _, h.sampleRate hsize hstate m⟩
    · left
      have hg : note g s (.onMessage (.sampleRate m)) (s.onMessage (.sampleRate m)) =
          g.sampleRate := by simp [note, History.push, hstate]
      rw [hg]
      refine h.of_kept (fun hm => ?_) (fun _ => id) (fun _ => id) rfl rfl
      rw [State.onMessage, State.firstSampleRate, if_neg hstate] at hm
      exact State.mem_of_mem_rest ((List.mem_append.mp hm).resolve_left (by simp))
  | _ => exact .inl (h.call [] (by simp) rfl rfl rfl)

theorem Resting.next {a : Label} (h : Resting (s, g))
    (hsize : s.controller.notifications.length ≤ g.stashed) (hs : step s a = some t) :
    Phase (t, note g s a t) := by
  cases step_transition hs with
  | handOver l htodo hc hsending =>
    left
    rw [note_send htodo, hc, hsending]
    refine h.of_kept (fun hm => ?_) (fun i => List.mem_of_mem_tail) (fun i hw => ?_) rfl rfl
    · exact htodo ▸ List.mem_cons_of_mem _ (by simpa using hm)
    · exact absurd (List.mem_of_mem_head? hw) (h.pending i)
  | refuse l htodo hc hsending =>
    left
    rw [note_send htodo, hc, hsending]
    exact h.of_kept (fun hm => htodo ▸ .tail _ hm) (fun i => List.mem_of_mem_tail) (fun _ => id) rfl
      rfl
  | drop l htodo hc =>
    left
    rw [note_send htodo, hc]
    exact h.of_kept (fun hm => htodo ▸ .tail _ hm) (fun i => List.mem_of_mem_tail) (fun _ => id) rfl
      rfl
  | attemptRead l htodo =>
    left
    rw [note_attemptRead htodo]
    exact h.of_kept (fun hm => htodo ▸ .tail _ hm) (fun _ => id) (fun _ => id) rfl rfl
  | clearNotifications l htodo => exact absurd (htodo ▸ .head _) h.todo
  | endSend l htodo | closeNothing l htodo | deleteSock l htodo | schedule timer l htodo =>
    left
    rw [note_cons htodo (by simp)]
    exact h.of_todo (fun hm => htodo ▸ .tail _ hm) rfl
  | close l htodo | onDisconnect l htodo =>
    left
    rw [note_cons htodo (by simp)]
    exact h.of_todo (fun hm => htodo ▸ List.mem_cons_of_mem _ (by simpa using hm)) rfl
  | sentHello htodo =>
    left
    rw [note_nil htodo]
    exact h.of_todo (by simp [mem_polls]) rfl
  | batch htodo | noBatch htodo =>
    left
    rw [note_nil htodo]
    exact h.of_todo id rfl
  | poll =>
    exact .inl (h.of_todo (by simp [mem_polls]) rfl)
  | stop => exact .inl (h.of_todo (by simp) rfl)
  | unresolved =>
    exact .inl (h.of_todo (by simp [mem_polls]) rfl)
  | connected =>
    exact .inl (h.of_kept (by simp) (by simp [note, History.connect]) (fun _ => id) rfl rfl)
  | unconnected =>
    left
    rw [note_unconnected (by simp)]
    exact h.of_todo (by simp [mem_polls]) rfl
  | written result l htodo =>
    refine .inl (h.of_kept (fun hm => ?_) (fun _ => id) (fun i hw => ?_)
      (endWrite_written h.writing) rfl)
    · rw [htodo]
      exact List.mem_cons_of_mem _ (mem_written hm)
    · cases hw
  | polled l htodo | drained l htodo =>
    exact .inl (h.of_todo (fun hm => htodo ▸ .tail _ hm) rfl)
  | notify n left sends htodo hplace hstate =>
    left
    simp only [note, if_pos hstate]
    have hms : numbers (.notification n :: List.replicate sends .record) = [] :=
      numbers_records sends
    exact h.of_kept (fun hm => absurd hm (not_mem_sends _)) (fun i => not_stashed_push hms)
      (fun _ => id) rfl rfl
  | stash n left sends htodo hplace hstate =>
    left
    simp only [note, if_neg hstate]
    refine h.of_kept (fun hm => absurd hm (not_mem_sends _))
      (fun i => not_stashed_push (numbers_records sends)) (fun _ => id) rfl ?_
    show g.stashed + 1 - (s.controller.notifications ++ [n]).length = _
    simp
  | records left sends htodo =>
    exact .inl (h.of_kept (fun hm => absurd hm (not_mem_sends _))
      (fun i => not_stashed_push (numbers_records sends)) (fun _ => id) rfl rfl)
  | connect | resolved | popped | expire | expireDeadline | exit =>
    exact .inl (h.of_todo id rfl)
  | onTimer timer => exact .inl (h.onTimer timer)
  | onDeadline => exact .inl (h.call [] (by simp) rfl rfl rfl)
  | onMessage m => exact h.onMessage hsize m
  | onReadError body => cases body <;> exact .inl (h.call [] (by simp) rfl rfl rfl)

theorem Sending.busy (h : Sending before behind ms rest (s, g)) : s.todo ≠ [] := by
  rw [show s.todo = _ from h.todo]
  simp

/-- An instruction before the clear that the messages have no part in. -/
theorem Sending.instr (h : Sending before behind ms rest (s, g)) {i : Instr}
    (htodo : s.todo = i :: l) (hi : i ≠ .clearNotifications ∧ i ≠ .send ∧ i ≠ .awaitWrite)
    (new : List Instr) (ht : t.todo = new ++ l) (hnew : .clearNotifications ∉ new)
    (hsends : sends new = 0)
    (hstash : t.controller.notifications = s.controller.notifications)
    (hg : g' = { g with reader := g'.reader })
    (hstate : t.controller.state ≠ .sentHello) : Phase (t, g') := by
  obtain ⟨b, rfl, rfl⟩ := h.cons htodo hi.1
  refine .inr ⟨new ++ b, behind, [] ++ ms, rest, h.of_before ?_ ?_ (by rw [hg]; rfl) rfl ?_
    (by rw [hg]) ?_ (by rw [hg]) (by rw [hg]) hstash hstate⟩
  · rw [ht, List.append_assoc]
  · exact fun hm => (List.mem_append.mp hm).elim hnew fun hm => h.notBefore (.tail _ hm)
  · simp [hsends, hi.2.1]
  · intro hm
    refine List.mem_append_right _ ((List.mem_cons.mp hm).resolve_left ?_)
    exact hi.2.2.symm

/-- Before a send, of which the message is the first one. -/
theorem Sending.send (h : Sending before behind ms rest (s, g)) (htodo : s.todo = .send :: l) :
    ∃ b m ns, before = .send :: b ∧ ms = m :: ns ∧ l = b ++ .clearNotifications :: behind := by
  obtain ⟨b, rfl, hl⟩ := h.cons htodo nofun
  cases ms with
  | nil =>
    have hlength := h.length
    simp at hlength
  | cons m ns => exact ⟨b, m, ns, rfl, rfl, hl⟩

theorem numbers_cons (m : AgentEnvelope) (ns : List AgentEnvelope) :
    numbers (m :: ns) = numbers [m] ++ numbers ns := by
  rw [← List.singleton_append, numbers, List.filterMap_append]
  rfl

/-- `async_write` takes the message, which is another one than before. -/
theorem Sending.handOver (h : Sending before behind ms rest (s, g)) (hexclusion : Exclusion.Inv s)
    (htodo : s.todo = .send :: l) (hc : s.network.isConnected = true)
    (hsending : s.network.isSending = false) (ht : t.todo = .awaitWrite :: l)
    (hcontroller : t.controller = s.controller) : Phase (t, g.send true) := by
  obtain ⟨b, m, ns, rfl, rfl, rfl⟩ := h.send htodo
  have hnone : numbers g.writing.toList = [] := by
    refine numbers_writing fun i hw => ?_
    have hactive := hexclusion.handOver htodo hc hsending
    have hmem : .awaitWrite ∈ b := by simpa using h.writing i hw
    have hone : 0 < Exclusion.active (b ++ .clearNotifications :: behind) :=
      List.countP_pos_iff.mpr ⟨_, List.mem_append_left _ hmem, rfl⟩
    omega
  have hpending : g.pending = m :: (ns ++ rest) := h.pending
  have hwriting : (g.send true).writing = some m := by
    show g.pending.head? = _
    rw [hpending]
    rfl
  refine .inr ⟨.awaitWrite :: b, behind, ns, rest, ht, ?_, h.notBehind, ?_, ?_, h.others,
    fun _ _ => .head _, ?_, ?_, ?_⟩
  · simpa using h.notBefore
  · show g.pending.tail = _
    rw [hpending]
    rfl
  · simpa using h.length
  · show g.written ++ (numbers (g.send true).writing.toList ++ _) = List.range g.stashed
    have hwritten : g.written ++ (numbers g.writing.toList ++ numbers (m :: ns)) = _ := h.written
    rw [hnone, numbers_cons, List.nil_append] at hwritten
    rw [hwriting]
    exact hwritten
  · rw [hcontroller]
    exact h.stash
  · rw [hcontroller]
    exact h.state

/-- A send that is refused is not one of a stashed notification. -/
theorem Sending.refuse (h : Sending before behind ms rest (s, g)) (htodo : s.todo = .send :: l)
    (hm : ∀ i, g.pending.head? ≠ some (.stashed i)) (ht : t.todo = l)
    (hcontroller : t.controller = s.controller) : Phase (t, g.send false) := by
  obtain ⟨b, m, ns, rfl, rfl, rfl⟩ := h.send htodo
  have hpending : g.pending = m :: (ns ++ rest) := h.pending
  have hnone : numbers [m] = [] := by
    refine numbers_writing (g := { g with writing := some m }) fun i he => hm i ?_
    rw [hpending, ← he]
    rfl
  refine .inr ⟨b, behind, ns, rest, ht, ?_, h.notBehind, ?_, ?_, h.others, fun i hw => ?_, ?_,
    ?_, ?_⟩
  · exact fun hm => h.notBefore (.tail _ hm)
  · show g.pending.tail = _
    rw [hpending]
    rfl
  · simpa using h.length
  · simpa using h.writing i hw
  · have hwritten : g.written ++ (numbers g.writing.toList ++ numbers (m :: ns)) = _ := h.written
    rw [numbers_cons, hnone, List.nil_append] at hwritten
    exact hwritten
  · rw [hcontroller]
    exact h.stash
  · rw [hcontroller]
    exact h.state

/-- The write of a stashed notification ends without an error. -/
theorem endWrite_numbers {result : Written}
    (hok : ∀ i, g.writing = some (.stashed i) → result = .ok) :
    (g.endWrite result).written = g.written ++ numbers g.writing.toList := by
  by_cases hw : ∃ i, g.writing = some (.stashed i)
  · obtain ⟨i, hw⟩ := hw
    simp only [History.endWrite, hw, hok i hw]
    rfl
  · rw [endWrite_written fun i he => hw ⟨i, he⟩, numbers_writing fun i he => hw ⟨i, he⟩,
      List.append_nil]

theorem Sending.written_next (h : Sending before behind ms rest (s, g)) {result : Written}
    (hok : ∀ i, g.writing = some (.stashed i) → result = .ok) (htodo : s.todo = .awaitWrite :: l) :
    Phase (s.written l result, g.endWrite result) := by
  obtain ⟨b, rfl, rfl⟩ := h.cons htodo nofun
  have hwritten := endWrite_numbers hok
  refine .inr ⟨(if result = .lost then [.close, .onDisconnect] else []) ++ .endSend :: b, behind,
    ms, rest, ?_, ?_, h.notBehind, h.pending, ?_, h.others, nofun, ?_, ?_, h.state⟩
  · show (if result = .lost then _ else _) ++ .endSend :: (b ++ _) = _
    rw [List.append_assoc]
    rfl
  · have hb : .clearNotifications ∉ b := fun hm => h.notBefore (.tail _ hm)
    split <;> simpa using hb
  · have hlength : ms.length = sends b := by simpa using h.length
    split <;> simpa using hlength
  · show (g.endWrite result).written ++ ([] ++ numbers ms) = List.range g.stashed
    rw [hwritten, List.nil_append, List.append_assoc]
    exact h.written
  · show g.stashed - s.controller.notifications.length ≤ (g.endWrite result).written.length
    have hstash : g.stashed - s.controller.notifications.length ≤ g.written.length := h.stash
    rw [hwritten, List.length_append]
    omega

/-- The call is over: everything in the stash was written. -/
theorem Sending.clear (h : Sending before behind ms rest (s, g))
    (htodo : s.todo = .clearNotifications :: l) :
    Resting ({ s with controller := { s.controller with notifications := [] }, todo := l }, g) := by
  have heq : .clearNotifications :: l = before ++ .clearNotifications :: behind :=
    htodo.symm.trans h.todo
  cases before with
  | cons i b => exact absurd (by rw [(List.cons.inj heq).1]; exact .head _) h.notBefore
  | nil =>
    have hms : ms = [] := List.length_eq_zero_iff.mp h.length
    have hwriting (i : Nat) : g.writing ≠ some (.stashed i) := fun hw => by cases h.writing i hw
    obtain ⟨-, rfl⟩ := List.cons.inj heq
    refine ⟨h.notBehind, fun i hm => h.others i ?_, hwriting, ?_⟩
    · have hpending : g.pending = ms ++ rest := h.pending
      rw [hms] at hpending
      rwa [show g.pending = rest from hpending] at hm
    · have hwritten : g.written ++ (numbers g.writing.toList ++ numbers ms) = _ := h.written
      rw [hms, numbers_writing hwriting] at hwritten
      exact (List.append_nil _).symm.trans hwritten

theorem Sending.same (h : Sending before behind ms rest (s, g)) (htodo : t.todo = s.todo)
    (hstash : t.controller.notifications = s.controller.notifications)
    (hstate : t.controller.state ≠ .sentHello) : Phase (t, g) := by
  have hsends : sends before = 0 + sends before := (Nat.zero_add _).symm
  exact .inr ⟨before, behind, [] ++ ms, rest, h.of_before (htodo.trans h.todo) h.notBefore rfl rfl
    hsends rfl id rfl rfl hstash hstate⟩

theorem Sending.onTimer (h : Sending before behind ms rest (s, g)) (timer : TimerId) :
    Phase (s.onTimer timer, note g s (.onTimer timer) (s.onTimer timer)) := by
  cases timer with
  | receive => exact h.call [] (by simp) rfl rfl rfl rfl rfl nofun
  | _ => exact h.call _ (by simp) rfl rfl rfl rfl rfl h.state

/-- In a call a `SampleRate` is not the first one. -/
theorem Sending.onMessage (h : Sending before behind ms rest (s, g)) (m : Message) :
    Phase (s.onMessage m, note g s (.onMessage m) (s.onMessage m)) := by
  have hstate : s.controller.state ≠ .sentHello := h.state
  cases m with
  | sampleRate m =>
    have htodo : (s.onMessage (.sampleRate m)).todo = [.attemptRead] ++ s.rest := by
      rw [State.onMessage, State.firstSampleRate, if_neg hstate]
      rfl
    have hafter : (s.onMessage (.sampleRate m)).controller.state ≠ .sentHello := by
      show (if s.controller.state = .sentHello then .connected else s.controller.state) ≠ _
      rwa [if_neg hstate]
    exact h.call [] (by simp) htodo rfl rfl rfl
      (by simp [note, History.push, History.sampleRate, hstate]) hafter
  | _ => exact h.call [] (by simp) rfl rfl rfl rfl rfl h.state

theorem Sending.next {a : Label} (h : Sending before behind ms rest (s, g))
    (hexclusion : Exclusion.Inv s) (hok : Delivered (s, g) a) (hs : step s a = some t) :
    Phase (t, note g s a t) := by
  cases step_transition hs with
  | handOver l htodo hc hsending =>
    rw [note_send htodo, hc, hsending]
    exact h.handOver hexclusion htodo hc hsending rfl rfl
  | refuse l htodo hc hsending =>
    rw [note_send htodo, hc, hsending]
    refine h.refuse htodo (fun i hm => ?_) rfl rfl
    cases hsending.symm.trans (hok i l htodo hm).2
  | drop l htodo hc =>
    rw [note_send htodo, hc]
    refine h.refuse htodo (fun i hm => ?_) rfl rfl
    cases hc.symm.trans (hok i l htodo hm).1
  | attemptRead l htodo =>
    rw [note_attemptRead htodo]
    exact h.instr htodo (by simp) [] rfl (by simp) rfl rfl rfl h.state
  | clearNotifications l htodo =>
    rw [note_cons htodo (by simp)]
    exact .inl (h.clear htodo)
  | endSend l htodo | closeNothing l htodo | deleteSock l htodo | schedule timer l htodo =>
    rw [note_cons htodo (by simp)]
    exact h.instr htodo (by simp) [] rfl (by simp) rfl rfl rfl h.state
  | close l htodo =>
    rw [note_cons htodo (by simp)]
    exact h.instr htodo (by simp) [.drain, .deleteSock] rfl (by simp) rfl rfl rfl h.state
  | onDisconnect l htodo =>
    rw [note_cons htodo (by simp)]
    exact h.instr htodo (by simp) [.close] rfl (by simp) rfl rfl rfl nofun
  | written result l htodo => exact h.written_next hok htodo
  | polled l htodo | drained l htodo =>
    exact h.instr htodo (by simp) [] rfl (by simp) rfl rfl rfl h.state
  | sentHello htodo | batch htodo | noBatch htodo | resolved htodo | unresolved htodo
  | connected htodo | unconnected ok htodo | notify n left sends htodo | stash n left sends htodo
  | records left sends htodo | popped left htodo => exact absurd htodo h.busy
  | connect htop | poll htop | stop htop => exact absurd htop.2 h.busy
  | expire | expireDeadline | exit => exact h.same rfl rfl h.state
  | onTimer timer => exact h.onTimer timer
  | onDeadline => exact h.call [] (by simp) rfl rfl rfl rfl rfl h.state
  | onMessage m => exact h.onMessage m
  | onReadError body => cases body <;> exact h.call [] (by simp) rfl rfl rfl rfl rfl h.state

theorem size_next {a : Label} (h : s.controller.notifications.length ≤ g.stashed)
    (hs : step s a = some t) :
    t.controller.notifications.length ≤ (note g s a t).stashed := by
  cases step_transition hs with
  | handOver l htodo | refuse l htodo | drop l htodo =>
    rw [note_send htodo]
    exact h
  | attemptRead l htodo =>
    rw [note_attemptRead htodo]
    exact h
  | clearNotifications l htodo => exact Nat.zero_le _
  | endSend l htodo | closeNothing l htodo | deleteSock l htodo | schedule timer l htodo
  | close l htodo | onDisconnect l htodo =>
    rw [note_cons htodo (by simp)]
    exact h
  | sentHello htodo | batch htodo | noBatch htodo =>
    rw [note_nil htodo]
    exact h
  | unconnected =>
    rw [note_unconnected (by simp)]
    exact h
  | notify n left sends htodo hplace hstate =>
    simp only [note, if_pos hstate]
    exact h
  | stash n left sends htodo hplace hstate =>
    simp only [note, if_neg hstate, List.length_append]
    exact Nat.succ_le_succ h
  | onTimer timer => cases timer <;> exact h
  | onMessage m => cases m <;> exact h
  | _ => exact h

theorem Inv.next {a : Label} (h : Inv (s, g)) (hok : Delivered (s, g) a)
    (hs : step s a = some t) : Inv (t, note g s a t) where
  exclusion := h.exclusion.next hs
  size := size_next h.size hs
  phase := by
    rcases h.phase with hr | ⟨before, behind, ms, rest, hsending⟩
    · exact hr.next h.size hs
    · exact hsending.next h.exclusion hok hs

/-- **Stashed notifications are not lost**, in a run where each of their sends ends
without an error. -/
theorem kept_of_delivered (on : Bool) (labels : List Label)
    (h : Steps (recording step note) Delivered (init on, start) labels) :
    Along (recording step note) Kept (init on, start) labels :=
  (along_of_invariant (fun _ _ _ hi hok => next_of_step fun _ => Inv.next hi hok) (init_inv on)
    h).mono fun _ hi => hi.kept

/-- A connect, the first `SampleRate`, and the next batch. -/
def opening : List Label :=
  [.enter, .resolved true, .connected true, .run, .written .ok, .run, .run,
    .onMessage (.sampleRate ⟨0, 0, false, false, false, false, false⟩)]

/-- A record is lost with the connection; the notification behind it in the batch is
stashed, and sent on the next connection. -/
def resent (result : Written) : List Label :=
  opening ++ List.replicate 5 .run ++ List.replicate 9 .idle ++
    [.run, .pop 1 none, .run, .written .lost, .run, .onReadError false, .idle, .run, .run, .run,
      .run, .pop 0 (some ⟨0, ""⟩), .popped] ++
    opening ++ [.run, .written result, .run, .run]

theorem resent_kept :
    (∃ x, run (recording step note) (init true, start) (resent .ok) = some x ∧
      x.2.written = [0] ∧ stash x.1 x.2 = []) ∧
    Along (recording step note) Kept (init true, start) (resent .ok) := by
  refine ⟨⟨_, rfl, rfl, rfl⟩, kept_of_delivered true (resent .ok) ?_⟩
  iterate 3 refine Steps.cons rfl trivial ?_
  iterate 4 refine Steps.cons rfl nofun ?_
  refine Steps.cons rfl trivial ?_
  iterate 5 refine Steps.cons rfl nofun ?_
  iterate 9 refine Steps.cons rfl trivial ?_
  refine Steps.cons rfl nofun ?_
  refine Steps.cons rfl trivial ?_
  iterate 3 refine Steps.cons rfl nofun ?_
  iterate 2 refine Steps.cons rfl trivial ?_
  iterate 4 refine Steps.cons rfl nofun ?_
  iterate 2 refine Steps.cons rfl trivial ?_
  -- the second connect
  iterate 3 refine Steps.cons rfl trivial ?_
  iterate 4 refine Steps.cons rfl nofun ?_
  refine Steps.cons rfl trivial ?_
  refine Steps.cons rfl (fun _ _ _ _ => ⟨rfl, rfl⟩) ?_
  refine Steps.cons rfl (fun _ _ => rfl) ?_
  iterate 2 refine Steps.cons rfl nofun ?_
  trivial

/-- The write of the stashed notification fails, and the stash is cleared. -/
theorem resent_lost : ¬ Along (recording step note) Kept (init true, start) (resent .failed) :=
  not_along_of_run (List.prefix_refl _) rfl fun h => absurd (h.1 0 (by decide)) (by decide)

end Opsian.Collector.Stash
