import Opsian.Lib.RingQueue
import Opsian.Lib.Simulation
import Opsian.Queue.CircularQueue

/-! # Three bounded queues

What the circular queue is for, without slots and holders: three queues of calls
to the listener, each of them bounded. -/
namespace Opsian.Queue.Fifos
open Opsian.Globals Opsian.Lib Opsian.Lib.Simulation Opsian.Lib.RingQueue
  Opsian.Queue.CircularQueue
open Opsian.Prometheus.Exporter (CallFrame)
open Opsian.Queue.InternalQueue (capacity)
open Opsian.Queue.HandOver (blank clear write zeroFrame)

inductive Lane where
  | main
  | allocation
  | stack
  deriving DecidableEq, Repr

def Lane.size : Lane → Nat
  | .main => mainQueueSize
  | .allocation => allocationQueueSize
  | .stack => stackQueueSize

/-- The calls that are owed to the listener, the oldest first. -/
abbrev Queues := Lane → List Call

/-- A trace in a buffer that holds nothing else. -/
def delivered (maxFrameSize : Nat) (item : CallTrace) : CallTrace :=
  { item with
    frames := item.frames.take item.numFrames.toNat ++
      List.replicate (maxFrameSize - item.numFrames.toNat) zeroFrame }

def lane : Push → Lane
  | .stackTrace .. | .thread .. => .stack
  | .allocation .. => .allocation
  | _ => .main

/-- The call that a record is pushed for. -/
def record (maxFrameSize : Nat) : Push → Call
  | .stackTrace ts item signum threadState timeTsc =>
    .recordStackTrace ts (delivered maxFrameSize item) signum threadState timeTsc
  | .thread name threadId => .recordThread threadId name
  | .allocation allocationSize outsideTlab symbol =>
    .recordAllocation allocationSize outsideTlab symbol
  | .notification category payload value => .recordNotification category payload value
  | .metricInformation info => .recordMetricInformation info
  | .metricSamples metricSamples timeEpochMillis =>
    .recordMetricSamples timeEpochMillis metricSamples
  | .constantMetricsComplete => .recordConstantMetricsComplete

def specification (maxFrameSize : Nat) (f : Queues) : Op → Answer × Queues
  | .push p =>
    if (f (lane p)).length = (lane p).size then (⟨false, []⟩, f)
    else (⟨true, []⟩, Function.update f (lane p) (f (lane p) ++ [record maxFrameSize p]))
  | .pop =>
    (⟨!(f .main).isEmpty || !(f .allocation).isEmpty || !(f .stack).isEmpty,
      (f .main).take 1 ++ (f .allocation).take 1 ++ (f .stack).take 1⟩,
      fun lane => (f lane).tail)

/-- A trace that is there and fits the buffers. -/
def Fits (maxFrameSize : Nat) : Op → Prop
  | .push (.stackTrace _ item _ _ _) =>
    0 ≤ item.numFrames ∧ item.numFrames ≤ maxFrameSize ∧ item.numFrames ≤ item.frames.length
  | _ => True

/-- A queued trace has a frame in this cell. -/
def Covered (s : State) (slot i : Nat) : Prop :=
  slot ∈ Ring.window (capacity stackQueueSize) s.stackQueue.output s.stackQueue.input ∧
    (s.stackQueue.buffer slot).elementType = .stackTrace ∧
    (i : Int) < (s.stackQueue.buffer slot).trace.numFrames

/-! ## The relation -/

/-- The slot of a record that waits in the main or the allocation queue. -/
structure Slot {T : Type} (toCall : T → Call) (q : CircularQueue.InternalQueue T) (slot : Nat)
    (call : Call) : Prop where
  committed : q.isCommitted slot = true
  call_eq : toCall (q.buffer slot) = call

/-- The same in the stack queue: a trace has its frames in the slot's own buffer, which
holds nothing else. -/
structure StackSlot (maxFrameSize : Nat) (q : CircularQueue.InternalQueue StackHolder)
    (frameBuffer : Nat → List CallFrame) (slot : Nat) (call : Call) : Prop where
  committed : q.isCommitted slot = true
  own : (q.buffer slot).elementType = .stackTrace → (q.buffer slot).trace.frames = some slot
  call_eq : (q.buffer slot).call frameBuffer = call
  clean : (q.buffer slot).cleaned (frameBuffer slot) = blank maxFrameSize

structure Refines (maxFrameSize : Nat) (s : State) (f : Queues) : Prop where
  main : Stores (capacity mainQueueSize) (Slot Holder.call s.mainQueue)
    s.mainQueue.output s.mainQueue.input (f .main)
  allocation : Stores (capacity allocationQueueSize) (Slot AllocationHolder.call s.allocationQueue)
    s.allocationQueue.output s.allocationQueue.input (f .allocation)
  stack : Stores (capacity stackQueueSize) (StackSlot maxFrameSize s.stackQueue s.frameBuffer)
    s.stackQueue.output s.stackQueue.input (f .stack)
  blank : ∀ slot,
    slot ∉ Ring.window (capacity stackQueueSize) s.stackQueue.output s.stackQueue.input →
      s.frameBuffer slot = blank maxFrameSize

variable {maxFrameSize size : Nat} {s : State} {f : Queues}

theorem init_refines (maxFrameSize : Nat) (symbol timeTsc : UInt64) :
    Refines maxFrameSize (init maxFrameSize symbol timeTsc) (fun _ => []) where
  main := stores_nil (Nat.succ_pos _)
  allocation := stores_nil (Nat.succ_pos _)
  stack := stores_nil (Nat.succ_pos _)
  blank := fun _ _ => rfl

/-! ## A lane -/

section InternalQueue

variable {T : Type} {q : CircularQueue.InternalQueue T} {R : Nat → Call → Prop} {l : List Call}
  {call : Call}

theorem acquireWrite_full (h : Stores (capacity size) R q.output q.input l)
    (hl : l.length = size) : q.acquireWrite size = none :=
  if_pos (h.full_iff.mpr (by rw [hl, capacity]))

theorem output_ne_advance (h : Stores (capacity size) R q.output q.input l)
    (hl : l.length ≠ size) : q.output ≠ Ring.advance (capacity size) q.input :=
  fun he => hl (Nat.succ.inj (h.full_iff.mp he))

theorem acquireWrite_room (h : Stores (capacity size) R q.output q.input l)
    (hl : l.length ≠ size) : q.acquireWrite size =
      some (q.input, { q with input := Ring.advance (capacity size) q.input }) :=
  if_neg (output_ne_advance h hl)

theorem committed_commitWrite {position i : Nat} {holder : T} (h : q.isCommitted i = true) :
    (q.commitWrite position holder).isCommitted i = true := by
  unfold InternalQueue.commitWrite
  by_cases hi : i = position
  · simp [hi]
  · simpa [hi] using h

theorem stores_push {toCall : T → Call} {holder : T}
    (h : Stores (capacity size) (Slot toCall q) q.output q.input l) (hl : l.length ≠ size)
    (hc : toCall holder = call) :
    Stores (capacity size)
      (Slot toCall (InternalQueue.commitWrite
        { q with input := Ring.advance (capacity size) q.input } q.input holder))
      q.output (Ring.advance (capacity size) q.input) (l ++ [call]) := by
  refine h.push (output_ne_advance h hl) (fun i w hi hw => ⟨committed_commitWrite hw.committed, ?_⟩)
    ⟨Function.update_self .., ?_⟩
  · exact (congrArg toCall (Function.update_of_ne hi ..)).trans hw.call_eq
  · exact (congrArg toCall (Function.update_self ..)).trans hc

/-- A pop changes nothing but the slot it pops from. -/
theorem stores_pop {toCall : T → Call} {q' : CircularQueue.InternalQueue T}
    (h : Stores (capacity size) (Slot toCall q) q.output q.input (call :: l))
    (hcommitted : q'.isCommitted = q.isCommitted)
    (hbuffer : ∀ i, i ≠ q.output → q'.buffer i = q.buffer i) :
    Stores (capacity size) (Slot toCall (q'.commitRead size q.output))
      (Ring.advance (capacity size) q.output) q.input l := by
  refine h.pop fun i w hi hw => ⟨?_, ?_⟩
  · show Function.update q'.isCommitted q.output false i = true
    rw [Function.update_of_ne hi, hcommitted]
    exact hw.committed
  · show toCall (q'.buffer i) = w
    rw [hbuffer i hi]
    exact hw.call_eq

theorem acquireRead_empty (h : Stores (capacity size) R q.output q.input []) :
    q.acquireRead = .empty :=
  if_pos (h.empty_iff.mpr rfl)

theorem acquireRead_record (h : Stores (capacity size) R q.output q.input (call :: l))
    (hc : q.isCommitted q.output = true) : q.acquireRead = .record q.output := by
  have hne : q.output ≠ q.input := fun he => List.cons_ne_nil _ _ (h.empty_iff.mp he)
  rw [InternalQueue.acquireRead, if_neg hne, if_pos hc]

end InternalQueue

/-! ## The frames of a slot -/

theorem write_blank (maxFrameSize : Nat) (item : CallTrace) :
    write (blank maxFrameSize) item.numFrames item.frames =
      (delivered maxFrameSize item).frames := by
  rw [write, blank, List.drop_replicate]
  rfl

theorem clear_delivered {item : CallTrace} (h : 0 ≤ item.numFrames)
    (hmax : item.numFrames ≤ maxFrameSize) (hframes : item.numFrames ≤ item.frames.length) :
    clear (delivered maxFrameSize item).frames item.numFrames = blank maxFrameSize := by
  have hlength : (item.frames.take item.numFrames.toNat).length = item.numFrames.toNat := by
    rw [List.length_take]
    omega
  unfold clear delivered
  rw [List.take_append_of_le_length (Nat.le_of_eq hlength.symm),
    List.drop_append_of_le_length (Nat.le_of_eq hlength.symm), List.take_of_length_le
      (Nat.le_of_eq hlength), List.drop_of_length_le (Nat.le_of_eq hlength), List.nil_append,
    List.map_const', hlength, List.replicate_append_replicate, blank]
  congr 1
  omega

/-- Only the cells of its frames are zeroed behind a trace. -/
theorem getElem?_clear {fb : List CallFrame} {n : Int} {i : Nat} (h : n ≤ i) :
    (clear fb n)[i]? = fb[i]? := by
  have hlength : ((fb.take n.toNat).map fun _ => zeroFrame).length = min n.toNat fb.length := by
    rw [List.length_map, List.length_take]
  unfold clear
  rw [List.getElem?_append_right (by omega), hlength, List.getElem?_drop]
  by_cases hn : n.toNat ≤ fb.length
  · congr 1
    omega
  · rw [List.getElem?_eq_none (by omega), List.getElem?_eq_none (by omega)]

theorem Refines.uncovered (h : Refines maxFrameSize s f) {slot i : Nat} (hi : i < maxFrameSize)
    (hc : ¬ Covered s slot i) : (s.frameBuffer slot)[i]? = some zeroFrame := by
  have hblank : (HandOver.blank maxFrameSize)[i]? = some zeroFrame := by
    rw [HandOver.blank, List.getElem?_replicate, if_pos hi]
  by_cases hw : slot ∈ Ring.window (capacity stackQueueSize) s.stackQueue.output s.stackQueue.input
  · obtain ⟨k, hk, hslot⟩ := h.stack.mem_window.mp hw
    have hheld := h.stack.held k _ (List.getElem?_eq_getElem hk)
    rw [hslot] at hheld
    have hclean := hheld.clean
    unfold StackHolder.cleaned at hclean
    split at hclean
    · rename_i htrace
      have hn : (s.stackQueue.buffer slot).trace.numFrames ≤ i :=
        Int.not_lt.mp fun hlt => hc ⟨hw, htrace, hlt⟩
      rw [← getElem?_clear hn, hclean, hblank]
    · rw [hclean, hblank]
  · rw [h.blank slot hw, hblank]

/-! ## The pushes -/

/-- A push is refused, and leaves the queues, if its lane is full, and else appends its call. -/
def Accepted (maxFrameSize : Nat) (f : Queues) (lane : Lane) (call : Call) (x : Bool × State) :
    Prop :=
  x.1 = !decide ((f lane).length = lane.size) ∧
    Refines maxFrameSize x.2
      (if (f lane).length = lane.size then f else Function.update f lane (f lane ++ [call]))

theorem pushMain_accepted (h : Refines maxFrameSize s f) {failures : UInt32}
    {fill : Holder → Holder} {call : Call} (hc : ∀ holder, (fill holder).call = call) :
    Accepted maxFrameSize f .main call (pushMain s failures fill) := by
  unfold Accepted pushMain
  by_cases hl : (f .main).length = Lane.main.size
  · rw [acquireWrite_full h.main hl, if_pos hl, decide_eq_true hl]
    exact ⟨rfl, h.main, h.allocation, h.stack, h.blank⟩
  · rw [acquireWrite_room h.main hl, if_neg hl, decide_eq_false hl]
    exact ⟨rfl, stores_push h.main hl (hc _), h.allocation, h.stack, h.blank⟩

theorem pushAllocation_accepted (h : Refines maxFrameSize s f) (allocationSize : UInt64)
    (outsideTlab : Bool) (symbol : UInt64) :
    Accepted maxFrameSize f .allocation (.recordAllocation allocationSize outsideTlab symbol)
      (pushAllocation s allocationSize outsideTlab symbol) := by
  unfold Accepted pushAllocation
  by_cases hl : (f .allocation).length = Lane.allocation.size
  · rw [acquireWrite_full h.allocation hl, if_pos hl, decide_eq_true hl]
    exact ⟨rfl, h.main, h.allocation, h.stack, h.blank⟩
  · rw [acquireWrite_room h.allocation hl, if_neg hl, decide_eq_false hl]
    exact ⟨rfl, h.main, stores_push h.allocation hl rfl, h.stack, h.blank⟩

section Stack

variable {q q' : CircularQueue.InternalQueue StackHolder}
  {frameBuffer frameBuffer' : Nat → List CallFrame} {call : Call} {i : Nat}

/-- The listener reads no buffer but that of the slot. -/
theorem StackSlot.congr (h : StackSlot maxFrameSize q frameBuffer i call)
    (hc : q'.isCommitted i = true) (hb : q'.buffer i = q.buffer i)
    (hf : frameBuffer' i = frameBuffer i) : StackSlot maxFrameSize q' frameBuffer' i call where
  committed := hc
  own := by rw [hb]; exact h.own
  call_eq := by
    rw [hb, ← h.call_eq]
    unfold StackHolder.call
    split
    · rename_i htrace
      unfold HeldTrace.read
      rw [h.own htrace, Option.elim_some, Option.elim_some, hf]
    · rfl
  clean := by rw [hb, hf]; exact h.clean

theorem stack_push (h : Refines maxFrameSize s f) (hl : (f .stack).length ≠ stackQueueSize)
    (holder : StackHolder) (fb : List CallFrame)
    (hown : holder.elementType = .stackTrace → holder.trace.frames = some s.stackQueue.input)
    (hcall : holder.call (Function.update s.frameBuffer s.stackQueue.input fb) = call)
    (hclean : holder.cleaned fb = blank maxFrameSize) :
    Refines maxFrameSize
      { s with
        stackQueue := InternalQueue.commitWrite
          { s.stackQueue with
            input := Ring.advance (capacity stackQueueSize) s.stackQueue.input }
          s.stackQueue.input holder
        frameBuffer := Function.update s.frameBuffer s.stackQueue.input fb }
      (Function.update f .stack (f .stack ++ [call])) := by
  -- The slot's flag, holder and buffer are new, those of any other slot are as they were.
  have hstack := h.stack.push (output_ne_advance h.stack hl)
    (fun i w hi hw => StackSlot.congr hw
      (committed_commitWrite hw.committed : (InternalQueue.commitWrite { s.stackQueue with
        input := Ring.advance (capacity stackQueueSize) s.stackQueue.input }
        s.stackQueue.input holder).isCommitted i = true)
      (Function.update_of_ne hi ..)
      (Function.update_of_ne hi fb s.frameBuffer))
    { committed := Function.update_self ..
      own := by simpa [InternalQueue.commitWrite] using hown
      call_eq := by simpa [InternalQueue.commitWrite] using hcall
      clean := by simpa [InternalQueue.commitWrite] using hclean }
  refine ⟨h.main, h.allocation, hstack, ?_⟩
  intro slot hslot
  obtain ⟨hunused, hne⟩ := h.stack.unused_of_push hstack hslot
  exact (Function.update_of_ne hne ..).trans (h.blank slot hunused)

theorem Refines.blank_input (h : Refines maxFrameSize s f) :
    s.frameBuffer s.stackQueue.input = HandOver.blank maxFrameSize :=
  h.blank _ h.stack.input_unused

theorem pushStackTrace_accepted (h : Refines maxFrameSize s f) {ts : Timespec} {item : CallTrace}
    {signum threadState : Int} {timeTsc : UInt64}
    (hfits : Fits maxFrameSize (.push (.stackTrace ts item signum threadState timeTsc))) :
    Accepted maxFrameSize f .stack
      (.recordStackTrace ts (delivered maxFrameSize item) signum threadState timeTsc)
      (pushStackTrace s ts item signum threadState timeTsc) := by
  unfold Accepted pushStackTrace
  by_cases hl : (f .stack).length = Lane.stack.size
  · rw [acquireWrite_full h.stack hl, if_pos hl, decide_eq_true hl]
    exact ⟨rfl, h⟩
  · obtain ⟨hpos, hmax, hframes⟩ := hfits
    rw [acquireWrite_room h.stack hl, if_neg hl, decide_eq_false hl]
    refine ⟨rfl, stack_push h hl _ _ (fun _ => rfl) ?_ ?_⟩
    · simp only [StackHolder.call, HeldTrace.read, Option.elim_some, Function.update_self,
        h.blank_input, write_blank]
      rfl
    · simp only [StackHolder.cleaned, h.blank_input, write_blank]
      exact clear_delivered hpos hmax hframes

theorem pushThread_accepted (h : Refines maxFrameSize s f) (name : String) (threadId : Int) :
    Accepted maxFrameSize f .stack (.recordThread threadId name) (pushThread s name threadId) := by
  unfold Accepted pushThread
  by_cases hl : (f .stack).length = Lane.stack.size
  · rw [acquireWrite_full h.stack hl, if_pos hl, decide_eq_true hl]
    exact ⟨rfl, h⟩
  · rw [acquireWrite_room h.stack hl, if_neg hl, decide_eq_false hl]
    have hpush := stack_push h hl
      { s.stackQueue.buffer s.stackQueue.input with
        elementType := .thread
        name := name
        threadId := threadId }
      (s.frameBuffer s.stackQueue.input) nofun rfl h.blank_input
    rw [Function.update_eq_self] at hpush
    exact ⟨rfl, hpush⟩

end Stack

theorem push_accepted (h : Refines maxFrameSize s f) {p : Push}
    (hfits : Fits maxFrameSize (.push p)) :
    Accepted maxFrameSize f (lane p) (record maxFrameSize p) (push s p) := by
  cases p with
  | stackTrace ts item signum threadState timeTsc => exact pushStackTrace_accepted h hfits
  | thread name threadId => exact pushThread_accepted h name threadId
  | allocation allocationSize outsideTlab symbol =>
    exact pushAllocation_accepted h allocationSize outsideTlab symbol
  | notification category payload value => exact pushMain_accepted h fun _ => rfl
  | metricInformation info => exact pushMain_accepted h fun _ => rfl
  | metricSamples metricSamples timeEpochMillis => exact pushMain_accepted h fun _ => rfl
  | constantMetricsComplete => exact pushMain_accepted h fun _ => rfl

/-! ## The pop -/

/-- A lane gives up its head. -/
def Popped (maxFrameSize : Nat) (f : Queues) (lane : Lane) (x : Option (Option Call × State)) :
    Prop :=
  ∃ t, x = some ((f lane).head?, t) ∧
    Refines maxFrameSize t (Function.update f lane (f lane).tail)

theorem popped_nil (h : Refines maxFrameSize s f) {l : Lane} (hl : f l = []) :
    Popped maxFrameSize f l (some (none, s)) := by
  have hsame : Function.update f l (f l).tail = f := by
    rw [hl, List.tail_nil, ← hl, Function.update_eq_self]
  exact ⟨s, by rw [hl]; rfl, by rwa [hsame]⟩

theorem popMain_popped (h : Refines maxFrameSize s f) :
    Popped maxFrameSize f .main (popMain s) := by
  have hmain := h.main
  unfold popMain
  cases hl : f .main with
  | nil =>
    rw [hl] at hmain
    rw [acquireRead_empty hmain]
    exact popped_nil h hl
  | cons call l =>
    rw [hl] at hmain
    rw [acquireRead_record hmain hmain.head.committed]
    refine ⟨_, by rw [hl, List.head?_cons, ← hmain.head.call_eq], ?_⟩
    rw [hl]
    exact ⟨stores_pop hmain rfl fun _ _ => rfl, h.allocation, h.stack, h.blank⟩

theorem popAllocation_popped (h : Refines maxFrameSize s f) :
    Popped maxFrameSize f .allocation (popAllocation s) := by
  have hallocation := h.allocation
  unfold popAllocation
  cases hl : f .allocation with
  | nil =>
    rw [hl] at hallocation
    rw [acquireRead_empty hallocation]
    exact popped_nil h hl
  | cons call l =>
    rw [hl] at hallocation
    rw [acquireRead_record hallocation hallocation.head.committed]
    refine ⟨_, by rw [hl, List.head?_cons, ← hallocation.head.call_eq], ?_⟩
    rw [hl]
    exact ⟨h.main, stores_pop hallocation rfl fun _ hi => Function.update_of_ne hi .., h.stack,
      h.blank⟩

theorem popStack_popped (h : Refines maxFrameSize s f) :
    Popped maxFrameSize f .stack (popStack s) := by
  have hstack := h.stack
  unfold popStack
  cases hl : f .stack with
  | nil =>
    rw [hl] at hstack
    rw [acquireRead_empty hstack]
    exact popped_nil h hl
  | cons call l =>
    rw [hl] at hstack
    have hhead := hstack.head
    rw [acquireRead_record hstack hhead.committed]
    refine ⟨_, by rw [hl, List.head?_cons, ← hhead.call_eq], ?_⟩
    rw [hl]
    have hpop : Stores (capacity stackQueueSize)
        (StackSlot maxFrameSize (s.stackQueue.commitRead stackQueueSize s.stackQueue.output)
          (Function.update s.frameBuffer s.stackQueue.output
            ((s.stackQueue.buffer s.stackQueue.output).cleaned
              (s.frameBuffer s.stackQueue.output))))
        (Ring.advance (capacity stackQueueSize) s.stackQueue.output) s.stackQueue.input l :=
      hstack.pop fun i w hi hw => hw.congr ((Function.update_of_ne hi ..).trans hw.committed) rfl
        (Function.update_of_ne hi ..)
    refine ⟨h.main, h.allocation, hpop, ?_⟩
    intro slot hslot
    rcases hstack.unused_of_pop hpop hslot with rfl | hunused
    · exact (Function.update_self ..).trans hhead.clean
    · by_cases hne : slot = s.stackQueue.output
      · rw [hne]
        exact (Function.update_self ..).trans hhead.clean
      · exact (Function.update_of_ne hne ..).trans (h.blank slot hunused)

theorem toList_head? (l : List Call) : l.head?.toList = l.take 1 := by
  cases l <;> rfl

theorem isSome_head? (l : List Call) : l.head?.isSome = !l.isEmpty := by
  cases l <;> rfl

theorem pop_refines (h : Refines maxFrameSize s f) :
    ∃ t, pop s = some ((specification maxFrameSize f .pop).1, t) ∧
      Refines maxFrameSize t (specification maxFrameSize f .pop).2 := by
  obtain ⟨s₁, hmain, h₁⟩ := popMain_popped h
  obtain ⟨s₂, hallocation, h₂⟩ := popAllocation_popped h₁
  obtain ⟨s₃, hstack, h₃⟩ := popStack_popped h₂
  refine ⟨s₃, ?_, ?_⟩
  · simp [pop, hmain, hallocation, hstack, Answer.ofPops, specification, toList_head?,
      isSome_head?]
  · have htails : (specification maxFrameSize f .pop).2 =
        Function.update (Function.update (Function.update f .main (f .main).tail)
          .allocation (f .allocation).tail) .stack (f .stack).tail := by
      funext l
      cases l <;> simp [specification]
    rw [htails]
    simpa using h₃

theorem step_refines (s : State) (f : Queues) (op : Op) (h : Refines maxFrameSize s f)
    (hfits : Fits maxFrameSize op) :
    ∃ t, step s op = some ((specification maxFrameSize f op).1, t) ∧
      Refines maxFrameSize t (specification maxFrameSize f op).2 := by
  cases op with
  | push p =>
    obtain ⟨hreturned, hrefines⟩ := push_accepted h hfits
    refine ⟨(push s p).2, ?_⟩
    unfold step specification
    simp only [hreturned]
    split
    · rename_i hl
      rw [if_pos hl] at hrefines
      exact ⟨by simp [hl], hrefines⟩
    · rename_i hl
      rw [if_neg hl] at hrefines
      exact ⟨by simp [hl], hrefines⟩
  | pop => exact pop_refines h

/-- **The circular queue is three bounded queues**, whatever is done to it in turn: a push
fails exactly if its lane is full, a pop hands over the head of each lane as it was pushed.
The frames that no queued trace covers are zero. -/
theorem refines_queues (maxFrameSize : Nat) (symbol timeTsc : UInt64) (ops : List Op)
    (h : ∀ op ∈ ops, Fits maxFrameSize op) :
    ∃ s, exec step (init maxFrameSize symbol timeTsc) ops =
        some ((answers (specification maxFrameSize) (fun _ => []) ops).1, s) ∧
      Refines maxFrameSize s (answers (specification maxFrameSize) (fun _ => []) ops).2 ∧
      ∀ slot, ∀ i < maxFrameSize, ¬ Covered s slot i →
        (s.frameBuffer slot)[i]? = some zeroFrame := by
  obtain ⟨s, hs, hrefines⟩ :=
    exec_eq_answers step_refines (init_refines maxFrameSize symbol timeTsc) h
  exact ⟨s, hs, hrefines, fun slot i hi hc => hrefines.uncovered hi hc⟩

/-- A trace shorter than its slot, popped together with a notification. -/
def twoRecords : List Op :=
  [.push (.stackTrace ⟨1, 0⟩ ⟨1, 7, [⟨true, 5⟩]⟩ 27 0 3), .push (.notification 1 "late" 0), .pop,
    .pop]

theorem two_records_popped :
    ∃ s, exec step (init 2 0 0) twoRecords =
        some ([⟨true, []⟩, ⟨true, []⟩,
          ⟨true, [.recordNotification 1 "late" 0,
            .recordStackTrace ⟨1, 0⟩ ⟨1, 7, [⟨true, 5⟩, zeroFrame]⟩ 27 0 3]⟩, ⟨false, []⟩], s) ∧
      Refines 2 s (answers (specification 2) (fun _ => []) twoRecords).2 ∧
      ∀ slot, ∀ i < 2, ¬ Covered s slot i → (s.frameBuffer slot)[i]? = some zeroFrame :=
  refines_queues 2 0 0 twoRecords (by simp [twoRecords, Fits])

end Opsian.Queue.Fifos
