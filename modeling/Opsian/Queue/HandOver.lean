import Opsian.Queue.InternalQueue
import Opsian.Writer.LogWriter

/-! # The hand-over of a trace

`Profiler::handle` packs the failure of a capture into the sign of `num_frames`,
and the loops that copy the frames into the slot and clear them again are both
bounded by that signed count. Pushes and pops are whole steps here: what happens
between their loads and stores is `InternalQueue`'s. -/
namespace Opsian.Queue.HandOver
open Opsian.Lib Opsian.Lib.Runs
open Opsian.Prometheus.Exporter (CallFrame CallTrace numberOfSignalHandlerFrames sigprof)
open Opsian.Queue.InternalQueue (capacity)
open Opsian.Writer.LogWriter (readFrames sigalrm)

inductive ErrorType where
  | success
  | getContextFail
  | initLocalFail
  | stepFail
  deriving DecidableEq, Repr

/-- What `linkable_handle` leaves: the type in the error holder and the frames. -/
structure Outcome where
  type : ErrorType
  frames : List CallFrame
  deriving DecidableEq, Repr

namespace Outcome

def isError (o : Outcome) : Bool := o.type != .success

/-- `num_frames` of the trace that is pushed. -/
def numFrames (o : Outcome) : Int :=
  if o.isError then -1 * o.frames.length else o.frames.length

end Outcome

inductive StackElementType where
  | stackTrace
  | thread
  deriving DecidableEq, Repr

structure StackHolder where
  elementType : StackElementType
  numFrames : Int
  deriving DecidableEq, Repr

/-- The stack queue and its frame buffers, and what has been pushed and popped:
the outcome behind each trace, none for a thread. -/
structure State where
  input : Nat
  output : Nat
  buffer : Nat → StackHolder
  frameBuffer : Nat → List CallFrame
  pushed : List (Option Outcome)
  popped : Nat
  /-- What the latest step popped: as it was pushed, and as `recordStackTrace` has it. -/
  handed : Option (Option Outcome × Option CallTrace)

def zeroFrame : CallFrame := ⟨false, 0⟩

/-- A buffer as `new CallFrame[maxFrameSize]()` makes it. -/
def blank (maxFrameSize : Nat) : List CallFrame := List.replicate maxFrameSize zeroFrame

def init (maxFrameSize : Nat) : State where
  input := 0
  output := 0
  buffer := fun _ => ⟨.stackTrace, 0⟩
  frameBuffer := fun _ => blank maxFrameSize
  pushed := []
  popped := 0
  handed := none

/-- The loop of `CircularQueue::write`, which a negative count skips. -/
def write (fb : List CallFrame) (numFrames : Int) (frames : List CallFrame) : List CallFrame :=
  frames.take numFrames.toNat ++ fb.drop numFrames.toNat

/-- The loop that zeroes the frames of a popped trace. -/
def clear (fb : List CallFrame) (numFrames : Int) : List CallFrame :=
  (fb.take numFrames.toNat).map (fun _ => zeroFrame) ++ fb.drop numFrames.toNat

section Steps
variable (size : Nat)

def isFull (s : State) : Prop := s.output = Ring.advance (capacity size) s.input

instance (s : State) : Decidable (isFull size s) := inferInstanceAs (Decidable (_ = _))

def pushStackTrace (s : State) (o : Outcome) : State :=
  if isFull size s then s
  else
    { s with
      input := Ring.advance (capacity size) s.input
      buffer := Function.update s.buffer s.input ⟨.stackTrace, o.numFrames⟩
      frameBuffer := Function.update s.frameBuffer s.input
        (write (s.frameBuffer s.input) o.numFrames o.frames)
      pushed := s.pushed ++ [some o] }

def pushThread (s : State) : State :=
  if isFull size s then s
  else
    { s with
      input := Ring.advance (capacity size) s.input
      buffer := Function.update s.buffer s.input { s.buffer s.input with elementType := .thread }
      pushed := s.pushed ++ [none] }

/-- `Profiler::handle`; any other signal, and the error's text, are notifications
in the main queue. -/
def handle (s : State) (signum : Int) (o : Outcome) : State :=
  if signum = sigprof ∨ signum = sigalrm then pushStackTrace size s o else s

/-- The part of `CircularQueue::pop` about the stack queue. -/
def pop (s : State) : State :=
  if s.output = s.input then { s with handed := none }
  else
    let holder := s.buffer s.output
    let fb := s.frameBuffer s.output
    let t := { s with
      output := Ring.advance (capacity size) s.output
      popped := s.popped + 1 }
    match holder.elementType with
    | .stackTrace =>
      { t with
        frameBuffer := Function.update s.frameBuffer s.output (clear fb holder.numFrames)
        handed := some ((s.pushed[s.popped]?).join, some ⟨holder.numFrames, fb⟩) }
    | .thread => { t with handed := some ((s.pushed[s.popped]?).join, none) }

inductive Label where
  | handle (signum : Int) (outcome : Outcome)
  | pushThread
  | pop
  deriving DecidableEq, Repr

def step (maxFrameSize : Nat) (s : State) : Label → Option State
  | .handle signum o =>
    if o.frames.length ≤ maxFrameSize then
      some { handle size s signum o with handed := none }
    else none
  | .pushThread => some { pushThread size s with handed := none }
  | .pop => some (pop size s)

end Steps

/-! ## What is handed over -/

/-- Failure, count and the frames that are read all come through. -/
def Recovered (o : Outcome) (trace : CallTrace) : Prop :=
  (trace.numFrames < 0 ↔ o.isError = true) ∧ trace.numFrames.natAbs = o.frames.length ∧
    readFrames trace = o.frames.drop numberOfSignalHandlerFrames

/-- A trace reaches the listener as it was captured, and nothing else does. -/
def Faithful (s : State) : Prop :=
  match s.handed with
  | none => True
  | some (some o, some trace) => Recovered o trace
  | some (none, none) => True
  | some _ => False

/-- A success, or a failure whose frames look like those of a cleared buffer. -/
def Recoverable (o : Outcome) : Prop :=
  o.isError = true →
    o.frames ≠ [] ∧ ∀ frame ∈ o.frames.drop numberOfSignalHandlerFrames, frame = zeroFrame

/-- The trace to be popped, if it is one, is recoverable. -/
def Recovers (s : State) : Label → Prop
  | .pop => ∀ o, s.pushed[s.popped]? = some (some o) → Recoverable o
  | _ => True

variable {maxFrameSize size : Nat} {s t : State} {o : Outcome}

/-! ## One trace through a blank slot -/

theorem toNat_numFrames (o : Outcome) :
    o.numFrames.toNat = if o.isError then 0 else o.frames.length := by
  unfold Outcome.numFrames
  split <;> omega

theorem natAbs_numFrames (o : Outcome) : o.numFrames.natAbs = o.frames.length := by
  unfold Outcome.numFrames
  split <;> omega

theorem write_error (h : o.isError = true) (fb : List CallFrame) :
    write fb o.numFrames o.frames = fb := by
  rw [write, toNat_numFrames, if_pos h]
  rfl

theorem write_success (h : ¬ o.isError = true) (fb : List CallFrame) :
    write fb o.numFrames o.frames = o.frames ++ fb.drop o.frames.length := by
  rw [write, toNat_numFrames, if_neg h, List.take_length]

/-- The buffer is blank again once its trace is cleared. -/
theorem clear_write (h : o.frames.length ≤ maxFrameSize) :
    clear (write (blank maxFrameSize) o.numFrames o.frames) o.numFrames = blank maxFrameSize := by
  unfold clear
  by_cases he : o.isError = true
  · rw [write_error he, toNat_numFrames, if_pos he]
    rfl
  · rw [write_success he, toNat_numFrames, if_neg he, List.take_left, List.drop_left,
      List.map_const', blank, List.drop_replicate, List.replicate_append_replicate]
    congr 1
    omega

theorem recovered_iff (h : o.frames.length ≤ maxFrameSize) :
    Recovered o ⟨o.numFrames, write (blank maxFrameSize) o.numFrames o.frames⟩ ↔
      Recoverable o := by
  unfold Recovered Recoverable
  simp only [readFrames, natAbs_numFrames, true_and]
  by_cases he : o.isError = true
  · have hread : ((blank maxFrameSize).take o.frames.length).drop numberOfSignalHandlerFrames =
        List.replicate (o.frames.length - numberOfSignalHandlerFrames) zeroFrame := by
      rw [blank, List.take_replicate, List.drop_replicate, Nat.min_eq_left h]
    have hsign : o.numFrames < 0 ↔ o.frames ≠ [] := by
      rw [Outcome.numFrames, if_pos he, ← List.length_pos_iff]
      omega
    rw [write_error he, hread, hsign, eq_comm (b := o.frames.drop _), List.eq_replicate_iff,
      List.length_drop]
    simp [he]
  · have hsign : ¬ o.numFrames < 0 := by
      rw [Outcome.numFrames, if_neg he]
      omega
    rw [write_success he, List.take_left]
    simp [he, hsign]

/-! ## The invariant -/

/-- A slot holds what was pushed into it. -/
def Holds (maxFrameSize : Nat) (holder : StackHolder) (fb : List CallFrame) :
    Option Outcome → Prop
  | some o => holder = ⟨.stackTrace, o.numFrames⟩ ∧ o.frames.length ≤ maxFrameSize ∧
      fb = write (blank maxFrameSize) o.numFrames o.frames
  | none => holder.elementType = .thread ∧ fb = blank maxFrameSize

/-- The records from the oldest unread one on are in their slots, and the buffer of
any other slot is blank. -/
structure Inv (maxFrameSize size : Nat) (s : State) : Prop where
  input : s.input = s.pushed.length % capacity size
  output : s.output = s.popped % capacity size
  popped_le : s.popped ≤ s.pushed.length
  room : s.pushed.length < s.popped + capacity size
  held : ∀ n w, s.popped ≤ n → s.pushed[n]? = some w →
    Holds maxFrameSize (s.buffer (n % capacity size)) (s.frameBuffer (n % capacity size)) w
  free : ∀ i, (∀ n, s.popped ≤ n → n < s.pushed.length → n % capacity size ≠ i) →
    s.frameBuffer i = blank maxFrameSize

theorem init_inv : Inv maxFrameSize size (init maxFrameSize) where
  input := rfl
  output := rfl
  popped_le := Nat.le_refl 0
  room := Nat.lt_of_lt_of_le (Nat.succ_pos size) (Nat.le_add_left _ _)
  held := fun _ _ _ h => by cases h
  free := fun _ _ => rfl

theorem Inv.of_eq {r : Option (Option Outcome × Option CallTrace)} (h : Inv maxFrameSize size s) :
    Inv maxFrameSize size { s with handed := r } :=
  ⟨h.input, h.output, h.popped_le, h.room, h.held, h.free⟩

/-- No record waits in the slot behind the last one. -/
theorem Inv.input_free (h : Inv maxFrameSize size s) {n : Nat} (hn : s.popped ≤ n)
    (hlt : n < s.pushed.length) : n % capacity size ≠ s.input := by
  intro he
  have hroom := h.room
  rw [h.input] at he
  exact absurd (Ring.eq_of_mod_eq hn (by omega) h.popped_le hroom he) (Nat.ne_of_lt hlt)

theorem Inv.blank_input (h : Inv maxFrameSize size s) :
    s.frameBuffer s.input = blank maxFrameSize :=
  h.free s.input fun _ hn hlt => h.input_free hn hlt

theorem Inv.push (h : Inv maxFrameSize size s) (hfull : ¬ isFull size s) {holder : StackHolder}
    {fb : List CallFrame} {w : Option Outcome} (hw : Holds maxFrameSize holder fb w) :
    Inv maxFrameSize size
      { s with
        input := Ring.advance (capacity size) s.input
        buffer := Function.update s.buffer s.input holder
        frameBuffer := Function.update s.frameBuffer s.input fb
        pushed := s.pushed ++ [w] } where
  input := by
    show Ring.advance _ s.input = (s.pushed ++ [w]).length % _
    rw [h.input, Ring.advance_mod, List.length_append]
    rfl
  output := h.output
  popped_le := by
    have hle := h.popped_le
    simp only [List.length_append]
    omega
  room := by
    have hroom := h.room
    have hne : s.pushed.length + 1 ≠ s.popped + capacity size := fun he => hfull (by
      rw [isFull, h.input, h.output]
      exact (Ring.mod_eq_advance_iff h.popped_le hroom).mpr he)
    simp only [List.length_append, List.length_singleton]
    omega
  held := by
    intro n w' hn hw'
    show Holds maxFrameSize (Function.update s.buffer s.input holder (n % capacity size))
      (Function.update s.frameBuffer s.input fb (n % capacity size)) w'
    rcases Nat.lt_trichotomy n s.pushed.length with hlt | rfl | hgt
    · have hne := h.input_free hn hlt
      rw [Function.update_of_ne hne, Function.update_of_ne hne]
      rw [List.getElem?_append_left hlt] at hw'
      exact h.held n w' hn hw'
    · rw [List.getElem?_concat_length] at hw'
      cases hw'
      rw [h.input, Function.update_self, Function.update_self]
      exact hw
    · have hlength : (s.pushed ++ [w]).length ≤ n := by
        rw [List.length_append]
        exact hgt
      rw [List.getElem?_eq_none hlength] at hw'
      cases hw'
  free := by
    intro i hi
    have hne : i ≠ s.input := fun he =>
      hi s.pushed.length h.popped_le (by simp) (by rw [he, h.input])
    show Function.update s.frameBuffer s.input fb i = _
    rw [Function.update_of_ne hne]
    exact h.free i fun n hn hlt => hi n hn (by simp only [List.length_append]; omega)

/-- The oldest record goes, and leaves a blank buffer. -/
theorem Inv.release (h : Inv maxFrameSize size s) (hlt : s.popped < s.pushed.length) :
    Inv maxFrameSize size
      { s with
        output := Ring.advance (capacity size) s.output
        popped := s.popped + 1
        frameBuffer := Function.update s.frameBuffer s.output (blank maxFrameSize) } where
  input := h.input
  output := by
    show Ring.advance _ s.output = _
    rw [h.output, Ring.advance_mod]
  popped_le := hlt
  room := by
    have hroom := h.room
    show s.pushed.length < s.popped + 1 + _
    omega
  held := by
    intro n w hn hw
    have hlength : n < s.pushed.length := (List.getElem?_eq_some_iff.mp hw).1
    have hroom := h.room
    have hne : n % capacity size ≠ s.output := by
      rw [h.output]
      intro he
      have heq :=
        Ring.eq_of_mod_eq (Nat.le_of_lt hn) (by omega) (Nat.le_refl s.popped) (by omega) he
      exact absurd heq (Nat.ne_of_gt hn)
    show Holds _ _ (Function.update s.frameBuffer s.output _ _) w
    rw [Function.update_of_ne hne]
    exact h.held n w (Nat.le_of_lt hn) hw
  free := by
    intro i hi
    show Function.update s.frameBuffer s.output _ i = _
    by_cases hio : i = s.output
    · rw [hio, Function.update_self]
    · rw [Function.update_of_ne hio]
      refine h.free i fun n hn hlt' he => ?_
      rcases Nat.eq_or_lt_of_le hn with rfl | hn
      · exact hio (by rw [← he, h.output])
      · exact hi n hn hlt' he

/-! ## Runs -/

theorem Inv.pushStackTrace (h : Inv maxFrameSize size s) (ho : o.frames.length ≤ maxFrameSize) :
    Inv maxFrameSize size (pushStackTrace size s o) := by
  unfold HandOver.pushStackTrace
  split
  · exact h
  · rename_i hfull
    refine h.push hfull ⟨rfl, ho, ?_⟩
    rw [h.blank_input]

theorem Inv.pushThread (h : Inv maxFrameSize size s) :
    Inv maxFrameSize size (pushThread size s) := by
  unfold HandOver.pushThread
  split
  · exact h
  · rename_i hfull
    have hholds : Holds maxFrameSize { s.buffer s.input with elementType := .thread }
        (s.frameBuffer s.input) none := ⟨rfl, h.blank_input⟩
    have hpush := h.push hfull hholds
    rwa [Function.update_eq_self] at hpush

theorem Inv.output_eq_input (h : Inv maxFrameSize size s) :
    s.output = s.input ↔ s.popped = s.pushed.length := by
  rw [h.input, h.output]
  refine ⟨fun he => ?_, fun he => by rw [he]⟩
  exact Ring.eq_of_mod_eq (Nat.le_refl _) (Nat.lt_add_of_pos_right (Nat.succ_pos size))
    h.popped_le h.room he

/-- A pop hands over the oldest record as its slot holds it. -/
theorem Inv.pop (h : Inv maxFrameSize size s) :
    Inv maxFrameSize size (pop size s) ∧ (Faithful (pop size s) ↔ Recovers s .pop) := by
  unfold HandOver.pop
  by_cases hempty : s.output = s.input
  · have hnone : s.pushed[s.popped]? = none :=
      List.getElem?_eq_none (Nat.le_of_eq (h.output_eq_input.mp hempty).symm)
    rw [if_pos hempty]
    exact ⟨h.of_eq, ⟨fun _ o ho => (by rw [hnone] at ho; cases ho), fun _ => trivial⟩⟩
  · have hlt : s.popped < s.pushed.length :=
      Nat.lt_of_le_of_ne h.popped_le fun he => hempty (h.output_eq_input.mpr he)
    obtain ⟨w, hw⟩ : ∃ w, s.pushed[s.popped]? = some w := ⟨_, List.getElem?_eq_getElem hlt⟩
    have hheld := h.held s.popped w (Nat.le_refl _) hw
    rw [← h.output] at hheld
    rw [if_neg hempty]
    cases w with
    | some o =>
      obtain ⟨hholder, hlength, hfb⟩ := hheld
      have hclear := clear_write hlength
      simp only [hholder, hfb, hclear, hw]
      refine ⟨(h.release hlt).of_eq,
        (recovered_iff hlength).trans ⟨fun hr o' ho' => ?_, fun hr => ?_⟩⟩
      · cases hw.symm.trans ho'
        exact hr
      · exact hr o hw
    | none =>
      obtain ⟨hthread, hfb⟩ := hheld
      simp only [hthread, hw]
      have hrelease := (h.release hlt).of_eq (r := some (none, none))
      rw [← hfb, Function.update_eq_self] at hrelease
      refine ⟨hrelease, ⟨fun _ o ho => ?_, fun _ => trivial⟩⟩
      cases hw.symm.trans ho

theorem Inv.next {a : Label} (h : Inv maxFrameSize size s)
    (hs : step size maxFrameSize s a = some t) :
    Inv maxFrameSize size t ∧ (Faithful t ↔ Recovers s a) := by
  cases a with
  | handle signum o =>
    obtain ⟨ho, rfl⟩ := Option.ite_some_none_eq_some.mp hs
    refine ⟨?_, Iff.rfl⟩
    unfold handle
    split
    · exact (h.pushStackTrace ho).of_eq
    · exact h.of_eq
  | pushThread =>
    cases hs
    exact ⟨h.pushThread.of_eq, Iff.rfl⟩
  | pop =>
    cases hs
    exact h.pop

/-- **Every trace is handed over as it was captured** if and only if no failure
is popped that had no frames, or that had frames to be read. -/
theorem faithful_iff_recovers (maxFrameSize size : Nat) (labels : List Label) :
    Along (step size maxFrameSize) Faithful (init maxFrameSize) labels ↔
      Steps (step size maxFrameSize) Recovers (init maxFrameSize) labels :=
  along_iff_steps (I := fun s => Inv maxFrameSize size s ∧ Faithful s)
    (fun _ _ _ h hok hs => ⟨(h.1.next hs).1, (h.1.next hs).2.mpr hok⟩) (fun _ h => h.2)
    (fun _ _ _ h _ hs ht => (h.1.next hs).2.mp ht) ⟨init_inv, trivial⟩

/-- A capture that failed before its first frame. -/
def contextFailure : Outcome := ⟨.getContextFail, []⟩

theorem context_failure_lost :
    ¬ Along (step 2048 256) Faithful (init 256) [.handle sigprof contextFailure, .pop] := by
  refine not_along_of_run (List.prefix_refl _) rfl fun h => ?_
  exact absurd (h.1.mpr rfl) (by decide)

end Opsian.Queue.HandOver
