import Mathlib.Logic.Function.Basic
import Opsian.Lib.Runs
import Opsian.Queue.HandOver

/-! # The capture of a stack

`linkable_handle` walks the stack in the signal handler: libunwind leads through
the foreign frames, and from the first frame with a code fragment on the frame
descriptors of OCaml do. What either of them answers is part of the label. -/
namespace Opsian.Signals.LinkableProfiler
open Opsian.Lib.Runs
open Opsian.Prometheus.Exporter (CallFrame)
open Opsian.Queue.HandOver (ErrorType)
open Opsian.Writer.LogWriter (maxFrames)

/-- The call that comes next. -/
inductive Place where
  | getContext
  | initLocal
  | unwinding
  /-- At `caml_next_frame_descriptor`. -/
  | descriptors (firstOcamlFrame : Bool)
  | returned
  deriving DecidableEq, Repr

structure ErrorHolder where
  type : ErrorType
  errorCode : Int
  deriving DecidableEq, Repr

structure State where
  place : Place
  numFrames : Int
  /-- The array, as far as it has been written. -/
  frames : Int → Option CallFrame
  holder : ErrorHolder
  /-- What was found where the array was read. -/
  reads : List (Option CallFrame)

/-- The holder comes from `Profiler::handle`. -/
def init : State where
  place := .getContext
  numFrames := 0
  frames := fun _ => none
  holder := ⟨.success, 0⟩
  reads := []

/-- A frame descriptor, and the `pc` that was updated with it. -/
structure Descriptor where
  retaddr : UInt64
  pc : UInt64
  deriving DecidableEq, Repr

namespace State

def fail (s : State) (type : ErrorType) (errorCode : Int) : State :=
  { s with holder := ⟨type, errorCode⟩, place := .returned }

def store (s : State) (frame : CallFrame) : State :=
  { s with
    frames := Function.update s.frames s.numFrames (some frame)
    numFrames := s.numFrames + 1 }

/-- The head of the outer loop. -/
def unwind (s : State) : State :=
  { s with place := if s.numFrames < maxFrames then .unwinding else .returned }

/-- Behind the inner loop: without a descriptor libunwind has another go. -/
def leave (s : State) (firstOcamlFrame : Bool) : State :=
  if firstOcamlFrame then s.unwind else { s with place := .returned }

/-- The head of the inner loop. -/
def descend (s : State) (firstOcamlFrame : Bool) : State :=
  if s.numFrames < maxFrames then { s with place := .descriptors firstOcamlFrame }
  else s.leave firstOcamlFrame

/-- `frames[num_frames - 1]`. -/
def last (s : State) : Option CallFrame := s.frames (s.numFrames - 1)

/-- The return address is not to the previous function. -/
def Broken (s : State) (fd : Descriptor) : Prop := s.last.map CallFrame.frame ≠ some fd.retaddr

instance (s : State) (fd : Descriptor) : Decidable (s.Broken fd) :=
  inferInstanceAs (Decidable (_ ≠ _))

/-- The body of the inner loop behind a descriptor. -/
def addDescriptor (s : State) (fd : Descriptor) : State :=
  let t := { s with reads := s.reads ++ [s.last] }
  let t := if s.Broken fd then t.store ⟨false, fd.retaddr⟩ else t
  t.store ⟨false, fd.pc⟩

/-- One round of the outer loop: what `unw_step` returns, the instruction pointer, and
whether a code fragment is found for it. -/
def addUnwound (s : State) (ret : Int) (ip : UInt64) (frag : Bool) : State :=
  if ret = 0 then { s with place := .returned }
  else if ret < 0 then s.fail .stepFail ret
  else
    let t := s.store ⟨!frag, ip⟩
    if frag then t.descend true else t.unwind

end State

inductive Label where
  | getContext (ret : Int)
  | initLocal (ret : Int)
  | unwStep (ret : Int) (ip : UInt64) (frag : Bool)
  | nextFrameDescriptor (fd : Option Descriptor)
  deriving DecidableEq, Repr

def step (s : State) : Label → Option State
  | .getContext ret =>
    if s.place = .getContext then
      some (if ret < 0 then s.fail .getContextFail ret else { s with place := .initLocal })
    else none
  | .initLocal ret =>
    if s.place = .initLocal then
      some (if ret < 0 then s.fail .initLocalFail ret else s.unwind)
    else none
  | .unwStep ret ip frag =>
    if s.place = .unwinding then some (s.addUnwound ret ip frag) else none
  | .nextFrameDescriptor fd =>
    match s.place, fd with
    | .descriptors first, none => some (s.leave first)
    | .descriptors _, some fd => some ((s.addDescriptor fd).descend false)
    | _, _ => none

/-- The capture stays in its array: what is stored is inside, what is read was stored, and
the count that is returned is no more than the array holds. -/
structure InBounds (s : State) : Prop where
  stored : ∀ i, (s.frames i).isSome = true → 0 ≤ i ∧ i < maxFrames
  read : ∀ found ∈ s.reads, found.isSome = true
  count : s.place = .returned → s.numFrames ≤ maxFrames

/-- No descriptor breaks the chain where one cell is left. -/
def Unbroken (s : State) : Label → Prop
  | .nextFrameDescriptor (some fd) => s.numFrames + 1 = maxFrames → ¬ s.Broken fd
  | _ => True

/-! ## The invariant -/

/-- Exactly the cells below the count are written. -/
structure Inv (s : State) : Prop where
  nonneg : 0 ≤ s.numFrames
  le : s.numFrames ≤ maxFrames
  written : ∀ i, (s.frames i).isSome = true ↔ 0 ≤ i ∧ i < s.numFrames
  read : ∀ found ∈ s.reads, found.isSome = true
  unwinding : s.place = .unwinding → s.numFrames < maxFrames
  descriptors : ∀ first, s.place = .descriptors first →
    0 < s.numFrames ∧ s.numFrames < maxFrames

variable {s t : State} {a : Label} {fd : Descriptor}

theorem Inv.inBounds (h : Inv s) : InBounds s where
  stored := fun i hi => by
    obtain ⟨hpos, hlt⟩ := (h.written i).mp hi
    exact ⟨hpos, Int.lt_of_lt_of_le hlt h.le⟩
  read := h.read
  count := fun _ => h.le

theorem init_inv : Inv init where
  nonneg := Int.le_refl 0
  le := by decide
  written := fun i => ⟨nofun, fun hi => absurd hi.2 (Int.not_lt.mpr hi.1)⟩
  read := List.forall_mem_nil _
  unwinding := nofun
  descriptors := nofun

/-! ## One store -/

/-- What holds while cells are filled, wherever the loops stand. -/
structure Filled (s : State) : Prop where
  nonneg : 0 ≤ s.numFrames
  written : ∀ i, (s.frames i).isSome = true ↔ 0 ≤ i ∧ i < s.numFrames
  read : ∀ found ∈ s.reads, found.isSome = true

theorem Inv.filled (h : Inv s) : Filled s := ⟨h.nonneg, h.written, h.read⟩

theorem Filled.store (h : Filled s) (frame : CallFrame) : Filled (s.store frame) where
  nonneg := Int.le_trans h.nonneg (Int.le_add_one (Int.le_refl _))
  written := by
    intro i
    have hpos := h.nonneg
    show (Function.update s.frames s.numFrames (some frame) i).isSome = true ↔
      0 ≤ i ∧ i < s.numFrames + 1
    by_cases hi : i = s.numFrames
    · rw [hi, Function.update_self, Option.isSome_some]
      exact ⟨fun _ => by omega, fun _ => rfl⟩
    · rw [Function.update_of_ne hi, h.written]
      omega
  read := h.read

/-- The cell before the count is there to be read. -/
theorem Filled.look (h : Filled s) (hpos : 0 < s.numFrames) :
    Filled { s with reads := s.reads ++ [s.last] } where
  nonneg := h.nonneg
  written := h.written
  read := by
    intro found hfound
    rcases List.mem_append.mp hfound with hold | hnew
    · exact h.read found hold
    · rw [List.mem_singleton.mp hnew]
      exact (h.written _).mpr (by omega)

/-! ## Back to a loop -/

theorem Filled.returned (h : Filled s) (hle : s.numFrames ≤ maxFrames) :
    Inv { s with place := .returned } :=
  ⟨h.nonneg, hle, h.written, h.read, nofun, nofun⟩

theorem Filled.unwind (h : Filled s) (hle : s.numFrames ≤ maxFrames) : Inv s.unwind := by
  unfold State.unwind
  split
  · rename_i hlt
    exact ⟨h.nonneg, hle, h.written, h.read, fun _ => hlt, nofun⟩
  · exact h.returned hle

theorem Filled.leave (h : Filled s) (hle : s.numFrames ≤ maxFrames) (first : Bool) :
    Inv (s.leave first) := by
  unfold State.leave
  split
  · exact h.unwind hle
  · exact h.returned hle

theorem Filled.descend (h : Filled s) (hpos : 0 < s.numFrames) (hle : s.numFrames ≤ maxFrames)
    (first : Bool) : Inv (s.descend first) := by
  unfold State.descend
  split
  · rename_i hlt
    exact ⟨h.nonneg, hle, h.written, h.read, nofun, fun _ _ => ⟨hpos, hlt⟩⟩
  · exact h.leave hle first

theorem Inv.fail (h : Inv s) (type : ErrorType) (errorCode : Int) : Inv (s.fail type errorCode) :=
  ⟨h.nonneg, h.le, h.written, h.read, nofun, nofun⟩

/-! ## The steps -/

theorem Inv.addUnwound (h : Inv s) (hs : s.place = .unwinding) (ret : Int) (ip : UInt64)
    (frag : Bool) : Inv (s.addUnwound ret ip frag) := by
  unfold State.addUnwound
  split
  · exact h.filled.returned h.le
  · split
    · exact h.fail .stepFail ret
    · have hfilled := h.filled.store ⟨!frag, ip⟩
      have hle : s.numFrames + 1 ≤ maxFrames := h.unwinding hs
      have hpos : 0 < s.numFrames + 1 := Int.lt_add_one_of_le h.nonneg
      split
      · exact hfilled.descend hpos hle true
      · exact hfilled.unwind hle

/-- A descriptor fills one cell, or two where the chain is broken. -/
theorem addDescriptor_numFrames (s : State) (fd : Descriptor) :
    (s.addDescriptor fd).numFrames = s.numFrames + if s.Broken fd then 2 else 1 := by
  unfold State.addDescriptor
  split
  · exact Int.add_assoc s.numFrames 1 1
  · rfl

theorem Filled.addDescriptor (h : Filled s) (hpos : 0 < s.numFrames) (fd : Descriptor) :
    Filled (s.addDescriptor fd) := by
  unfold State.addDescriptor
  split
  · exact ((h.look hpos).store _).store _
  · exact (h.look hpos).store _

theorem Inv.addDescriptor (h : Inv s) {first : Bool} (hs : s.place = .descriptors first)
    (hok : s.numFrames + 1 = maxFrames → ¬ s.Broken fd) :
    Inv ((s.addDescriptor fd).descend false) := by
  obtain ⟨hpos, hlt⟩ := h.descriptors first hs
  refine (h.filled.addDescriptor hpos fd).descend ?_ ?_ false
  · rw [addDescriptor_numFrames]
    split <;> omega
  · rw [addDescriptor_numFrames]
    split
    · rename_i hb
      have hne : s.numFrames + 1 ≠ maxFrames := fun hlast => hok hlast hb
      omega
    · omega

/-- The second frame of a broken chain has no cell left. -/
theorem not_inBounds_of_broken (hlast : s.numFrames + 1 = maxFrames) (hb : s.Broken fd) :
    ¬ InBounds ((s.addDescriptor fd).descend false) := by
  have hcount := addDescriptor_numFrames s fd
  rw [if_pos hb] at hcount
  intro hin
  rw [State.descend, if_neg (by omega)] at hin
  have hle : (s.addDescriptor fd).numFrames ≤ maxFrames := hin.count rfl
  omega

theorem step_nextFrameDescriptor {fd : Option Descriptor}
    (hs : step s (.nextFrameDescriptor fd) = some t) :
    ∃ first, s.place = .descriptors first ∧
      t = fd.elim (s.leave first) fun fd => (s.addDescriptor fd).descend false := by
  unfold step at hs
  simp only at hs
  split at hs
  · cases hs
    exact ⟨_, by assumption, rfl⟩
  · cases hs
    exact ⟨_, by assumption, rfl⟩
  · cases hs

theorem Inv.next (h : Inv s) (hok : Unbroken s a) (hs : step s a = some t) : Inv t := by
  cases a with
  | getContext ret =>
    obtain ⟨-, rfl⟩ := Option.ite_some_none_eq_some.mp hs
    split
    · exact h.fail .getContextFail ret
    · exact ⟨h.nonneg, h.le, h.written, h.read, nofun, nofun⟩
  | initLocal ret =>
    obtain ⟨-, rfl⟩ := Option.ite_some_none_eq_some.mp hs
    split
    · exact h.fail .initLocalFail ret
    · exact h.filled.unwind h.le
  | unwStep ret ip frag =>
    obtain ⟨hplace, rfl⟩ := Option.ite_some_none_eq_some.mp hs
    exact h.addUnwound hplace ret ip frag
  | nextFrameDescriptor fd =>
    obtain ⟨first, hplace, rfl⟩ := step_nextFrameDescriptor hs
    cases fd with
    | none => exact h.filled.leave h.le first
    | some fd => exact h.addDescriptor hplace hok

theorem unbroken_of_inBounds (hs : step s a = some t) (ht : InBounds t) :
    Unbroken s a := by
  cases a with
  | nextFrameDescriptor fd =>
    obtain ⟨first, hplace, rfl⟩ := step_nextFrameDescriptor hs
    cases fd with
    | none => trivial
    | some fd => exact fun hlast hb => not_inBounds_of_broken hlast hb ht
  | _ => trivial

/-- **The capture stays in its array**, whatever the unwinder and the descriptors answer, if
and only if the chain is never broken where one cell is left. -/
theorem inBounds_iff_unbroken (labels : List Label) :
    Along step InBounds init labels ↔ Steps step Unbroken init labels :=
  along_iff_steps (fun _ _ _ h hok hs => h.next hok hs) (fun _ h => h.inBounds)
    (fun _ _ _ _ _ hs ht => unbroken_of_inBounds hs ht) init_inv

/-- So many foreign frames. -/
theorem run_foreign {n : Nat} (hs : s.place = .unwinding) (h : s.numFrames + n < maxFrames) :
    ∃ t, run step s (List.replicate n (.unwStep 1 5 false)) = some t ∧ t.place = .unwinding ∧
      t.numFrames = s.numFrames + n := by
  induction n generalizing s with
  | zero => exact ⟨s, rfl, hs, (Int.add_zero _).symm⟩
  | succ n ih =>
    have hstep : step s (.unwStep 1 5 false) = some (s.store ⟨true, 5⟩).unwind := if_pos hs
    have hplace : (s.store ⟨true, 5⟩).unwind.place = .unwinding := by
      refine if_pos ?_
      show s.numFrames + 1 < maxFrames
      omega
    obtain ⟨t, hrun, ht, hcount⟩ := ih hplace (by
      show s.numFrames + 1 + n < maxFrames
      omega)
    refine ⟨t, ?_, ht, ?_⟩
    · rw [List.replicate_succ, run, hstep]
      exact hrun
    · have hone : t.numFrames = s.numFrames + 1 + n := hcount
      omega

/-- A frame of OCaml in the last cell but one, and a descriptor that is not its caller's. -/
def brokenAtTheEnd : List Label :=
  [.getContext 0, .initLocal 0] ++ List.replicate 254 (.unwStep 1 5 false) ++
    [.unwStep 1 7 true, .nextFrameDescriptor (some ⟨8, 9⟩)]

theorem one_past_the_end : ¬ Along step InBounds init brokenAtTheEnd := by
  have hstart : run step init [.getContext 0, .initLocal 0] =
      some { init with place := .unwinding } := rfl
  have hroom : init.numFrames + (254 : Nat) < maxFrames := by decide
  obtain ⟨s, hs, hplace, hcount⟩ := run_foreign (s := { init with place := .unwinding }) rfl hroom
  have hlast : (s.store ⟨false, 7⟩).numFrames + 1 = maxFrames := by
    show s.numFrames + 1 + 1 = maxFrames
    rw [hcount]
    rfl
  have hframe : (s.store ⟨false, 7⟩).last = some ⟨false, 7⟩ := by
    unfold State.last State.store
    simp
  have hocaml : step s (.unwStep 1 7 true) =
      some { s.store ⟨false, 7⟩ with place := .descriptors true } := by
    rw [step, if_pos hplace]
    show some ((s.store ⟨false, 7⟩).descend true) = _
    rw [State.descend, if_pos (by omega)]
  refine not_along_of_run (List.prefix_refl _) ?_
    (not_inBounds_of_broken (s := { s.store ⟨false, 7⟩ with place := .descriptors true }) hlast
      (?_ : State.Broken _ ⟨8, 9⟩))
  · rw [brokenAtTheEnd, run_append, run_append, hstart, Option.bind_some, hs, Option.bind_some, run,
      hocaml]
    rfl
  · show (s.store ⟨false, 7⟩).last.map CallFrame.frame ≠ some 8
    rw [hframe]
    decide

/-! ## The loops end -/

def Place.weight : Place → Nat
  | .getContext => 4
  | .initLocal => 3
  | .descriptors _ => 2
  | .unwinding => 1
  | .returned => 0

/-- What bounds the calls that are still to come. -/
def State.left (s : State) : Nat := 3 * (maxFrames - s.numFrames).toNat + s.place.weight

/-- A loop goes on where a cell is left. -/
def Room (s : State) : Prop := s.place.weight = 1 ∨ s.place.weight = 2 → s.numFrames < maxFrames

theorem unwind_room (s : State) :
    Room s.unwind ∧ s.unwind.left ≤ 3 * (maxFrames - s.numFrames).toNat + 1 := by
  unfold State.unwind
  split
  · rename_i hlt
    exact ⟨fun _ => hlt, Nat.le_refl _⟩
  · exact ⟨by simp [Room, Place.weight], Nat.le_succ _⟩

theorem leave_room (s : State) (first : Bool) :
    Room (s.leave first) ∧ (s.leave first).left ≤ 3 * (maxFrames - s.numFrames).toNat + 1 := by
  unfold State.leave
  split
  · exact unwind_room s
  · exact ⟨by simp [Room, Place.weight], Nat.le_succ _⟩

theorem descend_room (s : State) (first : Bool) :
    Room (s.descend first) ∧ (s.descend first).left ≤ 3 * (maxFrames - s.numFrames).toNat + 2 := by
  unfold State.descend
  split
  · rename_i hlt
    exact ⟨fun _ => hlt, Nat.le_refl _⟩
  · obtain ⟨hroom, hle⟩ := leave_room s first
    exact ⟨hroom, Nat.le_succ_of_le hle⟩

theorem returned_room (s : State) : Room { s with place := .returned } ∧
    State.left { s with place := .returned } ≤ 3 * (maxFrames - s.numFrames).toNat :=
  ⟨by simp [Room, Place.weight], Nat.le_refl _⟩

/-- A cell that is filled pays for the call behind it. -/
theorem store_pays (h : s.numFrames < maxFrames) {u : State} (hu : s.numFrames < u.numFrames) :
    3 * (maxFrames - u.numFrames).toNat + 2 < 3 * (maxFrames - s.numFrames).toNat + 1 := by
  omega

theorem step_left (h : Room s) (hs : step s a = some t) : Room t ∧ t.left < s.left := by
  cases a with
  | getContext ret =>
    obtain ⟨hplace, rfl⟩ := Option.ite_some_none_eq_some.mp hs
    unfold State.left
    rw [hplace]
    split
    · exact ⟨(returned_room s).1, Nat.lt_add_of_pos_right (by decide)⟩
    · exact ⟨by simp [Room, Place.weight], Nat.add_lt_add_left (Nat.lt_succ_self 3) _⟩
  | initLocal ret =>
    obtain ⟨hplace, rfl⟩ := Option.ite_some_none_eq_some.mp hs
    have hleft : s.left = 3 * (maxFrames - s.numFrames).toNat + 3 := by
      rw [State.left, hplace]
      rfl
    rw [hleft]
    split
    · exact ⟨(returned_room s).1, Nat.lt_add_of_pos_right (by decide)⟩
    · obtain ⟨hroom, hle⟩ := unwind_room s
      exact ⟨hroom, by omega⟩
  | unwStep ret ip frag =>
    obtain ⟨hplace, rfl⟩ := Option.ite_some_none_eq_some.mp hs
    have hleft : s.left = 3 * (maxFrames - s.numFrames).toNat + 1 := by
      rw [State.left, hplace]
      rfl
    have hlt : s.numFrames < maxFrames := h (.inl (by rw [hplace]; rfl))
    rw [hleft]
    unfold State.addUnwound
    split
    · exact ⟨(returned_room s).1, Nat.lt_succ_of_le (returned_room s).2⟩
    · split
      · exact ⟨(returned_room s).1, Nat.lt_succ_of_le (returned_room s).2⟩
      · have hpays := store_pays hlt (u := s.store ⟨!frag, ip⟩) (Int.lt_succ _)
        split
        · obtain ⟨hroom, hle⟩ := descend_room (s.store ⟨!frag, ip⟩) true
          exact ⟨hroom, Nat.lt_of_le_of_lt hle hpays⟩
        · obtain ⟨hroom, hle⟩ := unwind_room (s.store ⟨!frag, ip⟩)
          exact ⟨hroom, Nat.lt_of_le_of_lt hle (Nat.lt_of_succ_lt hpays)⟩
  | nextFrameDescriptor fd =>
    obtain ⟨first, hplace, rfl⟩ := step_nextFrameDescriptor hs
    have hleft : s.left = 3 * (maxFrames - s.numFrames).toNat + 2 := by
      rw [State.left, hplace]
      rfl
    have hlt : s.numFrames < maxFrames := h (.inr (by rw [hplace]; rfl))
    rw [hleft]
    cases fd with
    | none =>
      obtain ⟨hroom, hle⟩ := leave_room s first
      exact ⟨hroom, Nat.lt_succ_of_le hle⟩
    | some fd =>
      have hcount := addDescriptor_numFrames s fd
      have hpays := store_pays hlt (u := s.addDescriptor fd) (by rw [hcount]; split <;> omega)
      obtain ⟨hroom, hle⟩ := descend_room (s.addDescriptor fd) false
      exact ⟨hroom, Nat.lt_of_le_of_lt hle (Nat.lt_succ_of_lt hpays)⟩

/-- **`linkable_handle` returns**, after so many answers at the latest. -/
theorem length_le (labels : List Label) (hr : run step init labels = some t) :
    labels.length ≤ 772 :=
  length_le_of_measure State.left (fun _ _ _ h hs => step_left h hs)
    (fun h => by simp [init, Place.weight] at h) hr

end Opsian.Signals.LinkableProfiler
