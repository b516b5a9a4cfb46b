import Mathlib.Data.List.Basic
import Opsian.Signals.LinkableProfiler

/-! # What a capture is of

The stack of an interrupted thread is a path of calls. libunwind tells of its frames one by
one; from a frame of OCaml on, the frame descriptors tell of the callers in the same chunk of
the stack, and then of the chunks below it, with C between them. A capture is the innermost
part of that path, whichever of the two has told of it. -/
namespace Opsian.Signals.CallPath
open Opsian.Lib.Runs Opsian.Signals.LinkableProfiler
open Opsian.Prometheus.Exporter (CallFrame)
open Opsian.Queue.HandOver (ErrorType)
open Opsian.Writer.LogWriter (maxFrames)

/-! ## Stacks -/

/-- A chunk that the descriptors skip to: its return addresses, the innermost first. The
descriptor of the first comes with the second, so there are two at least. -/
structure Chunk where
  first : UInt64
  second : UInt64
  rest : List UInt64
  deriving DecidableEq, Repr

def Chunk.addresses (c : Chunk) : List UInt64 := c.first :: c.second :: c.rest

/-- A frame that libunwind finds. That of OCaml comes with the callers that the descriptors
tell of, which is none where its own instruction pointer has no descriptor. -/
inductive Unwound where
  | foreign (ip : UInt64)
  | ocaml (ip : UInt64) (callers : List UInt64) (chunks : List Chunk)
  deriving DecidableEq, Repr

/-- The address that a chunk ends in, which is one of the runtime's, is none that a chunk
begins with. -/
def Apart : UInt64 → List Chunk → Prop
  | _, [] => True
  | pc, c :: chunks => c.first ≠ pc ∧ Apart (c.rest.getLastD c.second) chunks

def Unwound.Apart : Unwound → Prop
  | .foreign _ => True
  | .ocaml ip callers chunks => CallPath.Apart (callers.getLastD ip) chunks

/-- A stack on which each break between chunks is to be seen. -/
structure Stack where
  unwound : List Unwound
  /-- What `unw_step` returns behind the last frame. -/
  ending : Int
  ending_nonpos : ending ≤ 0
  apart : ∀ u ∈ unwound, u.Apart

/-- What the descriptors tell of. -/
def walked (callers : List UInt64) (chunks : List Chunk) : List UInt64 :=
  callers ++ chunks.flatMap Chunk.addresses

def ocamlFrames (addresses : List UInt64) : List CallFrame := addresses.map (⟨false, ·⟩)

/-- The frames from the innermost out. Where the descriptors go on, libunwind does not. -/
def callPath : List Unwound → List CallFrame
  | [] => []
  | .foreign ip :: us => ⟨true, ip⟩ :: callPath us
  | .ocaml ip callers chunks :: us =>
    ⟨false, ip⟩ :: if walked callers chunks = [] then callPath us
      else ocamlFrames (walked callers chunks)

/-- Where the chunks begin, behind so many frames. -/
def starts : Nat → List Chunk → List Nat
  | _, [] => []
  | n, c :: chunks => n :: starts (n + c.addresses.length) chunks

/-- Where the chunks of a path begin, which is where a return address is not to the previous
function. -/
def breaks : Nat → List Unwound → List Nat
  | _, [] => []
  | n, .foreign _ :: us => breaks (n + 1) us
  | n, .ocaml _ callers chunks :: us =>
    if walked callers chunks = [] then breaks (n + 1) us
    else starts (n + 1 + callers.length) chunks

/-- How much of a path is captured: what the array has cells for, and a frame more where a
chunk begins in the last cell. -/
def limit (us : List Unwound) : Nat :=
  if maxFrames - 1 ∈ breaks 0 us then maxFrames + 1 else maxFrames

/-! ## The walk -/

/-- How far the two have told of the stack. -/
structure Cursor where
  pc : UInt64
  callers : List UInt64
  chunks : List Chunk
  unwound : List Unwound
  deriving DecidableEq, Repr

/-- What the stack answers to a call. -/
def Cursor.answer (ending : Int) (c : Cursor) : Label → Option Cursor
  | .getContext _ | .initLocal _ => some c
  | .unwStep ret ip frag =>
    match c.unwound with
    | [] => if ret = ending then some c else none
    | .foreign pc :: us =>
      if 0 < ret ∧ ip = pc ∧ frag = false then some { c with unwound := us } else none
    | .ocaml pc callers chunks :: us =>
      if 0 < ret ∧ ip = pc ∧ frag = true then some ⟨pc, callers, chunks, us⟩ else none
  | .nextFrameDescriptor fd =>
    match c.callers, c.chunks with
    | next :: callers, _ =>
      if fd = some ⟨c.pc, next⟩ then some { c with pc := next, callers := callers } else none
    | [], chunk :: chunks =>
      if fd = some ⟨chunk.first, chunk.second⟩ then
        some { c with pc := chunk.second, callers := chunk.rest, chunks := chunks }
      else none
    | [], [] => if fd = none then some c else none

def init (stack : Stack) : State × Cursor := (LinkableProfiler.init, ⟨0, [], [], stack.unwound⟩)

/-- A step of `linkable_handle` on a stack. -/
def step (stack : Stack) (x : State × Cursor) (a : Label) : Option (State × Cursor) :=
  (x.2.answer stack.ending a).bind fun c => (LinkableProfiler.step x.1 a).map fun s => (s, c)

/-- The array holds these frames, and nothing else. -/
structure Holds (s : State) (frames : List CallFrame) : Prop where
  count : s.numFrames = frames.length
  cells : ∀ i : Int, s.frames i = if 0 ≤ i then frames[i.toNat]? else none

/-- What `linkable_handle` returns with. -/
def Returned (stack : Stack) (s : State) : Prop :=
  match s.holder.type with
  | .success => Holds s ((callPath stack.unwound).take (limit stack.unwound))
  | .stepFail => Holds s (callPath stack.unwound) ∧ s.holder.errorCode = stack.ending ∧
      stack.ending < 0
  | .getContextFail | .initLocalFail => Holds s []

/-- The frames stored are the innermost of the path; on return they are all that there is
room for. -/
structure Captures (stack : Stack) (s : State) : Prop where
  stored : ∃ n, Holds s ((callPath stack.unwound).take n)
  returned : s.place = .returned → Returned stack s

variable {stack : Stack} {s t : State} {c : Cursor} {stored : List CallFrame} {x y : State × Cursor}
  {a : Label} {n k : Nat}

/-! ## The array -/

theorem init_holds : Holds LinkableProfiler.init [] where
  count := rfl
  cells i := by simp [LinkableProfiler.init]

theorem Holds.store (h : Holds s stored) (frame : CallFrame) :
    Holds (s.store frame) (stored ++ [frame]) where
  count := by
    rw [List.length_append]
    exact congrArg (· + 1) h.count
  cells := by
    intro i
    show Function.update s.frames s.numFrames (some frame) i = _
    rw [h.count]
    by_cases hi : i = stored.length
    · subst hi
      simp
    · rw [Function.update_of_ne hi, h.cells]
      by_cases hpos : 0 ≤ i
      · rw [if_pos hpos, if_pos hpos, List.getElem?_append]
        by_cases hlt : i.toNat < stored.length
        · rw [if_pos hlt]
        · have hge : [frame].length ≤ i.toNat - stored.length := by
            rw [List.length_singleton]
            omega
          rw [if_neg hlt, List.getElem?_eq_none hge, List.getElem?_eq_none (by omega)]
      · rw [if_neg hpos, if_neg hpos]

/-- The cell before the count. -/
theorem Holds.last {frame : CallFrame} (h : Holds s (stored ++ [frame])) :
    s.last = some frame := by
  have hcount : s.numFrames - 1 = stored.length := by
    rw [h.count, List.length_append, List.length_singleton]
    omega
  rw [State.last, hcount, h.cells, if_pos (Int.natCast_nonneg _), Int.toNat_natCast,
    List.getElem?_concat_length]

/-- Only the array and its count tell. -/
theorem Holds.congr (h : Holds s stored) (hn : t.numFrames = s.numFrames)
    (hf : t.frames = s.frames) : Holds t stored :=
  ⟨hn ▸ h.count, hf ▸ h.cells⟩

/-! ## Where chunks begin -/

theorem le_of_mem_starts {chunks : List Chunk} (h : k ∈ starts n chunks) : n ≤ k := by
  induction chunks generalizing n with
  | nil => cases h
  | cons c chunks ih =>
    rcases List.mem_cons.mp h with rfl | h
    · exact Nat.le_refl _
    · exact Nat.le_trans (Nat.le_add_right _ _) (ih h)

theorem le_of_mem_breaks {us : List Unwound} (h : k ∈ breaks n us) : n ≤ k := by
  induction us generalizing n with
  | nil => cases h
  | cons u us ih =>
    cases u with
    | foreign ip => exact Nat.le_of_succ_le (ih h)
    | ocaml ip callers chunks =>
      unfold breaks at h
      split at h
      · exact Nat.le_of_succ_le (ih h)
      · have hle := le_of_mem_starts h
        omega

theorem maxFrames_le_limit (us : List Unwound) : maxFrames ≤ limit us := by
  unfold limit
  split
  · exact Nat.le_succ _
  · exact Nat.le_refl _

/-! ## What is left of the path -/

def rest (c : Cursor) : Place → List CallFrame
  | .descriptors first =>
    if first = true ∧ walked c.callers c.chunks = [] then callPath c.unwound
    else ocamlFrames (walked c.callers c.chunks)
  | _ => callPath c.unwound

def restBreaks (n : Nat) (c : Cursor) : Place → List Nat
  | .descriptors first =>
    if first = true ∧ walked c.callers c.chunks = [] then breaks n c.unwound
    else starts (n + c.callers.length) c.chunks
  | _ => breaks n c.unwound

theorem rest_unwinding (c : Cursor) : rest c .unwinding = callPath c.unwound := rfl

theorem restBreaks_unwinding (n : Nat) (c : Cursor) :
    restBreaks n c .unwinding = breaks n c.unwound := rfl

/-- What is stored and what is left are the path, wherever the loops stand. -/
structure Splits (stack : Stack) (s : State) (c : Cursor) (place : Place)
    (stored : List CallFrame) : Prop where
  holds : Holds s stored
  path : callPath stack.unwound = stored ++ rest c place
  begins : maxFrames - 1 ∈ breaks 0 stack.unwound ↔
    maxFrames - 1 ∈ restBreaks stored.length c place
  apart : ∀ u ∈ c.unwound, u.Apart
  success : s.holder.type = .success

/-- In the loops there is a cell left, and the descriptors go on from the last one. -/
structure Walking (stack : Stack) (s : State) (c : Cursor) (stored : List CallFrame) : Prop where
  splits : Splits stack s c s.place stored
  room : stored.length < maxFrames
  begun : s.place = .getContext ∨ s.place = .initLocal → stored = []
  descriptors : ∀ first, s.place = .descriptors first →
    s.last.map CallFrame.frame = some c.pc ∧ Apart (c.callers.getLastD c.pc) c.chunks

def Inv (stack : Stack) (x : State × Cursor) : Prop :=
  (x.1.place ≠ .returned ∧ ∃ stored, Walking stack x.1 x.2 stored) ∨
    (x.1.place = .returned ∧ Returned stack x.1)

theorem init_inv (stack : Stack) : Inv stack (init stack) := by
  refine .inl ⟨by simp [init, LinkableProfiler.init], [], ⟨init_holds, rfl, Iff.rfl, stack.apart,
    rfl⟩, by decide, fun _ => rfl, fun first h => ?_⟩
  cases h

theorem Inv.captures (h : Inv stack x) : Captures stack x.1 := by
  rcases h with ⟨hplace, stored, h⟩ | ⟨hplace, h⟩
  · refine ⟨⟨stored.length, ?_⟩, fun hr => absurd hr hplace⟩
    rw [h.splits.path, List.take_left]
    exact h.splits.holds
  · refine ⟨?_, fun _ => h⟩
    unfold Returned at h
    split at h
    · exact ⟨_, h⟩
    · refine ⟨(callPath stack.unwound).length, ?_⟩
      rw [List.take_length]
      exact h.1
    · exact ⟨0, h⟩
    · exact ⟨0, h⟩

/-! ## Back to a loop -/

/-- The loops are left with as many frames as there is room for. -/
theorem stop {left : List CallFrame} (hholds : Holds s stored)
    (hpath : callPath stack.unwound = stored ++ left) (hsuccess : s.holder.type = .success)
    (hlimit : stored.length = limit stack.unwound ∨ left = [] ∧ stored.length < maxFrames)
    (c : Cursor) : Inv stack ({ s with place := .returned }, c) := by
  refine .inr ⟨rfl, ?_⟩
  have htake : (callPath stack.unwound).take (limit stack.unwound) = stored := by
    rw [hpath]
    rcases hlimit with hlength | ⟨hleft, hlt⟩
    · rw [← hlength, List.take_left]
    · rw [hleft, List.append_nil, List.take_of_length_le]
      exact Nat.le_trans (Nat.le_of_lt hlt) (maxFrames_le_limit _)
  unfold Returned
  rw [show ({ s with place := .returned } : State).holder.type = .success from hsuccess]
  simp only [htake]
  exact hholds.congr rfl rfl

theorem Splits.stop {place : Place} (h : Splits stack s c place stored)
    (hlimit : stored.length = limit stack.unwound ∨
      rest c place = [] ∧ stored.length < maxFrames) :
    Inv stack ({ s with place := .returned }, c) :=
  CallPath.stop h.holds h.path h.success hlimit c

/-- No chunk begins in a cell that is behind the array. -/
theorem Splits.limit_eq {place : Place} (h : Splits stack s c place stored)
    (hfull : stored.length = maxFrames) : stored.length = limit stack.unwound := by
  have hnone : maxFrames - 1 ∉ breaks 0 stack.unwound := by
    rw [h.begins, hfull]
    intro hmem
    have hle : maxFrames ≤ maxFrames - 1 := by
      unfold restBreaks at hmem
      split at hmem
      · split at hmem
        · exact le_of_mem_breaks hmem
        · exact Nat.le_trans (Nat.le_add_right _ _) (le_of_mem_starts hmem)
      · exact le_of_mem_breaks hmem
    exact absurd hle (by decide)
  rw [limit, if_neg hnone, hfull]

theorem Splits.unwind (h : Splits stack s c .unwinding stored)
    (hle : stored.length ≤ maxFrames) : Inv stack (s.unwind, c) := by
  unfold State.unwind
  have hcount := h.holds.count
  by_cases hlt : s.numFrames < maxFrames
  · rw [if_pos hlt]
    refine .inl ⟨by simp, stored, ⟨h.holds.congr rfl rfl, h.path, h.begins, h.apart, h.success⟩,
      Int.ofNat_lt.mp (hcount ▸ hlt), fun hp => ?_, fun first hp => ?_⟩
    · rcases hp with hp | hp <;> cases hp
    · cases hp
  · rw [if_neg hlt]
    have hfull : stored.length = maxFrames := by omega
    exact h.stop (.inl (h.limit_eq hfull))

/-- A full array ends both loops. -/
theorem descend_full (h : ¬ s.numFrames < maxFrames) (first : Bool) :
    s.descend first = { s with place := .returned } := by
  rw [State.descend, if_neg h, State.leave]
  split
  · rw [State.unwind, if_neg h]
  · rfl

theorem Splits.descend {first : Bool} (h : Splits stack s c (.descriptors first) stored)
    (hpc : s.last.map CallFrame.frame = some c.pc)
    (hapart : Apart (c.callers.getLastD c.pc) c.chunks)
    (hfull : maxFrames ≤ stored.length → stored.length = limit stack.unwound) :
    Inv stack (s.descend first, c) := by
  have hcount := h.holds.count
  by_cases hlt : s.numFrames < maxFrames
  · rw [State.descend, if_pos hlt]
    refine .inl ⟨by simp, stored, ⟨h.holds.congr rfl rfl, h.path, h.begins, h.apart, h.success⟩,
      Int.ofNat_lt.mp (hcount ▸ hlt), fun hp => ?_, fun _ _ => ⟨hpc, hapart⟩⟩
    rcases hp with hp | hp <;> cases hp
  · rw [descend_full hlt]
    exact h.stop (.inl (hfull (by omega)))

/-! ## The steps -/

theorem Walking.fail (h : Walking stack s c stored)
    (hbegun : s.place = .getContext ∨ s.place = .initLocal) {type : ErrorType} (errorCode : Int)
    (htype : type = .getContextFail ∨ type = .initLocalFail) :
    Inv stack (s.fail type errorCode, c) := by
  have hholds := h.splits.holds
  rw [h.begun hbegun] at hholds
  refine .inr ⟨rfl, ?_⟩
  rcases htype with rfl | rfl
  · exact hholds.congr rfl rfl
  · exact hholds.congr rfl rfl

/-- Behind the last frame. -/
theorem Walking.ended (h : Walking stack s c stored) (hplace : s.place = .unwinding)
    (hnone : c.unwound = []) (ip : UInt64) (frag : Bool) :
    Inv stack (s.addUnwound stack.ending ip frag, c) := by
  have hsplits := h.splits
  rw [hplace] at hsplits
  have hrest : rest c .unwinding = [] := by
    rw [rest_unwinding, hnone]
    rfl
  have hle := stack.ending_nonpos
  unfold State.addUnwound
  by_cases hzero : stack.ending = 0
  · rw [if_pos hzero]
    exact hsplits.stop (.inr ⟨hrest, h.room⟩)
  · have hneg : stack.ending < 0 := by omega
    rw [if_neg hzero, if_pos hneg]
    have hpath := hsplits.path
    rw [hrest, List.append_nil] at hpath
    refine .inr ⟨rfl, ?_, rfl, hneg⟩
    rw [hpath]
    exact hsplits.holds.congr rfl rfl

theorem Walking.foreign (h : Walking stack s c stored) (hplace : s.place = .unwinding)
    {ip : UInt64} {us : List Unwound} (hus : c.unwound = .foreign ip :: us) {ret : Int}
    (hret : 0 < ret) :
    Inv stack (s.addUnwound ret ip false, { c with unwound := us }) := by
  have hsplits := h.splits
  rw [hplace] at hsplits
  have hpath := hsplits.path
  have hbegins := hsplits.begins
  rw [rest_unwinding, hus, callPath] at hpath
  rw [restBreaks_unwinding, hus, breaks] at hbegins
  have hnext : Splits stack (s.store ⟨true, ip⟩) { c with unwound := us } .unwinding
      (stored ++ [⟨true, ip⟩]) := by
    refine ⟨hsplits.holds.store _, ?_, ?_, fun u hu => ?_, hsplits.success⟩
    · rw [hpath, List.append_assoc]
      rfl
    · rw [hbegins, List.length_append]
      rfl
    · exact hsplits.apart u (hus ▸ List.mem_cons_of_mem _ hu)
  have hroom : (stored ++ [(⟨true, ip⟩ : CallFrame)]).length ≤ maxFrames := by
    rw [List.length_append]
    exact h.room
  unfold State.addUnwound
  rw [if_neg (Int.ne_of_gt hret), if_neg (Int.lt_asymm hret), if_neg Bool.false_ne_true]
  exact hnext.unwind hroom

theorem Walking.ocaml (h : Walking stack s c stored) (hplace : s.place = .unwinding)
    {ip : UInt64} {callers : List UInt64} {chunks : List Chunk} {us : List Unwound}
    (hus : c.unwound = .ocaml ip callers chunks :: us) {ret : Int} (hret : 0 < ret) :
    Inv stack (s.addUnwound ret ip true, ⟨ip, callers, chunks, us⟩) := by
  have hsplits := h.splits
  rw [hplace] at hsplits
  have hpath := hsplits.path
  have hbegins := hsplits.begins
  rw [rest_unwinding, hus, callPath] at hpath
  rw [restBreaks_unwinding, hus, breaks] at hbegins
  have hnext : Splits stack (s.store ⟨false, ip⟩) ⟨ip, callers, chunks, us⟩ (.descriptors true)
      (stored ++ [⟨false, ip⟩]) := by
    refine ⟨hsplits.holds.store _, ?_, ?_, fun u hu => ?_, hsplits.success⟩
    · rw [hpath, List.append_assoc]
      simp [rest]
    · rw [hbegins, List.length_append]
      simp [restBreaks]
    · exact hsplits.apart u (hus ▸ List.mem_cons_of_mem _ hu)
  have happly : (Unwound.ocaml ip callers chunks).Apart :=
    hsplits.apart _ (hus ▸ List.mem_cons_self)
  unfold State.addUnwound
  rw [if_neg (Int.ne_of_gt hret), if_neg (Int.lt_asymm hret), if_pos rfl]
  refine hnext.descend ?_ happly fun hfull => hnext.limit_eq (Nat.le_antisymm ?_ hfull)
  · rw [hnext.holds.last]
    rfl
  · rw [List.length_append]
    exact h.room

/-- The next caller in the chunk: its descriptor is the one of the last frame. -/
theorem Walking.caller (h : Walking stack s c stored) {first : Bool}
    (hplace : s.place = .descriptors first) {next : UInt64} {callers : List UInt64}
    (hcallers : c.callers = next :: callers) :
    Inv stack ((s.addDescriptor ⟨c.pc, next⟩).descend false,
      { c with pc := next, callers := callers }) := by
  obtain ⟨hpc, hapart⟩ := h.descriptors first hplace
  have hsplits := h.splits
  rw [hplace] at hsplits
  have hpath := hsplits.path
  have hbegins := hsplits.begins
  rw [hcallers, List.getLastD_cons] at hapart
  rw [rest, hcallers, if_neg (by simp [walked])] at hpath
  rw [restBreaks, hcallers, if_neg (by simp [walked])] at hbegins
  have hadd : s.addDescriptor ⟨c.pc, next⟩ =
      ({ s with reads := s.reads ++ [s.last] } : State).store ⟨false, next⟩ := by
    have hnot : ¬ s.Broken ⟨c.pc, next⟩ := fun hb => hb hpc
    unfold State.addDescriptor
    simp only [if_neg hnot]
  have hholds : Holds { s with reads := s.reads ++ [s.last] } stored := hsplits.holds.congr rfl rfl
  rw [hadd]
  have hnext : Splits stack
      (({ s with reads := s.reads ++ [s.last] } : State).store ⟨false, next⟩)
      { c with pc := next, callers := callers } (.descriptors false)
      (stored ++ [⟨false, next⟩]) := by
    refine ⟨hholds.store _, ?_, ?_, hsplits.apart, hsplits.success⟩
    · rw [hpath, List.append_assoc]
      simp [rest, walked, ocamlFrames]
    · rw [hbegins, List.length_append]
      simp [restBreaks, Nat.add_assoc, Nat.add_comm 1]
  refine hnext.descend ?_ hapart fun hfull => hnext.limit_eq (Nat.le_antisymm ?_ hfull)
  · rw [hnext.holds.last]
    rfl
  · rw [List.length_append]
    exact h.room

/-- The next chunk: the address it begins with is stored, and the one behind it. -/
theorem Walking.chunk (h : Walking stack s c stored) {first : Bool}
    (hplace : s.place = .descriptors first) (hcallers : c.callers = []) {chunk : Chunk}
    {chunks : List Chunk} (hchunks : c.chunks = chunk :: chunks) :
    Inv stack ((s.addDescriptor ⟨chunk.first, chunk.second⟩).descend false,
      { c with pc := chunk.second, callers := chunk.rest, chunks := chunks }) := by
  obtain ⟨hpc, hapart⟩ := h.descriptors first hplace
  have hsplits := h.splits
  rw [hplace] at hsplits
  have hpath := hsplits.path
  have hbegins := hsplits.begins
  rw [hcallers, hchunks] at hapart
  rw [rest, hcallers, hchunks, if_neg (by simp [walked, Chunk.addresses])] at hpath
  rw [restBreaks, hcallers, hchunks, if_neg (by simp [walked, Chunk.addresses])] at hbegins
  have hadd : s.addDescriptor ⟨chunk.first, chunk.second⟩ =
      (({ s with reads := s.reads ++ [s.last] } : State).store ⟨false, chunk.first⟩).store
        ⟨false, chunk.second⟩ := by
    have hbroken : s.Broken ⟨chunk.first, chunk.second⟩ := by
      intro hb
      exact hapart.1 (Option.some.inj (hb.symm.trans hpc))
    unfold State.addDescriptor
    simp only [if_pos hbroken]
  have hholds : Holds { s with reads := s.reads ++ [s.last] } stored := hsplits.holds.congr rfl rfl
  rw [hadd]
  have hends := (hholds.store ⟨false, chunk.first⟩).store ⟨false, chunk.second⟩
  rw [List.append_assoc] at hends
  have hpath' : callPath stack.unwound =
      (stored ++ [⟨false, chunk.first⟩, ⟨false, chunk.second⟩]) ++
        ocamlFrames (walked chunk.rest chunks) := by
    rw [hpath, List.append_assoc]
    simp [walked, ocamlFrames, Chunk.addresses]
  have hmem : maxFrames - 1 ∈ breaks 0 stack.unwound ↔ maxFrames - 1 = stored.length ∨
      maxFrames - 1 ∈ starts (stored.length + 2 + chunk.rest.length) chunks := by
    rw [hbegins, starts, List.mem_cons]
    simp [Chunk.addresses, Nat.add_assoc, Nat.add_comm 2]
  by_cases hone : maxFrames - 1 = stored.length
  · -- The second address is stored behind the array.
    have hlimit : limit stack.unwound = maxFrames + 1 := if_pos (hmem.mpr (.inl hone))
    have hlength : (stored ++ [(⟨false, chunk.first⟩ : CallFrame), ⟨false, chunk.second⟩]).length =
        limit stack.unwound := by
      rw [List.length_append, ← hone, hlimit]
      rfl
    have hfull : ¬ (({ s with reads := s.reads ++ [s.last] } : State).store
        ⟨false, chunk.first⟩ |>.store ⟨false, chunk.second⟩).numFrames < maxFrames := by
      rw [hends.count]
      exact Int.not_lt.mpr (Int.ofNat_le.mpr (hlength ▸ maxFrames_le_limit _))
    rw [descend_full hfull]
    exact stop hends hpath' hsplits.success (.inl hlength) _
  · have hnext : Splits stack
        (({ s with reads := s.reads ++ [s.last] } : State).store ⟨false, chunk.first⟩ |>.store
          ⟨false, chunk.second⟩)
        { c with pc := chunk.second, callers := chunk.rest, chunks := chunks }
        (.descriptors false) (stored ++ [⟨false, chunk.first⟩, ⟨false, chunk.second⟩]) := by
      refine ⟨hends, ?_, ?_, hsplits.apart, hsplits.success⟩
      · rw [hpath']
        simp [rest]
      · rw [hmem, List.length_append]
        simp [restBreaks, hone]
    refine hnext.descend ?_ hapart.2 fun hfull => hnext.limit_eq (Nat.le_antisymm ?_ hfull)
    · rw [(hholds.store ⟨false, chunk.first⟩ |>.store ⟨false, chunk.second⟩).last]
      rfl
    · have hroom := h.room
      rw [List.length_append]
      simp only [List.length_cons, List.length_nil]
      omega

/-- Without a descriptor libunwind goes on, or the path is at its end. -/
theorem Walking.leave (h : Walking stack s c stored) {first : Bool}
    (hplace : s.place = .descriptors first) (hcallers : c.callers = []) (hchunks : c.chunks = []) :
    Inv stack (s.leave first, c) := by
  have hsplits := h.splits
  rw [hplace] at hsplits
  have hpath := hsplits.path
  have hbegins := hsplits.begins
  unfold State.leave
  cases first with
  | true =>
    rw [rest, hcallers, hchunks, if_pos ⟨rfl, rfl⟩] at hpath
    rw [restBreaks, hcallers, hchunks, if_pos ⟨rfl, rfl⟩] at hbegins
    have hnext : Splits stack s c .unwinding stored :=
      ⟨hsplits.holds, hpath, hbegins, hsplits.apart, hsplits.success⟩
    exact hnext.unwind (Nat.le_of_lt h.room)
  | false =>
    rw [rest, hcallers, hchunks, if_neg (fun hf => Bool.false_ne_true hf.1)] at hpath
    exact stop hsplits.holds hpath hsplits.success (.inr ⟨rfl, h.room⟩) c

theorem Walking.next (h : Walking stack s c stored) {c' : Cursor}
    (hc : c.answer stack.ending a = some c') (hs : LinkableProfiler.step s a = some t) :
    Inv stack (t, c') := by
  cases a with
  | getContext ret =>
    cases hc
    obtain ⟨hplace, rfl⟩ := Option.ite_some_none_eq_some.mp hs
    split
    · exact h.fail (.inl hplace) ret (.inl rfl)
    · have hsplits := h.splits
      rw [hplace] at hsplits
      refine .inl ⟨by simp, stored, ⟨hsplits.holds.congr rfl rfl, hsplits.path, hsplits.begins,
        hsplits.apart, hsplits.success⟩, h.room, fun _ => h.begun (.inl hplace), fun first hf => ?_⟩
      cases hf
  | initLocal ret =>
    cases hc
    obtain ⟨hplace, rfl⟩ := Option.ite_some_none_eq_some.mp hs
    split
    · exact h.fail (.inr hplace) ret (.inr rfl)
    · have hsplits := h.splits
      rw [hplace] at hsplits
      have hnext : Splits stack s c .unwinding stored :=
        ⟨hsplits.holds, hsplits.path, hsplits.begins, hsplits.apart, hsplits.success⟩
      exact hnext.unwind (Nat.le_of_lt h.room)
  | unwStep ret ip frag =>
    obtain ⟨hplace, rfl⟩ := Option.ite_some_none_eq_some.mp hs
    simp only [Cursor.answer] at hc
    cases hus : c.unwound with
    | nil =>
      rw [hus] at hc
      obtain ⟨hret, rfl⟩ := Option.ite_some_none_eq_some.mp hc
      rw [hret]
      exact h.ended hplace hus ip frag
    | cons u us =>
      rw [hus] at hc
      cases u with
      | foreign pc =>
        obtain ⟨⟨hret, hip, hfrag⟩, rfl⟩ := Option.ite_some_none_eq_some.mp hc
        rw [hip, hfrag]
        exact h.foreign hplace hus hret
      | ocaml pc callers chunks =>
        obtain ⟨⟨hret, hip, hfrag⟩, rfl⟩ := Option.ite_some_none_eq_some.mp hc
        rw [hip, hfrag]
        exact h.ocaml hplace hus hret
  | nextFrameDescriptor fd =>
    obtain ⟨first, hplace, rfl⟩ := step_nextFrameDescriptor hs
    simp only [Cursor.answer] at hc
    cases hcallers : c.callers with
    | cons next callers =>
      rw [hcallers] at hc
      obtain ⟨hfd, rfl⟩ := Option.ite_some_none_eq_some.mp hc
      rw [hfd]
      exact h.caller hplace hcallers
    | nil =>
      cases hchunks : c.chunks with
      | cons chunk chunks =>
        rw [hcallers, hchunks] at hc
        obtain ⟨hfd, rfl⟩ := Option.ite_some_none_eq_some.mp hc
        rw [hfd]
        exact h.chunk hplace hcallers hchunks
      | nil =>
        rw [hcallers, hchunks] at hc
        obtain ⟨hfd, rfl⟩ := Option.ite_some_none_eq_some.mp hc
        rw [hfd]
        exact h.leave hplace hcallers hchunks

theorem step_eq_some (hs : step stack x a = some y) :
    x.2.answer stack.ending a = some y.2 ∧ LinkableProfiler.step x.1 a = some y.1 := by
  obtain ⟨c, hc, hs⟩ := Option.bind_eq_some_iff.mp hs
  obtain ⟨s, ht, rfl⟩ := Option.map_eq_some_iff.mp hs
  exact ⟨hc, ht⟩

/-- Nothing is done behind the return. -/
theorem not_returned (hs : LinkableProfiler.step s a = some t) : s.place ≠ .returned := by
  intro hplace
  cases a with
  | getContext ret =>
    obtain ⟨hp, -⟩ := Option.ite_some_none_eq_some.mp hs
    cases hplace.symm.trans hp
  | initLocal ret =>
    obtain ⟨hp, -⟩ := Option.ite_some_none_eq_some.mp hs
    cases hplace.symm.trans hp
  | unwStep ret ip frag =>
    obtain ⟨hp, -⟩ := Option.ite_some_none_eq_some.mp hs
    cases hplace.symm.trans hp
  | nextFrameDescriptor fd =>
    obtain ⟨first, hp, -⟩ := step_nextFrameDescriptor hs
    cases hplace.symm.trans hp

theorem Inv.next (h : Inv stack x) (hs : step stack x a = some y) : Inv stack y := by
  obtain ⟨hc, hs⟩ := step_eq_some hs
  rcases h with ⟨-, stored, h⟩ | ⟨hplace, -⟩
  · exact h.next hc hs
  · exact absurd hplace (not_returned hs)

/-! ## The return -/

/-- The stack answers every call. -/
theorem exists_step (h : x.1.place ≠ .returned) : ∃ a y, step stack x a = some y := by
  obtain ⟨s, c⟩ := x
  cases hplace : s.place with
  | getContext =>
    refine ⟨.getContext 0, ({ s with place := .initLocal }, c), ?_⟩
    simp [step, LinkableProfiler.step, Cursor.answer, hplace]
  | initLocal =>
    refine ⟨.initLocal 0, (s.unwind, c), ?_⟩
    simp [step, LinkableProfiler.step, Cursor.answer, hplace]
  | unwinding =>
    have hanswer : ∃ ret ip frag c', c.answer stack.ending (.unwStep ret ip frag) = some c' := by
      simp only [Cursor.answer]
      cases c.unwound with
      | nil => exact ⟨stack.ending, 0, false, c, if_pos rfl⟩
      | cons u us =>
        cases u with
        | foreign pc => exact ⟨1, pc, false, _, if_pos ⟨by decide, rfl, rfl⟩⟩
        | ocaml pc callers chunks => exact ⟨1, pc, true, _, if_pos ⟨by decide, rfl, rfl⟩⟩
    obtain ⟨ret, ip, frag, c', hc⟩ := hanswer
    refine ⟨.unwStep ret ip frag, (s.addUnwound ret ip frag, c'), ?_⟩
    rw [step, hc, Option.bind_some, LinkableProfiler.step, if_pos hplace]
    rfl
  | descriptors first =>
    have hanswer : ∃ fd c', c.answer stack.ending (.nextFrameDescriptor fd) = some c' := by
      simp only [Cursor.answer]
      cases c.callers with
      | cons next callers => exact ⟨_, _, if_pos rfl⟩
      | nil =>
        cases c.chunks with
        | cons chunk chunks => exact ⟨_, _, if_pos rfl⟩
        | nil => exact ⟨_, _, if_pos rfl⟩
    obtain ⟨fd, c', hc⟩ := hanswer
    refine ⟨.nextFrameDescriptor fd, (?_, c'), ?_⟩
    · exact fd.elim (s.leave first) fun fd => (s.addDescriptor fd).descend false
    · rw [step, hc, Option.bind_some]
      cases fd with
      | none => simp [LinkableProfiler.step, hplace]
      | some fd => simp [LinkableProfiler.step, hplace]
  | returned => exact absurd hplace h

/-- **A capture is the innermost part of the call path.** Whatever the stack, what has been
stored is a prefix of the path; `linkable_handle` returns, and then it is all of the path, or
as much as there is room for. Only a chunk that begins in the last cell has a frame behind it. -/
theorem captures_call_path (stack : Stack) :
    (∀ labels, Along (step stack) (fun x => Captures stack x.1) (init stack) labels) ∧
      Inevitable (step stack) (fun x => x.1.place = .returned) (init stack) := by
  constructor
  · intro labels
    exact (along_of_step (fun _ _ _ h hs => h.next hs) (init_inv stack) labels).mono
      fun x h => h.captures
  · refine Inevitable.of_measure (I := fun x => Room x.1) (fun x => x.1.left)
      (fun x _ hx => exists_step hx) (fun x a y hx _ hs => ?_) ?_
    · exact step_left hx (step_eq_some hs).2
    · exact fun h => by simp [init, LinkableProfiler.init, Place.weight] at h

/-- A callback of OCaml in C in OCaml, with its signal handler. -/
def callback : Stack where
  unwound := [.foreign 1, .ocaml 2 [] [], .ocaml 3 [4, 5] [⟨6, 7, [8]⟩], .foreign 9]
  ending := 0
  ending_nonpos := Int.le_refl 0
  apart u hu := by
    simp only [List.mem_cons, List.not_mem_nil, or_false] at hu
    rcases hu with rfl | rfl | rfl | rfl
    · trivial
    · trivial
    · exact ⟨by decide, trivial⟩
    · trivial

/-- The frame of C between the chunks is left out. -/
theorem callback_captured :
    callPath callback.unwound =
        [⟨true, 1⟩, ⟨false, 2⟩, ⟨false, 3⟩, ⟨false, 4⟩, ⟨false, 5⟩, ⟨false, 6⟩, ⟨false, 7⟩,
          ⟨false, 8⟩] ∧
      (∀ labels, Along (step callback) (fun x => Captures callback x.1) (init callback) labels) ∧
      Inevitable (step callback) (fun x => x.1.place = .returned) (init callback) :=
  ⟨rfl, captures_call_path callback⟩

end Opsian.Signals.CallPath
