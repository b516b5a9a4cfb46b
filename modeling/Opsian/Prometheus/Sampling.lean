import Mathlib.Data.List.ReduceOption
import Opsian.Lib.History
import Opsian.Prometheus.Paths
import Opsian.Queue.Accounting
import Opsian.Queue.FrameCells
import Opsian.Writer.Pipeline

/-! # From the signal handler to the tree

Signal handlers push what they have captured, one whole push after the other; the processor
thread pops it into the tree of program counters, and in between its pops it answers requests.
What a node has counted is what was captured, as far as it has been popped: a scrape is late by
what the queue holds, and by no more. (Pushes whose loads and compare-exchanges are interleaved
may skip records: `Opsian.Queue.Safety`.) -/
namespace Opsian.Prometheus.Sampling
open Opsian.Lib Opsian.Lib.Runs Opsian.Lib.History Opsian.Prometheus.Exporter
open Opsian.Prometheus.Paths (countAt number)
open Opsian.Queue.CircularQueue (Call Push push pushNotification pushStackTrace
  stackQueueSize)
open Opsian.Queue.Accounting (reported)
open Opsian.Queue.Fifos (Lane Refines delivered init_refines lane record)
open Opsian.Queue.FrameCells (Capture IsSampling userError)
open Opsian.Queue.HandOver (Outcome)
open Opsian.Symbols.SymbolTable (Location)
open Opsian.Writer.LogWriter (maxFrames)
open Opsian.Writer.Pipeline (Fits Place accepted_of_fits lane_length map_update nextLane popLane
  popLane_popped)

/-- The queue, where the processor thread stands in a pop, and the exporter. -/
structure State where
  queue : Queue.CircularQueue.State
  place : Place
  exporter : Exporter.State

def init (maxFrameSize : Nat) (symbol timeTsc : UInt64) : State where
  queue := Queue.CircularQueue.init maxFrameSize symbol timeTsc
  place := .acquiring .main
  exporter := Exporter.init

section step

variable (locationsOf : UInt64 → List Location) (segment : String)

/-- `PrometheusQueueListener`, which deliberately ignores all but the stack traces. -/
def listen (s : Exporter.State) : Call → Exporter.State
  | .recordStackTrace _ item signum _ _ =>
    recordStackTrace locationsOf s ⟨item.numFrames, item.frames⟩ signum
  | _ => s

inductive Label where
  /-- A whole capture: its push is not interleaved with another one, nor with a pop. -/
  | handle (signum : Int) (c : Capture)
  /-- The other pushes; nothing but `handle` pushes a stack trace. -/
  | push (p : Push)
  /-- `acquireRead` finds the lane empty. -/
  | skip
  /-- It finds a record, for which the listener is called. -/
  | call
  /-- The call returns. -/
  | commitRead
  /-- A request is read and answered. -/
  | read (str : String)
  deriving DecidableEq, Repr

def step (s : State) : Label → Option State
  | .handle signum c =>
    if c.outcome.frames.length ≤ maxFrames then
      some { s with queue := Queue.FrameCells.handle s.queue signum c }
    else none
  | .push (.stackTrace ..) => none
  | .push p => some { s with queue := (push s.queue p).2 }
  | .skip =>
    match s.place with
    | .acquiring l =>
      match popLane s.queue l with
      | some (none, _) => some { s with place := .acquiring (nextLane l) }
      | _ => none
    | .calling _ => none
  | .call =>
    match s.place with
    | .acquiring l =>
      match popLane s.queue l with
      | some (some call, _) =>
        some { s with place := .calling l, exporter := listen locationsOf s.exporter call }
      | _ => none
    | .calling _ => none
  | .commitRead =>
    match s.place with
    | .acquiring _ => none
    | .calling l => (popLane s.queue l).map fun popped =>
        { s with queue := popped.2, place := .acquiring (nextLane l) }
  | .read str =>
    -- The handlers of the network run between two pops.
    if s.place = .acquiring .main then
      (Exporter.step locationsOf segment s.exporter (.read str)).map fun exporter =>
        { s with exporter := exporter }
    else none

end step

/-! ## The ledger -/

/-- What a capture is to be counted as. One that failed is only logged, but where it failed
before its first frame: its count of frames, negated, is 0, and the root counts it. -/
def captureSample (signum : Int) (c : Capture) : Option Sample :=
  if c.outcome.isError ∧ c.outcome.frames ≠ [] then none
  else some ⟨(c.outcome.frames.drop numberOfSignalHandlerFrames).reverse.map CallFrame.frame,
    decide (signum = sigprof)⟩

/-- The records that the stack queue has accepted, how many of them the listener was called
for, and how many when `/metrics` was read. -/
structure Ledger where
  accepted : List (Option Sample)
  handed : Nat
  scraped : Nat
  deriving DecidableEq, Repr

def Ledger.empty : Ledger := ⟨[], 0, 0⟩

/-- What was handed over since `/metrics` was read. -/
def Ledger.phase (h : Ledger) : List Sample :=
  ((h.accepted.take h.handed).drop h.scraped).reduceOption

def note (h : Ledger) (s : State) (a : Label) (_ : State) : Ledger :=
  match a with
  | .handle signum c =>
    if IsSampling signum ∧
        (pushStackTrace (reported s.queue c) c.ts c.trace signum 0 c.timeTsc).1 then
      { h with accepted := h.accepted ++ [captureSample signum c] }
    else h
  | .push p =>
    if lane p = .stack ∧ (push s.queue p).1 then
      { h with accepted := h.accepted ++ [none] }
    else h
  | .call => if s.place = .acquiring .stack then { h with handed := h.handed + 1 } else h
  | .read str => if isMetrics str then { h with scraped := h.handed } else h
  | .skip | .commitRead => h

/-- A node has counted the captures of its path, and what it has yet to count is in the queue. -/
structure Reaches (x : State × Ledger) : Prop where
  waiting : x.2.handed ≤ x.2.accepted.length ∧
    x.2.accepted.length ≤ x.2.handed + stackQueueSize
  counts : ∀ path isCpuSample, countAt x.1.exporter path isCpuSample =
    Int32.ofNat (number x.2.phase path isCpuSample)

/-- A capture that has not failed fits the buffers. -/
def Captured (maxFrameSize : Nat) : Label → Prop
  | .handle _ c => c.outcome.isError = false → c.outcome.frames.length ≤ maxFrameSize
  | _ => True

/-! ## One record -/

section record

variable {locationsOf : UInt64 → List Location} {maxFrameSize : Nat}

/-- What the listener makes of a record. -/
def pushSample : Push → Option Sample
  | .stackTrace _ item signum _ _ => sampleOf (⟨item.numFrames, item.frames⟩, signum)
  | _ => none

theorem pushSample_capture (signum : Int) (c : Capture) :
    pushSample (.stackTrace c.ts c.trace signum 0 c.timeTsc) = captureSample signum c := by
  unfold pushSample captureSample sampleOf Capture.trace CallTrace.path Outcome.numFrames
  cases c.outcome.isError with
  | false =>
    have hpos : ¬ (c.outcome.frames.length : Int) < 0 := Int.not_lt.mpr (Int.natCast_nonneg _)
    simp [hpos]
  | true =>
    cases hframes : c.outcome.frames with
    | nil => simp
    | cons frame frames =>
      have hneg : -1 * ((frame :: frames).length : Int) < 0 := by
        rw [List.length_cons]
        omega
      simp only [if_true, hneg, ne_eq, reduceCtorEq, not_false_eq_true, and_self]

/-- The frames behind those of the trace are not walked. -/
theorem path_delivered {item : Queue.CircularQueue.CallTrace}
    (h : item.numFrames ≤ item.frames.length) :
    CallTrace.path ⟨item.numFrames, (delivered maxFrameSize item).frames⟩ =
      CallTrace.path ⟨item.numFrames, item.frames⟩ := by
  have hlength : item.numFrames.toNat ≤ (item.frames.take item.numFrames.toNat).length := by
    rw [List.length_take]
    omega
  unfold CallTrace.path delivered
  simp only
  rw [List.take_append_of_le_length hlength, List.take_take, Nat.min_self]

theorem listen_record (s : Exporter.State) {p : Push} (h : Fits maxFrameSize p) :
    listen locationsOf s (record maxFrameSize p) =
      (pushSample p).elim s (recordSample locationsOf s) := by
  cases p with
  | stackTrace ts item signum threadState timeTsc =>
    have hpath : CallTrace.path ⟨item.numFrames, (delivered maxFrameSize item).frames⟩ = _ :=
      path_delivered h.2
    show recordStackTrace locationsOf s ⟨item.numFrames, _⟩ signum = _
    rw [recordStackTrace_eq s (_, signum), pushSample, sampleOf, sampleOf]
    simp only [hpath]
  | _ => rfl

theorem pushSample_of_lane {p : Push} (h : lane p ≠ .stack) : pushSample p = none := by
  cases p with
  | stackTrace | thread => exact absurd rfl h
  | _ => rfl

/-- The tree counts what is handed over. -/
theorem counted_elim {s : Exporter.State} {phase : List Sample} (h : Paths.Inv (s, phase))
    (x : Option Sample) :
    Paths.Inv (x.elim s (recordSample locationsOf s), phase ++ [x].reduceOption) := by
  cases x with
  | none => exact (List.append_nil phase).symm ▸ h
  | some x => exact h.recordSample x

end record

/-! ## Runs -/

/-- One, while the listener has the head of the stack queue. -/
def inHand (place : Place) : Nat := if place = .calling .stack then 1 else 0

/-- What was accepted is done with or waits, and the tree has counted what is done with and
what is in hand. -/
structure Inv (maxFrameSize : Nat) (x : State × Ledger) (finished : List (Option Sample))
    (waiting : Lane → List Push) : Prop where
  fits : ∀ l, ∀ p ∈ waiting l, lane p = l ∧ Fits maxFrameSize p
  refines : Refines maxFrameSize x.1.queue fun l => (waiting l).map (record maxFrameSize)
  calling : ∀ l, x.1.place = .calling l → waiting l ≠ []
  accepted : x.2.accepted = finished ++ (waiting .stack).map pushSample
  handed : x.2.handed = finished.length + inHand x.1.place
  scraped : x.2.scraped ≤ finished.length
  counted : Paths.Inv (x.1.exporter, x.2.phase)

section runs

variable {locationsOf : UInt64 → List Location} {segment : String} {maxFrameSize : Nat}
  {s : State} {h : Ledger} {x y : State × Ledger} {finished : List (Option Sample)}
  {waiting : Lane → List Push} {l : Lane} {a : Label}

theorem init_inv (maxFrameSize : Nat) (symbol timeTsc : UInt64) :
    Inv maxFrameSize (init maxFrameSize symbol timeTsc, .empty) [] fun _ => [] where
  fits l p hp := by cases hp
  refines := init_refines maxFrameSize symbol timeTsc
  calling l hl := by cases hl
  accepted := rfl
  handed := rfl
  scraped := Nat.le_refl 0
  counted := Paths.init_inv

theorem Inv.inHand_le (hi : Inv maxFrameSize x finished waiting) :
    inHand x.1.place ≤ (waiting .stack).length := by
  unfold inHand
  split
  · next hplace => exact List.length_pos_of_ne_nil (hi.calling _ hplace)
  · exact Nat.zero_le _

theorem Inv.reaches (hi : Inv maxFrameSize x finished waiting) : Reaches x where
  waiting := by
    have hle := hi.inHand_le
    have hlane : (waiting .stack).length ≤ stackQueueSize := by
      have hlength := lane_length hi.refines .stack
      rwa [List.length_map] at hlength
    rw [hi.accepted, hi.handed, List.length_append, List.length_map]
    omega
  counts := hi.counted

/-- What is accepted later is not in the phase yet. -/
theorem phase_append (h : Ledger) (a : Option Sample) (hle : h.handed ≤ h.accepted.length) :
    { h with accepted := h.accepted ++ [a] : Ledger }.phase = h.phase := by
  unfold Ledger.phase
  rw [List.take_append_of_le_length hle]

/-- The ledger behind a push. -/
def accept (h : Ledger) (q : Queue.CircularQueue.State) (p : Push) : Ledger :=
  if lane p = .stack ∧ (push q p).1 then { h with accepted := h.accepted ++ [pushSample p] }
  else h

theorem Inv.push (hi : Inv maxFrameSize (s, h) finished waiting) {p : Push}
    (hfits : Fits maxFrameSize p) :
    ∃ waiting, Inv maxFrameSize ({ s with queue := (push s.queue p).2 }, accept h s.queue p)
      finished waiting := by
  obtain ⟨hreturned, hrefines⟩ := accepted_of_fits hi.refines hfits
  have hle : h.handed ≤ h.accepted.length := hi.reaches.waiting.1
  unfold accept
  by_cases hfull : ((waiting (lane p)).map (record maxFrameSize)).length = (lane p).size
  · rw [if_pos hfull] at hrefines
    rw [hreturned, decide_eq_true hfull]
    simp only [Bool.not_true, Bool.false_eq_true, and_false, if_false]
    exact ⟨waiting, hi.fits, hrefines, hi.calling, hi.accepted, hi.handed, hi.scraped,
      hi.counted⟩
  · rw [if_neg hfull] at hrefines
    rw [hreturned, decide_eq_false hfull]
    simp only [Bool.not_false, and_true]
    refine ⟨Function.update waiting (lane p) (waiting (lane p) ++ [p]), fun l q hq => ?_, ?_,
      fun l hl => ?_, ?_, ?_, ?_, ?_⟩
    · by_cases hl : l = lane p
      · rw [hl, Function.update_self] at hq
        rcases List.mem_append.mp hq with hq | hq
        · rw [hl]
          exact hi.fits _ q hq
        · rw [List.mem_singleton.mp hq]
          exact ⟨hl.symm, hfits⟩
      · rw [Function.update_of_ne hl] at hq
        exact hi.fits l q hq
    · rw [map_update, List.map_append]
      exact hrefines
    · by_cases hp : l = lane p
      · rw [hp, Function.update_self]
        exact List.append_ne_nil_of_right_ne_nil _ (List.cons_ne_nil _ _)
      · rw [Function.update_of_ne hp]
        exact hi.calling l hl
    · by_cases hp : lane p = .stack
      · rw [if_pos hp, hp, Function.update_self, List.map_append, ← List.append_assoc,
          ← hi.accepted]
        rfl
      · rw [if_neg hp, Function.update_of_ne (Ne.symm hp)]
        exact hi.accepted
    · split
      · exact hi.handed
      · exact hi.handed
    · split
      · exact hi.scraped
      · exact hi.scraped
    · split
      · exact (phase_append h _ hle).symm ▸ hi.counted
      · exact hi.counted

/-- A capture is pushed behind the notification of its error. -/
theorem Inv.handle (hi : Inv maxFrameSize (s, h) finished waiting) {signum : Int} {c : Capture}
    (hcaptured : Captured maxFrameSize (.handle signum c)) :
    ∃ waiting, Inv maxFrameSize ({ s with queue := Queue.FrameCells.handle s.queue signum c },
      note h s (.handle signum c) s) finished waiting := by
  by_cases hs : IsSampling signum
  · have hreported : ∃ waiting, Inv maxFrameSize ({ s with queue := reported s.queue c }, h)
        finished waiting := by
      unfold reported
      split
      · exact hi.push (p := .notification userError ("in linkable_handle for " ++
          Queue.FrameCells.functionName c.outcome.type ++ ": " ++ c.errorName) 0) trivial
      · exact ⟨waiting, hi⟩
    obtain ⟨waiting, hi⟩ := hreported
    have hfits : Fits maxFrameSize (.stackTrace c.ts c.trace signum 0 c.timeTsc) := by
      unfold Captured at hcaptured
      unfold Fits Capture.trace Outcome.numFrames
      cases herror : c.outcome.isError with
      | false =>
        have hle := hcaptured herror
        simp only [Bool.false_eq_true, if_false]
        omega
      | true =>
        simp only [if_true]
        omega
    have hhandle : Queue.FrameCells.handle s.queue signum c =
        (Queue.CircularQueue.push (reported s.queue c)
          (.stackTrace c.ts c.trace signum 0 c.timeTsc)).2 := by
      rw [Queue.FrameCells.handle, if_pos hs]
      rfl
    have hnote : note h s (.handle signum c) s =
        accept h (reported s.queue c) (.stackTrace c.ts c.trace signum 0 c.timeTsc) := by
      unfold accept
      rw [pushSample_capture]
      simp only [note, hs, lane, true_and]
      rfl
    rw [hhandle, hnote]
    exact hi.push hfits
  · simp only [note, Queue.FrameCells.handle, hs, false_and, if_false]
    exact hi.push (p := .notification userError "Signal number out of range: " signum) trivial

/-- The head of a lane. -/
theorem Inv.popLane_eq (hi : Inv maxFrameSize x finished waiting) (l : Lane) :
    ∃ q, popLane x.1.queue l = some ((waiting l).head?.map (record maxFrameSize), q) ∧
      Refines maxFrameSize q (fun l' =>
        (Function.update waiting l (waiting l).tail l').map (record maxFrameSize)) := by
  obtain ⟨q, hq, hrefines⟩ := popLane_popped hi.refines l
  rw [List.head?_map] at hq
  rw [← List.map_tail, ← map_update] at hrefines
  exact ⟨q, hq, hrefines⟩

theorem Inv.skip (hi : Inv maxFrameSize (s, h) finished waiting)
    (hplace : s.place = .acquiring l) (l' : Lane) :
    Inv maxFrameSize ({ s with place := .acquiring l' }, h) finished waiting := by
  have hhanded := hi.handed
  rw [hplace] at hhanded
  refine ⟨hi.fits, hi.refines, fun k hk => ?_, hi.accepted, hhanded, hi.scraped, hi.counted⟩
  cases hk

/-- The record in hand joins what the tree has counted, if it is from the stack queue. -/
theorem Inv.call (hi : Inv maxFrameSize (s, h) finished waiting)
    (hplace : s.place = .acquiring l) {p : Push} (hhead : (waiting l).head? = some p) :
    Inv maxFrameSize
      ({ s with
        place := .calling l
        exporter := listen locationsOf s.exporter (record maxFrameSize p) },
      note h s .call s) finished waiting := by
  obtain ⟨rest, hrest⟩ := List.head?_eq_some_iff.mp hhead
  obtain ⟨hlane, hfits⟩ := hi.fits l p (List.mem_of_head? hhead)
  have hhanded : h.handed = finished.length := by
    have hh := hi.handed
    rw [hplace] at hh
    exact hh
  have hcalling : ∀ k, Place.calling l = .calling k → waiting k ≠ [] := by
    intro k hk hnil
    cases hk
    rw [hnil] at hhead
    cases hhead
  rw [listen_record s.exporter hfits]
  simp only [note, hplace]
  by_cases hl : l = .stack
  · subst hl
    have haccepted : h.accepted = finished ++ pushSample p :: rest.map pushSample := by
      rw [hi.accepted, hrest, List.map_cons]
    have hnext : { h with handed := h.handed + 1 : Ledger }.phase =
        h.phase ++ [pushSample p].reduceOption := by
      unfold Ledger.phase
      have htake : h.accepted.take h.handed = finished := by
        rw [haccepted, hhanded, List.take_left]
      have htake' : h.accepted.take (h.handed + 1) = finished ++ [pushSample p] := by
        rw [haccepted, hhanded, List.take_length_add_append]
        rfl
      rw [htake, htake', List.drop_append_of_le_length hi.scraped, List.reduceOption_append]
    rw [if_pos rfl]
    refine ⟨hi.fits, hi.refines, hcalling, hi.accepted, ?_, hi.scraped, ?_⟩
    · exact congrArg (· + 1) hhanded
    · rw [hnext]
      exact counted_elim hi.counted (pushSample p)
  · have hne : Place.acquiring l ≠ .acquiring .stack := fun he => hl (Place.acquiring.inj he)
    have hin : inHand (.calling l) = 0 := if_neg fun he => hl (Place.calling.inj he)
    rw [if_neg hne, pushSample_of_lane (hlane ▸ hl)]
    refine ⟨hi.fits, hi.refines, hcalling, hi.accepted, ?_, hi.scraped, hi.counted⟩
    exact hhanded.trans (congrArg (finished.length + ·) hin.symm)

/-- The slot is given back. -/
theorem Inv.commitRead (hi : Inv maxFrameSize (s, h) finished waiting)
    (hplace : s.place = .calling l) {q : Queue.CircularQueue.State}
    (hrefines : Refines maxFrameSize q (fun l' =>
      (Function.update waiting l (waiting l).tail l').map (record maxFrameSize))) (l' : Lane) :
    ∃ finished waiting,
      Inv maxFrameSize ({ s with queue := q, place := .acquiring l' }, h) finished waiting := by
  have hhanded := hi.handed
  rw [hplace] at hhanded
  have hfits : ∀ k, ∀ p ∈ Function.update waiting l (waiting l).tail k,
      lane p = k ∧ Fits maxFrameSize p := by
    intro k p hp
    by_cases hk : k = l
    · rw [hk, Function.update_self] at hp
      rw [hk]
      exact hi.fits l p (List.mem_of_mem_tail hp)
    · rw [Function.update_of_ne hk] at hp
      exact hi.fits k p hp
  have hacquiring : ∀ k, Place.acquiring l' = .calling k →
      Function.update waiting l (waiting l).tail k ≠ [] := fun k hk => by cases hk
  by_cases hl : l = .stack
  · subst hl
    obtain ⟨p, rest, hrest⟩ := List.exists_cons_of_ne_nil (hi.calling _ hplace)
    refine ⟨finished ++ [pushSample p], _, hfits, hrefines, hacquiring, ?_, ?_, ?_, hi.counted⟩
    · rw [hi.accepted, Function.update_self, hrest, List.append_assoc]
      rfl
    · rw [List.length_append]
      exact hhanded
    · rw [List.length_append]
      exact Nat.le_add_right_of_le hi.scraped
  · have hin : inHand (.calling l) = 0 := if_neg fun he => hl (Place.calling.inj he)
    refine ⟨finished, _, hfits, hrefines, hacquiring, ?_, ?_, hi.scraped, hi.counted⟩
    · rw [hi.accepted, Function.update_of_ne (Ne.symm hl)]
    · exact hhanded.trans (congrArg (finished.length + ·) hin)

/-- A request for `/metrics` starts a phase. -/
theorem Inv.read (hi : Inv maxFrameSize (s, h) finished waiting)
    (hplace : s.place = .acquiring .main) {str : String} {exporter : Exporter.State}
    (hs : Exporter.step locationsOf segment s.exporter (.read str) = some exporter) :
    Inv maxFrameSize ({ s with exporter := exporter }, note h s (.read str) s) finished
      waiting := by
  have hcounted := hi.counted.next hs
  have hhanded : h.handed = finished.length := by
    have hh := hi.handed
    rw [hplace] at hh
    exact hh
  simp only [note, Exporter.note] at hcounted ⊢
  by_cases hmetrics : isMetrics str = true
  · have hphase : { h with scraped := h.handed : Ledger }.phase = [] := by
      unfold Ledger.phase
      rw [List.drop_of_length_le (List.length_take_le _ _)]
      rfl
    rw [if_pos hmetrics] at hcounted ⊢
    exact ⟨hi.fits, hi.refines, hi.calling, hi.accepted, hi.handed, hhanded.le,
      hphase.symm ▸ hcounted⟩
  · rw [if_neg hmetrics] at hcounted ⊢
    exact ⟨hi.fits, hi.refines, hi.calling, hi.accepted, hi.handed, hi.scraped, hcounted⟩

theorem Inv.next (hi : ∃ finished waiting, Inv maxFrameSize x finished waiting)
    (hcaptured : Captured maxFrameSize a)
    (hs : recording (step locationsOf segment) note x a = some y) :
    ∃ finished waiting, Inv maxFrameSize y finished waiting := by
  obtain ⟨s, h⟩ := x
  obtain ⟨finished, waiting, hi⟩ := hi
  refine next_of_step (I := fun y => ∃ finished waiting, Inv maxFrameSize y finished waiting)
    (fun t ht => ?_) hs
  cases a with
  | handle signum c =>
    obtain ⟨-, ht⟩ := Option.ite_none_right_eq_some.mp ht
    cases ht
    exact ⟨finished, hi.handle hcaptured⟩
  | push p =>
    have hnote (hp : ¬ ∃ ts item signum threadState timeTsc,
        p = .stackTrace ts item signum threadState timeTsc) :
        note h s (.push p) { s with queue := (Queue.CircularQueue.push s.queue p).2 } =
          accept h s.queue p := by
      unfold accept
      cases p with
      | stackTrace ts item signum threadState timeTsc => exact absurd ⟨_, _, _, _, _, rfl⟩ hp
      | _ => rfl
    cases p with
    | stackTrace => cases ht
    | _ =>
      cases ht
      rw [hnote (by simp)]
      exact ⟨finished, hi.push trivial⟩
  | skip =>
    unfold step at ht
    cases hplace : s.place with
    | calling l =>
      rw [hplace] at ht
      cases ht
    | acquiring l =>
      rw [hplace] at ht
      dsimp only at ht
      split at ht
      · cases ht
        exact ⟨finished, waiting, hi.skip hplace _⟩
      · cases ht
  | call =>
    unfold step at ht
    cases hplace : s.place with
    | calling l =>
      rw [hplace] at ht
      cases ht
    | acquiring l =>
      obtain ⟨q, hpop, -⟩ := hi.popLane_eq l
      have hpop : popLane s.queue l = _ := hpop
      rw [hplace] at ht
      dsimp only at ht
      rw [hpop] at ht
      cases hhead : (waiting l).head? with
      | none =>
        rw [hhead] at ht
        cases ht
      | some p =>
        rw [hhead] at ht
        cases ht
        exact ⟨finished, waiting, hi.call hplace hhead⟩
  | commitRead =>
    unfold step at ht
    cases hplace : s.place with
    | acquiring l =>
      rw [hplace] at ht
      cases ht
    | calling l =>
      obtain ⟨q, hpop, hrefines⟩ := hi.popLane_eq l
      have hpop : popLane s.queue l = _ := hpop
      rw [hplace] at ht
      dsimp only at ht
      rw [hpop] at ht
      cases ht
      exact hi.commitRead hplace hrefines _
  | read str =>
    obtain ⟨hplace, ht⟩ := Option.ite_none_right_eq_some.mp ht
    obtain ⟨exporter, hexporter, rfl⟩ := Option.map_eq_some_iff.mp ht
    exact ⟨finished, waiting, hi.read hplace hexporter⟩

end runs

/-- **A scrape reads what was captured.** In every order of whole captures, of other pushes, of
the steps of a pop and of requests, the count of a node is the number of captures of its path and
kind that were accepted since the latest scrape, as an `int`, but for those that are still in
the queue. -/
theorem captures_counted (locationsOf : UInt64 → List Location) (segment : String)
    (maxFrameSize : Nat) (symbol timeTsc : UInt64) (labels : List Label)
    (h : ∀ a ∈ labels, Captured maxFrameSize a) :
    Along (recording (step locationsOf segment) note) Reaches
      (init maxFrameSize symbol timeTsc, .empty) labels := by
  have hsteps : Steps (recording (step locationsOf segment) note)
      (fun _ a => Captured maxFrameSize a) (init maxFrameSize symbol timeTsc, .empty) labels :=
    .of_labels fun a ha _ => h a ha
  refine (along_of_invariant (fun x a y hi ha hs => Inv.next hi ha hs)
    ⟨[], fun _ => [], init_inv maxFrameSize symbol timeTsc⟩ hsteps).mono ?_
  intro x ⟨finished, waiting, hi⟩
  exact hi.reaches

/-- A capture whose frames end in the signal handler's. -/
def captureOf (frames : List CallFrame) : Capture :=
  ⟨⟨.success, frames⟩, "", ⟨1, 0⟩, 7, 0⟩

/-- The second capture is accepted while the first is in hand, and waits for the next scrape. -/
theorem late_by_one :
    Along (recording (step (fun _ => []) "") note) Reaches (init 5 0 0, .empty)
      [.handle 27 (captureOf [⟨false, 1⟩, ⟨false, 2⟩, ⟨true, 3⟩, ⟨false, 4⟩, ⟨false, 5⟩]), .skip,
        .skip, .call, .handle 14 (captureOf [⟨false, 1⟩]), .push (.thread "worker" 9), .commitRead,
        .read "GET /metrics HTTP/1.1", .skip, .skip, .call, .commitRead] :=
  captures_counted (fun _ => []) "" 5 0 0 _ (by simp [Captured, captureOf])

end Opsian.Prometheus.Sampling
