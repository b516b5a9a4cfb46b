import Mathlib.Algebra.Ring.Nat
import Mathlib.Data.List.Count
import Mathlib.Data.List.Perm.Basic
import Opsian.Prometheus.Exporter

/-! # Counting paths

The node at the end of a path counts the traces of the phase that end there, as
far as an `int` can count. The traces may come in any order. -/
namespace Opsian.Prometheus.Paths
open Opsian.Lib Opsian.Lib.Runs Opsian.Lib.History Opsian.Prometheus.Exporter
open Opsian.Symbols.SymbolTable (Location)

/-- The node that a path from the root ends in. -/
def nodeAt (s : State) (path : List UInt64) : Option ProfileNode :=
  if path = [] then some s.root else s.pcToNode.lookup path

/-- Its count, which is 0 where there is no node. -/
def countAt (s : State) (path : List UInt64) (isCpuSample : Bool) : Int32 :=
  ((nodeAt s path).map fun node => node.count isCpuSample).getD 0

def Seen (s : State) (path : List UInt64) : Prop :=
  ∃ node, nodeAt s path = some node ∧ node.seenInPhase = true

/-- How many traces of a kind took a path. -/
def number (samples : List Sample) (path : List UInt64) (isCpuSample : Bool) : Nat :=
  samples.count ⟨path, isCpuSample⟩

/-- Each node counts the traces of its path in the phase. -/
def Exact (z : State × List Sample) : Prop :=
  ∀ path isCpuSample, (countAt z.1 path isCpuSample).toInt = number z.2 path isCpuSample

/-- It does so where an `int` has room for them. -/
def Counted (z : State × List Sample) : Prop :=
  ∀ path isCpuSample, number z.2 path isCpuSample < 2 ^ 31 →
    (countAt z.1 path isCpuSample).toInt = number z.2 path isCpuSample

section

variable (locationsOf : UInt64 → List Location)

/-- The traces with their signals, recorded one after the other. -/
def recordAll (s : State) (traces : List (CallTrace × Int)) : State :=
  traces.foldl (fun s trace => recordStackTrace locationsOf s trace.1 trace.2) s

/-- Any order of the traces leaves the same counts, and the same nodes seen. -/
def Unordered (s : State) : Prop :=
  ∀ traces traces' : List (CallTrace × Int), traces.Perm traces' → ∀ path,
    (∀ isCpuSample, countAt (recordAll locationsOf s traces) path isCpuSample =
      countAt (recordAll locationsOf s traces') path isCpuSample) ∧
    (Seen (recordAll locationsOf s traces) path ↔ Seen (recordAll locationsOf s traces') path)

variable {locationsOf} {s t : State} {phase : List Sample} {path : List UInt64} {kind : Bool}

/-! ## One trace -/

theorem count_increment (node : ProfileNode) (kind kind' : Bool) :
    (node.increment kind).count kind' = node.count kind' + if kind = kind' then 1 else 0 := by
  cases kind <;> cases kind' <;> simp [ProfileNode.increment, ProfileNode.count]

theorem count_visit (node : ProfileNode) (kind kind' : Bool) (rest : List UInt64) :
    (visit kind rest node).count kind' =
      node.count kind' + if rest = [] ∧ kind = kind' then 1 else 0 := by
  unfold visit
  by_cases hrest : rest = []
  · simp only [hrest, if_true, true_and]
    rw [count_increment]
    rfl
  · simp only [hrest, if_false, false_and, Int32.add_zero]
    rfl

theorem count_newNode (pc : UInt64) (kind : Bool) : (newNode locationsOf pc).count kind = 0 := by
  cases kind <;> rfl

/-- A path that is not empty has a last program counter. -/
theorem eq_concat (h : path ≠ []) : ∃ above pc, path = above ++ [pc] :=
  ⟨path.dropLast, path.getLast h, (List.dropLast_concat_getLast h).symm⟩

theorem nodeAt_of_ne_nil (s : State) (h : path ≠ []) : nodeAt s path = s.pcToNode.lookup path :=
  if_neg h

/-- The node at the end of a path that a trace walks down. -/
theorem nodeAt_recordSample (s : State) (x : Sample) {above below : List UInt64} {pc : UInt64}
    (hx : x.path = above ++ pc :: below) :
    nodeAt (recordSample locationsOf s x) (above ++ [pc]) =
      some (visit x.isCpuSample below
        ((nodeAt s (above ++ [pc])).getD (newNode locationsOf pc))) := by
  have hne : above ++ [pc] ≠ [] := List.append_ne_nil_of_right_ne_nil above (List.cons_ne_nil pc [])
  rw [nodeAt_of_ne_nil _ hne, nodeAt_of_ne_nil _ hne, recordSample]
  simp only [hx]
  exact Forest.lookup_touch _ above pc below

theorem nodeAt_recordSample_of_apart (s : State) {x : Sample} (h : ¬ path <+: x.path) :
    nodeAt (recordSample locationsOf s x) path = nodeAt s path := by
  have hne : path ≠ [] := fun he => h (he ▸ List.nil_prefix)
  rw [nodeAt_of_ne_nil _ hne, nodeAt_of_ne_nil _ hne]
  exact Forest.lookup_touch_of_apart h

theorem countAt_recordSample (s : State) (x : Sample) (path : List UInt64) (kind : Bool) :
    countAt (recordSample locationsOf s x) path kind =
      countAt s path kind + if x = ⟨path, kind⟩ then 1 else 0 := by
  obtain ⟨xpath, xkind⟩ := x
  simp only [Sample.mk.injEq]
  by_cases hpath : path = []
  · subst hpath
    change (if xpath = [] then s.root.increment xkind else s.root).count kind = _
    by_cases hx : xpath = []
    · simp only [hx, if_true, true_and]
      exact count_increment s.root xkind kind
    · simp only [hx, if_false, false_and, Int32.add_zero]
      rfl
  · obtain ⟨above, pc, rfl⟩ := eq_concat hpath
    by_cases hleads : above ++ [pc] <+: xpath
    · obtain ⟨below, hbelow⟩ := hleads
      rw [List.append_assoc] at hbelow
      have hend : xpath = above ++ [pc] ↔ below = [] := by
        rw [← hbelow]
        simp
      unfold countAt
      rw [nodeAt_recordSample s _ hbelow.symm, Option.map_some, Option.getD_some, count_visit]
      simp only [hend]
      congr 1
      cases nodeAt s (above ++ [pc]) with
      | none => exact count_newNode pc kind
      | some node => rfl
    · have hne : xpath ≠ above ++ [pc] := fun he => hleads (he ▸ List.prefix_refl _)
      unfold countAt
      rw [nodeAt_recordSample_of_apart s hleads]
      simp only [hne, false_and, if_false, Int32.add_zero]

theorem seen_recordSample (s : State) (x : Sample) (path : List UInt64) :
    Seen (recordSample locationsOf s x) path ↔
      Seen s path ∨ path ≠ [] ∧ path <+: x.path := by
  unfold Seen
  by_cases hpath : path = []
  · subst hpath
    have hroot : nodeAt (recordSample locationsOf s x) [] =
        some (if x.path = [] then s.root.increment x.isCpuSample else s.root) := rfl
    have hseen : (if x.path = [] then s.root.increment x.isCpuSample else s.root).seenInPhase =
        s.root.seenInPhase := by split <;> simp
    rw [hroot]
    simp [nodeAt, hseen]
  · by_cases hleads : path <+: x.path
    · refine iff_of_true ?_ (.inr ⟨hpath, hleads⟩)
      obtain ⟨above, pc, rfl⟩ := eq_concat hpath
      obtain ⟨below, hbelow⟩ := hleads
      rw [List.append_assoc] at hbelow
      exact ⟨_, nodeAt_recordSample s x hbelow.symm, visit_seenInPhase _ _ _⟩
    · rw [nodeAt_recordSample_of_apart s hleads]
      simp [hleads]

/-! ## Traces in a row -/

theorem recordAll_eq (s : State) (traces : List (CallTrace × Int)) :
    recordAll locationsOf s traces =
      (traces.filterMap sampleOf).foldl (recordSample locationsOf) s := by
  induction traces generalizing s with
  | nil => rfl
  | cons trace traces ih =>
    rw [recordAll, List.foldl_cons, recordStackTrace_eq]
    refine (ih _).trans ?_
    cases h : sampleOf trace with
    | none => rw [List.filterMap_cons_none h]; rfl
    | some x => rw [List.filterMap_cons_some h]; rfl

theorem countAt_foldl (s : State) (samples : List Sample) (path : List UInt64) (kind : Bool) :
    countAt (samples.foldl (recordSample locationsOf) s) path kind =
      countAt s path kind + Int32.ofNat (number samples path kind) := by
  induction samples generalizing s with
  | nil => exact (Int32.add_zero _).symm
  | cons x samples ih =>
    rw [List.foldl_cons, ih, countAt_recordSample, Int32.add_assoc, number, number,
      List.count_cons, Nat.add_comm, Int32.ofNat_add]
    by_cases hx : x = ⟨path, kind⟩ <;> simp [hx]

theorem seen_foldl (s : State) (samples : List Sample) (path : List UInt64) :
    Seen (samples.foldl (recordSample locationsOf) s) path ↔
      Seen s path ∨ path ≠ [] ∧ ∃ x ∈ samples, path <+: x.path := by
  induction samples generalizing s with
  | nil => simp
  | cons x samples ih =>
    rw [List.foldl_cons, ih, seen_recordSample, or_assoc, ← and_or_left]
    simp

theorem unordered (locationsOf : UInt64 → List Location) (s : State) :
    Unordered locationsOf s := by
  intro traces traces' hperm path
  have hsamples := hperm.filterMap sampleOf
  rw [recordAll_eq, recordAll_eq]
  constructor
  · intro kind
    rw [countAt_foldl, countAt_foldl, number, number, hsamples.count_eq]
  · rw [seen_foldl, seen_foldl]
    simp only [hsamples.mem_iff]

/-! ## Runs -/

/-- Each count is the number of its traces, as an `int`. -/
def Inv (z : State × List Sample) : Prop :=
  ∀ path kind, countAt z.1 path kind = Int32.ofNat (number z.2 path kind)

theorem init_inv : Inv (init, []) := by
  intro path kind
  by_cases hpath : path = []
  · subst hpath
    cases kind <;> rfl
  · rw [countAt, nodeAt_of_ne_nil _ hpath]
    rfl

theorem Inv.recordSample (h : Inv (s, phase)) (x : Sample) :
    Inv (recordSample locationsOf s x, phase ++ [x]) := by
  intro path kind
  have hs : countAt s path kind = _ := h path kind
  rw [countAt_recordSample, hs, number, number, List.count_append, Int32.ofNat_add]
  by_cases hx : x = ⟨path, kind⟩ <;> simp [hx]

theorem countAt_endPhase (s : State) (path : List UInt64) (kind : Bool) :
    countAt (endPhase s) path kind = 0 := by
  have hzero (node : ProfileNode) : node.reset.count kind = 0 := by cases kind <;> rfl
  unfold countAt
  by_cases hpath : path = []
  · subst hpath
    cases kind <;> rfl
  · rw [nodeAt_of_ne_nil _ hpath, endPhase]
    simp only [Forest.lookup_map, Option.map_map]
    cases s.pcToNode.lookup path with
    | none => rfl
    | some node => exact hzero node

theorem Inv.next {segment : String} {a : Label} (h : Inv (s, phase))
    (hs : step locationsOf segment s a = some t) : Inv (t, note phase s a t) :=
  next_of_sample h h.recordSample (fun _ => countAt_endPhase s) (fun _ => h) hs

theorem Inv.counted {z : State × List Sample} (h : Inv z) : Counted z := by
  intro path kind hroom
  rw [h path kind, Int32.toInt_ofNat_of_lt hroom]

/-- **The tree counts paths**: in every run each node counts the traces of its path since the
latest scrape, up to the largest `int`, and in whatever order they come. -/
theorem counted_unordered (locationsOf : UInt64 → List Location) (segment : String)
    (labels : List Label) :
    Along (recording (step locationsOf segment) note)
      (fun z => Counted z ∧ Unordered locationsOf z.1) (init, []) labels :=
  (along_of_step (fun _ _ _ h => next_of_step fun _ => Inv.next h) init_inv labels).mono
    fun z h => ⟨h.counted, unordered locationsOf z.1⟩

/-! ## The largest count -/

theorem run_replicate {segment : String} {trace : CallTrace} {signum : Int} {x : Sample}
    (htrace : trace.numFrames ≤ trace.frames.length) (hx : sampleOf (trace, signum) = some x)
    (n : Nat) :
    run (recording (step locationsOf segment) note) (s, phase)
        (List.replicate n (.record trace signum)) =
      some (recordAll locationsOf s (List.replicate n (trace, signum)),
        phase ++ List.replicate n x) := by
  induction n generalizing s phase with
  | zero => simp [run, recordAll]
  | succ n ih =>
    have hstep : recording (step locationsOf segment) note (s, phase) (.record trace signum) =
        some (recordStackTrace locationsOf s trace signum, phase ++ [x]) :=
      recording_eq_some.mpr ⟨if_pos htrace, by simp [note, hx]⟩
    rw [List.replicate_succ, run, hstep, Option.bind_some, ih, List.append_assoc]
    rfl

/-- No `int` is as large. -/
theorem not_exact {z : State × List Sample} (h : 2 ^ 31 ≤ number z.2 path kind) : ¬ Exact z := by
  intro hexact
  have hcount := hexact path kind
  have hlt := (countAt z.1 path kind).toInt_lt
  omega

end

/-- Every program counter is in one function. -/
def mainOnly (_ : UInt64) : List Location := [⟨1, 12, "main.ml", "main"⟩]

def mainTrace : CallTrace := ⟨4, [⟨true, 1⟩, ⟨true, 2⟩, ⟨true, 3⟩, ⟨false, 0x1000⟩]⟩

/-- One trace more than an `int` can count. -/
theorem too_many_traces :
    ¬ Along (recording (step mainOnly "") note) Exact (init, [])
      (List.replicate (2 ^ 31) (.record mainTrace sigprof)) := by
  refine not_along_of_run (List.prefix_refl _)
    (run_replicate (x := ⟨[0x1000], true⟩) (by decide) (by decide) _)
    (not_exact (show 2 ^ 31 ≤ number _ [0x1000] true from ?_))
  rw [List.nil_append, number, List.count_replicate_self]

end Opsian.Prometheus.Paths
