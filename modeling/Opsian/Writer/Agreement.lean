import Opsian.Prometheus.Series
import Opsian.Writer.LogWriter

/-! # Two readings of one call path

The log writer walks a trace from its innermost frame out, the exporter from
its outermost frame in, but both take the locations of a frame in the order
libbacktrace has given them. The two readings are the reverse of each other only
where that order does not matter. -/
namespace Opsian.Writer.Agreement
open Opsian.Lib Opsian.Lib.Runs Opsian.Prometheus.Exporter Opsian.Prometheus.Series
open Opsian.Symbols.SymbolTable (Location)
open Opsian.Writer.LogWriter (readFrames sentLocations)

variable (locationsOf : UInt64 → List Location)

/-- The functions of a trace as the log writer sends them, the leaf first. -/
def sentNames (trace : CallTrace) : List String :=
  (sentLocations (fun frame => locationsOf frame.frame) trace).map Location.functionName

/-- The functions in the signature of the node at the end of a path, the root's child first. -/
def signatureNames (s : State) (path : List UInt64) : List String :=
  (s.pcToNode.along path).flatMap fun node => node.locations.map Location.functionName

/-- The functions of a program counter read the same in both directions. -/
def Palindrome (pc : UInt64) : Prop :=
  ((locationsOf pc).map Location.functionName).reverse =
    (locationsOf pc).map Location.functionName

variable {locationsOf} {s : State} {phase : List Sample} {segment : String} {trace : CallTrace}

/-! ## Lists of blocks -/

/-- Blocks of the same lengths make up the same list only if they are the same. -/
theorem flatMap_eq_iff {f g : α → List β} {l : List α}
    (h : ∀ a ∈ l, (f a).length = (g a).length) :
    l.flatMap f = l.flatMap g ↔ ∀ a ∈ l, f a = g a := by
  refine ⟨fun he => ?_, List.flatMap_congr⟩
  induction l with
  | nil => exact fun a ha => absurd ha List.not_mem_nil
  | cons a l ih =>
    rw [List.flatMap_cons, List.flatMap_cons] at he
    obtain ⟨hhead, htail⟩ := List.append_inj he (h a List.mem_cons_self)
    have hrest := ih (fun b hb => h b (List.mem_cons_of_mem a hb)) htail
    intro b hb
    rcases List.mem_cons.mp hb with rfl | hb
    · exact hhead
    · exact hrest b hb

/-! ## The two readings -/

theorem path_eq (h : 0 ≤ trace.numFrames) :
    trace.path = (readFrames trace).reverse.map CallFrame.frame := by
  unfold CallTrace.path readFrames
  have hnat : trace.numFrames.toNat = trace.numFrames.natAbs := by omega
  rw [hnat]

theorem sentNames_eq (h : 0 ≤ trace.numFrames) :
    sentNames locationsOf trace = (readFrames trace).flatMap fun frame =>
      (locationsOf frame.frame).map Location.functionName := by
  unfold sentNames sentLocations
  rw [if_neg (by omega), List.map_flatMap]

/-- The walk of a trace leaves its own nodes on its path. -/
theorem signatureNames_record (hinv : Inv locationsOf (s, phase)) (h : 0 ≤ trace.numFrames)
    (signum : Int) : signatureNames (recordStackTrace locationsOf s trace signum) trace.path =
      trace.path.flatMap fun pc => (locationsOf pc).map Location.functionName := by
  unfold signatureNames recordStackTrace
  rw [if_neg (by omega), ← List.flatMap_map (f := ProfileNode.locations)
    (g := fun ls : List Location => ls.map Location.functionName)]
  have halong := Forest.map_along_touch (l := ProfileNode.locations) hinv.nodes
    (fun pc node ks hnode => (visit_locations (decide (signum = sigprof)) ks node).trans hnode)
    (fun pc ks => visit_locations (decide (signum = sigprof)) ks (newNode locationsOf pc))
    trace.path
  rw [halong, List.flatMap_map]

theorem spell_all (q : List UInt64) :
    spell locationsOf q (lineCount locationsOf q - 1) = q.flatMap (namesOf locationsOf) := by
  induction q with
  | nil => rfl
  | cons pc q ih =>
    cases q with
    | nil =>
      have hlength : (namesOf locationsOf pc).length ≤ lineCount locationsOf [pc] - 1 + 1 := by
        simp only [namesOf, functionNames, lineCount, List.getLast?_singleton, Option.map_some,
          Option.getD_some, List.length_map]
        omega
      rw [spell, List.take_of_length_le hlength, List.flatMap_singleton]
    | cons pc' q =>
      rw [lineCount_cons pc (List.cons_ne_nil pc' q), spell_cons pc (List.cons_ne_nil pc' q), ih]
      rfl

/-- These names are what the next scrape prints for the trace, where its innermost
program counter has a line. -/
theorem signature_printed (hinv : Inv locationsOf (s, phase)) (h : 0 ≤ trace.numFrames)
    (signum : Int) (hseen : s.root.seenInPhase = true) (hline : 0 < lineCount locationsOf trace.path)
    (rootPrefix : String) (kind : Bool) :
    rootPrefix ++ "(root)" ++ String.join ((signatureNames
        (recordStackTrace locationsOf s trace signum) trace.path).map ("#" ++ ·)) ∈
      (writeRoot (recordStackTrace locationsOf s trace signum) rootPrefix kind).map
        Line.series := by
  have hpath : trace.path ≠ [] := fun hnil => by simp [lineCount, hnil] at hline
  have hrecord := hinv.recordSample ⟨trace.path, decide (signum = sigprof)⟩
  have hroot : (recordSample locationsOf s
      ⟨trace.path, decide (signum = sigprof)⟩).root.seenInPhase = true := by
    rw [recordSample, if_neg hpath, hseen]
  rw [signatureNames_record hinv h, List.map_flatMap, recordStackTrace_of_nonneg s h,
    series_writeRoot hrecord.nodes hroot]
  refine List.mem_map.mpr ⟨signature locationsOf (trace.path, lineCount locationsOf trace.path - 1),
    List.mem_cons_of_mem _ (List.mem_map_of_mem (hrecord.mem_positions_iff _ |>.mpr ?_)), ?_⟩
  · exact ⟨⟨_, List.mem_append_right _ (List.mem_singleton_self _), List.prefix_refl _⟩,
      Nat.sub_lt hline Nat.one_pos⟩
  · show rootPrefix ++ "(root)" ++ signature locationsOf _ = _
    rw [signature, spell_all]
    congr 2
    exact List.flatMap_congr fun pc _ => by simp [namesOf, functionNames]

/-! ## Agreement -/

/-- **The two readings agree**, the leaf-first one being the reverse of the
root-first one, if and only if the functions of every program counter that is
read stand in an order that reads the same both ways. -/
theorem agree_iff_palindromes (locationsOf : UInt64 → List Location) (segment : String)
    (labels : List Label) (s : State)
    (hs : run (step locationsOf segment) init labels = some s) (trace : CallTrace)
    (h : 0 ≤ trace.numFrames) (signum : Int) :
    sentNames locationsOf trace =
        (signatureNames (recordStackTrace locationsOf s trace signum) trace.path).reverse ↔
      ∀ frame ∈ readFrames trace, Palindrome locationsOf frame.frame := by
  have hlength : ∀ frame ∈ readFrames trace,
      ((locationsOf frame.frame).map Location.functionName).length =
        ((locationsOf frame.frame).map Location.functionName).reverse.length := by
    intro frame _
    rw [List.length_reverse]
  obtain ⟨phase, hinv⟩ := inv_of_run hs
  have hsignature := signatureNames_record hinv h signum
  rw [sentNames_eq h, hsignature, path_eq h, List.flatMap_map, List.reverse_flatMap,
    List.reverse_reverse]
  exact (flatMap_eq_iff hlength).trans (forall₂_congr fun frame _ => eq_comm)

/-- One location for each program counter, as without inlining. -/
theorem palindrome_of_length_le_one {pc : UInt64} (h : (locationsOf pc).length ≤ 1) :
    Palindrome locationsOf pc := by
  unfold Palindrome
  match hl : locationsOf pc, h with
  | [], _ => rfl
  | [location], _ => rfl

def traceOf (pcs : List UInt64) : CallTrace where
  numFrames := 3 + pcs.length
  frames := [⟨true, 1⟩, ⟨true, 2⟩, ⟨true, 3⟩] ++ pcs.map fun pc => ⟨false, pc⟩

/-- Frames without inlining. -/
def plain (pc : UInt64) : List Location :=
  if pc = 0x1000 then [⟨2, 12, "main.ml", "main"⟩] else [⟨3, 7, "main.ml", "parse"⟩]

theorem plain_trace_agrees :
    sentNames plain (traceOf [0x2000, 0x1000]) =
      (signatureNames (recordStackTrace plain init (traceOf [0x2000, 0x1000]) sigprof)
        (traceOf [0x2000, 0x1000]).path).reverse := by
  refine (agree_iff_palindromes plain "" [] init rfl (traceOf [0x2000, 0x1000]) (by decide)
    sigprof).mpr fun frame _ => palindrome_of_length_le_one ?_
  unfold plain
  split <;> exact Nat.le_refl 1

/-- The call of `parse` was inlined into `main`. -/
def inlined (_ : UInt64) : List Location :=
  [⟨3, 7, "main.ml", "parse"⟩, ⟨2, 12, "main.ml", "main"⟩]

/-- The leaf comes first in what is sent, but first in the signature too, where the
root's side should be. -/
theorem inlined_trace_disagrees :
    sentNames inlined (traceOf [0x1000]) ≠
      (signatureNames (recordStackTrace inlined init (traceOf [0x1000]) sigprof)
        (traceOf [0x1000]).path).reverse := by
  decide

end Opsian.Writer.Agreement
