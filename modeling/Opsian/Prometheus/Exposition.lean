import Opsian.Lib.TextFormat
import Opsian.Prometheus.Series

/-! # What a scraper reads

A line of a scrape is meant to be one sample: its type, the segment if there is one, and
the names along the path as its signature. A scraper reads it by the text format, in which
a label's value is escaped; the exporter writes it as it is. -/
namespace Opsian.Prometheus.Exposition
open Opsian.Lib Opsian.Lib.TextFormat Opsian.Prometheus.Exporter

def typeName (isCpuSample : Bool) : String := if isCpuSample then "cpu" else "wallclock"

def rootPrefix (segment : String) (isCpuSample : Bool) : String :=
  if isCpuSample then rootCpuPrefix segment else rootWallclockPrefix segment

/-- What a line is about: the names on its path, one after the other, and its count. -/
structure Printed where
  names : List String
  count : Int32
  deriving DecidableEq, Repr

def printedLines (count : Int32) (names : List String) : List String → List Printed
  | [] => []
  | functionName :: functions =>
    ⟨names ++ [functionName], count⟩ :: printedLines count (names ++ [functionName]) functions

def printedNodes (isCpuSample : Bool) : Forest UInt64 ProfileNode → List String → List Printed
  | .nil, _ => []
  | .cons _ node children rest, names =>
    let functions := functionNames node.locations
    (if node.seenInPhase then
      printedLines (node.count isCpuSample) names functions ++
        printedNodes isCpuSample children (names ++ functions)
    else []) ++ printedNodes isCpuSample rest names

def printedRoot (s : State) (isCpuSample : Bool) : List Printed :=
  if s.root.seenInPhase then
    printedLines (s.root.count isCpuSample) [] ["(root)"] ++
      printedNodes isCpuSample s.pcToNode ["(root)"]
  else []

def Printed.signature (x : Printed) : List Char := (String.join x.names).toList

/-- The sample that a line stands for. -/
def intended (segment : String) (isCpuSample : Bool) (x : Printed) : TextFormat.Sample where
  name := "promfiler_cpu_profile".toList
  labels :=
    [("type".toList, (typeName isCpuSample).toList)] ++
    (if segment = "" then [] else [("segment".toList, segment.toList)]) ++
    [("signature".toList, x.signature)]
  value := x.count.toInt
  timestamp := none

/-- Every line is read as the sample that it stands for. -/
def Decodes (segment : String) (s : State) : Prop :=
  ∀ isCpuSample,
    (writeRoot s (rootPrefix segment isCpuSample) isCpuSample).map
      (fun line => readSample line.text.toList) =
    (printedRoot s isCpuSample).map fun x => some (intended segment isCpuSample x)

/-- Nothing that is printed has to be escaped, and all of it is UTF-8. -/
def Unescaped (segment : String) (s : State) : Prop :=
  ∀ isCpuSample, ∀ x ∈ printedRoot s isCpuSample, Plain segment.toList ∧ Plain x.signature

/-! ## The lines -/

def lineOf (commonStr : String) (x : Printed) : Line := ⟨commonStr ++ String.join x.names, x.count⟩

theorem writeLines_eq (c : Int32) (commonStr : String) (names functions : List String) :
    writeLines c (commonStr ++ String.join names) functions =
      (printedLines c names functions).map (lineOf commonStr) := by
  induction functions generalizing names with
  | nil => rfl
  | cons f functions ih =>
    have hjoin : commonStr ++ String.join names ++ f =
        commonStr ++ String.join (names ++ [f]) := by simp [String.append_assoc]
    rw [writeLines, hjoin, ih]
    rfl

theorem writeNodes_eq (kind : Bool) (fo : Forest UInt64 ProfileNode) (commonStr : String)
    (names : List String) :
    writeNodes kind fo (commonStr ++ String.join names) =
      (printedNodes kind fo names).map (lineOf commonStr) := by
  induction fo generalizing names with
  | nil => rfl
  | cons pc node children rest ihc ihr =>
    have hjoin : (functionNames node.locations).foldl (· ++ ·) (commonStr ++ String.join names) =
        commonStr ++ String.join (names ++ functionNames node.locations) := by
      rw [Series.foldl_append]
      simp [String.append_assoc]
    rw [writeNodes, printedNodes, List.map_append, ← ihr]
    congr 1
    split
    · rw [hjoin, ihc, writeLines_eq, List.map_append]
    · rfl

theorem writeRoot_eq (s : State) (commonStr : String) (kind : Bool) :
    writeRoot s commonStr kind = (printedRoot s kind).map (lineOf commonStr) := by
  have hlines := writeLines_eq (s.root.count kind) commonStr [] ["(root)"]
  have hnodes := writeNodes_eq kind s.pcToNode commonStr ["(root)"]
  have hroot : String.join ["(root)"] = "(root)" := by simp
  rw [String.join_nil, String.append_empty] at hlines
  rw [hroot] at hnodes
  unfold writeRoot printedRoot
  split
  · rw [hlines, hnodes, List.map_append]
  · rfl

/-! ## One line -/

/-- The text behind the opening brace. -/
def labelsText (segment : String) (kind : Bool) (x : Printed) : List Char :=
  "type".toList ++ '=' :: '\"' :: ((typeName kind).toList ++ '\"' :: ',' ::
    ((if segment = "" then [] else
      "segment".toList ++ '=' :: '\"' :: (segment.toList ++ ['\"', ','])) ++
    ("signature".toList ++ '=' :: '\"' :: (x.signature ++ '\"' :: '\x7d' ::
      ' ' :: ((toString x.count.toInt).toList ++ ['\n'])))))

theorem text_lineOf (segment : String) (kind : Bool) (x : Printed) :
    (lineOf (rootPrefix segment kind) x).text.toList =
      "promfiler_cpu_profile".toList ++ '\x7b' :: labelsText segment kind x := by
  unfold Line.text lineOf rootPrefix rootCpuPrefix rootWallclockPrefix prefixEnd labelsText typeName
  cases kind <;> by_cases hsegment : segment = "" <;>
    simp [hsegment, prefix1, prefix2, Printed.signature]

theorem isName_metric : IsName isMetricStart isMetricChar "promfiler_cpu_profile".toList :=
  ⟨rfl, List.all_eq_true.mp rfl⟩

theorem isName_type : IsName isLabelStart isLabelChar "type".toList :=
  ⟨rfl, List.all_eq_true.mp rfl⟩

theorem isName_segment : IsName isLabelStart isLabelChar "segment".toList :=
  ⟨rfl, List.all_eq_true.mp rfl⟩

theorem isName_signature : IsName isLabelStart isLabelChar "signature".toList :=
  ⟨rfl, List.all_eq_true.mp rfl⟩

theorem plain_typeName (kind : Bool) : Plain (typeName kind).toList := by
  cases kind <;> exact ⟨by simp [typeName], rfl⟩

theorem plain_nil : Plain [] := ⟨nofun, rfl⟩

/-- The last label, and the value. -/
theorem readLabels_signature (n : Nat) (x : Printed) (tail after : List Char) :
    readLabels (n + 1) ("signature".toList ++ '=' :: '\"' :: (x.signature ++ '\"' :: '\x7d' ::
        tail)) = some ([("signature".toList, x.signature)], after) ↔
      Plain x.signature ∧ tail = after := by
  rw [readLabels_iff isName_signature, moreLabels_brace]
  simp

theorem readLabels_labelsText (segment : String) (kind : Bool) (x : Printed)
    (after : List Char) :
    readLabels ((labelsText segment kind x).length + 1) (labelsText segment kind x) =
        some ((intended segment kind x).labels, after) ↔
      (Plain segment.toList ∧ Plain x.signature) ∧
        ' ' :: ((toString x.count.toInt).toList ++ ['\n']) = after := by
  have hlength : 2 ≤ (labelsText segment kind x).length := by
    unfold labelsText
    rw [List.length_append, List.length_cons, List.length_cons]
    omega
  obtain ⟨n, hn⟩ : ∃ n, (labelsText segment kind x).length + 1 = n + 3 :=
    ⟨(labelsText segment kind x).length - 2, by omega⟩
  rw [hn]
  unfold labelsText intended
  simp only [List.singleton_append]
  by_cases hsegment : segment = ""
  · subst hsegment
    simp only [if_true, List.nil_append, List.cons_append]
    rw [readLabels_iff isName_type, moreLabels_comma, readLabels_signature]
    simp [plain_typeName, plain_nil]
  · simp only [if_neg hsegment, List.append_assoc, List.cons_append, List.nil_append]
    rw [readLabels_iff isName_type, moreLabels_comma, readLabels_iff isName_segment,
      moreLabels_comma, readLabels_signature]
    simp [plain_typeName, and_assoc]

/-- A line is read as its sample exactly if nothing in it needs to be escaped. -/
theorem readSample_lineOf_iff (segment : String) (kind : Bool) (x : Printed) :
    readSample (lineOf (rootPrefix segment kind) x).text.toList =
        some (intended segment kind x) ↔
      Plain segment.toList ∧ Plain x.signature := by
  rw [text_lineOf]
  refine (readSample_iff isName_metric).trans ?_
  constructor
  · rintro ⟨after, hlabels, -⟩
    exact ((readLabels_labelsText segment kind x after).mp hlabels).1
  · intro hplain
    exact ⟨_, (readLabels_labelsText segment kind x _).mpr ⟨hplain, rfl⟩, readValue_toString _⟩

/-- **Lines decode** if and only if no segment or signature among them has a quote, a
backslash or a line feed, or is not UTF-8. -/
theorem decodes_iff_unescaped (segment : String) (s : State) :
    Decodes segment s ↔ Unescaped segment s := by
  unfold Decodes Unescaped
  refine forall_congr' fun kind => ?_
  rw [writeRoot_eq, List.map_map, List.map_inj_left]
  exact forall₂_congr fun x _ => readSample_lineOf_iff segment kind x

/-- A user-defined literal of C++. -/
def literalOperator : State :=
  { endPhase init with
    pcToNode := .cons 0x1000 ⟨[⟨1, 12, "units.hpp", "operator\"\"_ms"⟩], true, 1, 0⟩ .nil .nil }

/-- Its name ends the signature early. -/
theorem quoted_name_breaks : ¬ Decodes "" literalOperator := by
  intro h
  have hkind := h true
  rw [writeRoot_eq, List.map_map, List.map_inj_left] at hkind
  have hread := hkind ⟨["(root)", "#operator\"\"_ms"], 1⟩ (by decide)
  have hplain := ((readSample_lineOf_iff "" true _).mp hread).2
  exact absurd rfl (hplain.unescaped '\"' (by decide)).2.1

end Opsian.Prometheus.Exposition
