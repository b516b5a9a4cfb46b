import Opsian.Prometheus.Exporter

/-! # One series, one line

A node is one program counter under its parent, a line is one function after
those before it. Two nodes print the same series as soon as their paths spell
the same names. -/
namespace Opsian.Prometheus.Series
open Opsian.Lib Opsian.Lib.Runs Opsian.Lib.History Opsian.Prometheus.Exporter
open Opsian.Symbols.SymbolTable (Location)

/-- No two lines of a scrape carry the same labels. -/
def Unique (s : State) : Prop :=
  ∀ cpu wallclock, s.reply = some (.metrics cpu wallclock) →
    ((cpu ++ wallclock).map Line.series).Nodup

section

variable (locationsOf : UInt64 → List Location) (segment : String)

/-- The names of a program counter's functions, the outermost first. -/
def namesOf (pc : UInt64) : List String := functionNames (locationsOf pc)

/-- The names on a path, up to the given function of its last program counter. -/
def spell : List UInt64 → Nat → List String
  | [], _ => []
  | [pc], i => (namesOf locationsOf pc).take (i + 1)
  | pc :: pc' :: q, i => namesOf locationsOf pc ++ spell (pc' :: q) i

def signature (x : List UInt64 × Nat) : String := String.join (spell locationsOf x.1 x.2)

/-- The lines a path ends in. -/
def lineCount (q : List UInt64) : Nat :=
  (q.getLast?.map fun pc => (locationsOf pc).length).getD 0

/-- The lines of the nodes on the paths of the phase: a prefix of a path, and a
function of its last program counter. -/
def Printed (phase : List Sample) (x : List UInt64 × Nat) : Prop :=
  (∃ sample ∈ phase, x.1 <+: sample.path) ∧ x.2 < lineCount locationsOf x.1

/-- The traces since the latest scrape spell no signature in two ways. The first
scrape prints nothing. -/
def Distinct (z : State × List Sample) : Label → Prop
  | .read str => isMetrics str = true → z.1.root.seenInPhase = true →
      ∀ x y, Printed locationsOf z.2 x → Printed locationsOf z.2 y →
        signature locationsOf x = signature locationsOf y → x = y
  | _ => True

/-! ## What a tree prints -/

theorem series_writeLines (c : Int32) (commonStr : String) (functions : List String) :
    (writeLines c commonStr functions).map Line.series =
      (List.range functions.length).map fun i =>
        commonStr ++ String.join (functions.take (i + 1)) := by
  induction functions generalizing commonStr with
  | nil => rfl
  | cons f functions ih =>
    rw [writeLines, List.map_cons, ih, List.length_cons, List.range_succ_eq_map, List.map_cons,
      List.map_map]
    simp [Function.comp_def, String.append_assoc]

theorem foldl_append (commonStr : String) (functions : List String) :
    functions.foldl (· ++ ·) commonStr = commonStr ++ String.join functions := by
  induction functions generalizing commonStr with
  | nil => simp
  | cons f functions ih => simp [ih, String.append_assoc]

/-- The lines of the nodes with these paths, in their order. -/
def positions (paths : List (List UInt64)) : List (List UInt64 × Nat) :=
  paths.flatMap fun q => (List.range (lineCount locationsOf q)).map fun i => (q, i)

variable {locationsOf segment} {s t : State} {phase : List Sample}
  {fo : Forest UInt64 ProfileNode}

theorem mem_positions {paths : List (List UInt64)} {x : List UInt64 × Nat} :
    x ∈ positions locationsOf paths ↔ x.1 ∈ paths ∧ x.2 < lineCount locationsOf x.1 := by
  obtain ⟨q, i⟩ := x
  simp [positions]

theorem nodup_positions {paths : List (List UInt64)} (h : paths.Nodup) :
    (positions locationsOf paths).Nodup := by
  refine List.nodup_flatMap.mpr ⟨fun q _ => List.nodup_range.map fun i j => ?_, ?_⟩
  · simp
  · refine h.imp fun hne x hx hy => hne ?_
    obtain ⟨i, -, rfl⟩ := List.mem_map.mp hx
    obtain ⟨j, -, he⟩ := List.mem_map.mp hy
    exact (congrArg Prod.fst he).symm

theorem lineCount_cons (pc : UInt64) {q : List UInt64} (h : q ≠ []) :
    lineCount locationsOf (pc :: q) = lineCount locationsOf q := by
  unfold lineCount
  rw [List.getLast?_cons, List.getLast?_eq_some_getLast h]
  rfl

theorem spell_cons (pc : UInt64) {q : List UInt64} (h : q ≠ []) (i : Nat) :
    spell locationsOf (pc :: q) i = namesOf locationsOf pc ++ spell locationsOf q i := by
  cases q with
  | nil => exact absurd rfl h
  | cons pc' q => rfl

theorem positions_map_cons (pc : UInt64) {paths : List (List UInt64)} (h : ∀ q ∈ paths, q ≠ []) :
    positions locationsOf (paths.map (pc :: ·)) =
      (positions locationsOf paths).map fun x => (pc :: x.1, x.2) := by
  unfold positions
  rw [List.flatMap_map, List.map_flatMap]
  refine List.flatMap_congr fun q hq => ?_
  rw [lineCount_cons pc (h q hq), List.map_map]
  rfl

/-- A tree prints the lines of the paths it shows. -/
theorem series_writeNodes (h : fo.All fun pc node => node.locations = locationsOf pc) (kind : Bool)
    (commonStr : String) :
    (writeNodes kind fo commonStr).map Line.series =
      (positions locationsOf (fo.shown ProfileNode.seenInPhase)).map fun x =>
        commonStr ++ signature locationsOf x := by
  induction fo generalizing commonStr with
  | nil => rfl
  | cons pc node children rest ihc ihr =>
    obtain ⟨hnode, hc, hr⟩ := h
    have happend (ps qs : List (List UInt64)) : positions locationsOf (ps ++ qs) =
        positions locationsOf ps ++ positions locationsOf qs := List.flatMap_append
    rw [writeNodes, List.map_append, ihr hr, Forest.shown, happend, List.map_append, hnode]
    congr 1
    cases node.seenInPhase with
    | false => rfl
    | true =>
      -- The node's own lines, then those below it.
      have hhead : positions locationsOf [[pc]] =
          (List.range (functionNames (locationsOf pc)).length).map fun i => ([pc], i) := by
        simp [positions, lineCount, functionNames]
      have hne (q : List UInt64) (hq : q ∈ children.shown ProfileNode.seenInPhase) : q ≠ [] :=
        Forest.ne_nil_of_mem_shown hq
      have hsignature : ∀ x ∈ positions locationsOf (children.shown ProfileNode.seenInPhase),
          (commonStr ++ String.join (namesOf locationsOf pc)) ++ signature locationsOf x =
            commonStr ++ signature locationsOf (pc :: x.1, x.2) := fun x hx => by
        rw [signature, signature, spell_cons pc (hne x.1 (mem_positions.mp hx).1),
          String.join_append, String.append_assoc]
      simp only [if_true]
      rw [List.map_append, series_writeLines, ihc hc, foldl_append, ← List.singleton_append,
        happend, hhead, positions_map_cons pc hne, List.map_append, List.map_map, List.map_map]
      congr 1
      exact List.map_congr_left hsignature

/-- The root's own line, and those below it. -/
theorem series_writeRoot (h : s.pcToNode.All fun pc node => node.locations = locationsOf pc)
    (hseen : s.root.seenInPhase = true) (rootPrefix : String) (kind : Bool) :
    (writeRoot s rootPrefix kind).map Line.series =
      ("" :: (positions locationsOf (s.pcToNode.shown ProfileNode.seenInPhase)).map
        (signature locationsOf)).map fun x => (rootPrefix ++ "(root)") ++ x := by
  rw [writeRoot, if_pos hseen, List.map_append, series_writeNodes h]
  simp [writeLines]

/-! ## Prefixes -/

theorem append_right_injective (p : String) : Function.Injective fun x => p ++ x :=
  fun x y h => by simpa using h

/-- The two kinds of lines differ in their labels. -/
theorem cpu_ne_wallclock (segment x y : String) :
    rootCpuPrefix segment ++ x ≠ rootWallclockPrefix segment ++ y := by
  intro h
  have hlist := congrArg String.toList h
  simp [rootCpuPrefix, rootWallclockPrefix] at hlist

theorem signature_ne_empty {q : List UInt64} {i : Nat} (h : i < lineCount locationsOf q) :
    signature locationsOf (q, i) ≠ "" := by
  induction q with
  | nil => cases h
  | cons pc q ih =>
    cases q with
    | nil =>
      have hi : i < (locationsOf pc).length := h
      obtain ⟨location, rest, hl⟩ := List.exists_cons_of_length_pos (Nat.zero_lt_of_lt hi)
      simp [signature, spell, namesOf, functionNames, hl]
    | cons pc' q =>
      have hq : pc' :: q ≠ [] := List.cons_ne_nil pc' q
      intro he
      rw [signature, spell_cons pc hq, String.join_append, String.append_eq_empty_iff] at he
      exact ih (lineCount_cons pc hq ▸ h) he.2

/-! ## The invariant -/

/-- The tree shows the paths of the phase, each node under the names of its program counter. -/
structure Inv (locationsOf : UInt64 → List Location) (z : State × List Sample) : Prop where
  simple : z.1.pcToNode.Simple
  closed : z.1.pcToNode.Closed ProfileNode.seenInPhase
  nodes : z.1.pcToNode.All fun pc node => node.locations = locationsOf pc
  shown : ∀ q, q ∈ z.1.pcToNode.shown ProfileNode.seenInPhase ↔
    q ≠ [] ∧ ∃ sample ∈ z.2, q <+: sample.path

theorem init_inv : Inv locationsOf (init, []) :=
  ⟨trivial, trivial, trivial, fun q => by simp [init, Forest.shown]⟩

theorem Inv.recordSample (h : Inv locationsOf (s, phase)) (x : Sample) :
    Inv locationsOf (recordSample locationsOf s x, phase ++ [x]) := by
  have hseen := visit_seenInPhase x.isCpuSample
  refine ⟨h.simple.touch x.path, h.closed.touch hseen x.path, ?_, fun q => ?_⟩
  · exact h.nodes.touch (fun _ _ hv => hv)
      (fun _ v ks hv => (visit_locations x.isCpuSample ks v).trans hv)
      (fun pc ks => visit_locations x.isCpuSample ks (newNode locationsOf pc)) x.path
  · show q ∈ (s.pcToNode.touch _ _ _).shown _ ↔ _
    have hshown := h.shown q
    rw [Forest.mem_shown_touch h.closed hseen, hshown]
    simp only [List.mem_append, List.mem_singleton, or_and_right, exists_or, exists_eq_left,
      and_or_left]

theorem Inv.endPhase (h : Inv locationsOf (s, phase)) (r : Option Reply) :
    Inv locationsOf ({ endPhase s with reply := r }, []) := by
  have hunseen : (s.pcToNode.map ProfileNode.reset).All fun _ node => node.seenInPhase = false :=
    Forest.all_map (g := ProfileNode.reset) (fun _ _ => rfl) s.pcToNode
  refine ⟨h.simple.map _, Forest.closed_of_all hunseen, h.nodes.map fun _ _ hv => hv, fun q => ?_⟩
  have hnone : q ∉ (s.pcToNode.map ProfileNode.reset).shown ProfileNode.seenInPhase := by
    simp [Forest.shown_eq_nil hunseen]
  refine ⟨fun hq => absurd hq hnone, ?_⟩
  rintro ⟨-, sample, hsample, -⟩
  cases hsample

theorem Inv.mem_positions_iff (h : Inv locationsOf (s, phase)) (x : List UInt64 × Nat) :
    x ∈ positions locationsOf (s.pcToNode.shown ProfileNode.seenInPhase) ↔
      Printed locationsOf phase x := by
  have hshown := h.shown x.1
  rw [mem_positions, hshown]
  refine ⟨fun hx => ⟨hx.1.2, hx.2⟩, fun hx => ⟨⟨fun hnil => ?_, hx.1⟩, hx.2⟩⟩
  have hlt := hx.2
  simp [lineCount, hnil] at hlt

/-- The lines of one kind are all different if no signature is spelled twice. -/
theorem Inv.nodup_writeRoot_iff (h : Inv locationsOf (s, phase)) (hseen : s.root.seenInPhase = true)
    (rootPrefix : String) (kind : Bool) :
    ((writeRoot s rootPrefix kind).map Line.series).Nodup ↔
      ∀ x y, Printed locationsOf phase x → Printed locationsOf phase y →
        signature locationsOf x = signature locationsOf y → x = y := by
  have hroot : "" ∉ (positions locationsOf (s.pcToNode.shown ProfileNode.seenInPhase)).map
      (signature locationsOf) := fun hmem => by
    obtain ⟨x, hx, he⟩ := List.mem_map.mp hmem
    exact signature_ne_empty (mem_positions.mp hx).2 he
  have hnodup : (positions locationsOf (s.pcToNode.shown ProfileNode.seenInPhase)).Nodup :=
    nodup_positions (Forest.nodup_shown h.simple)
  rw [series_writeRoot h.nodes hseen, List.nodup_map_iff (append_right_injective _),
    List.nodup_cons, and_iff_right hroot, List.nodup_map_iff_inj_on hnodup]
  simp only [h.mem_positions_iff]
  exact ⟨fun hi x y hx hy => hi x hx y hy, fun hi x hx y hy => hi x y hx hy⟩

theorem Inv.disjoint_kinds (h : Inv locationsOf (s, phase)) (hseen : s.root.seenInPhase = true) :
    ((writeRoot s (rootCpuPrefix segment) true).map Line.series).Disjoint
      ((writeRoot s (rootWallclockPrefix segment) false).map Line.series) := by
  intro series hcpu hwallclock
  rw [series_writeRoot h.nodes hseen] at hcpu hwallclock
  obtain ⟨x, -, rfl⟩ := List.mem_map.mp hcpu
  obtain ⟨y, -, he⟩ := List.mem_map.mp hwallclock
  simp only [String.append_assoc] at he
  exact cpu_ne_wallclock segment _ _ he.symm

/-- A scrape prints different lines exactly if its phase is distinct. -/
theorem Inv.unique_iff (h : Inv locationsOf (s, phase)) {str : String} (hm : isMetrics str = true) :
    Unique (doRead segment s str) ↔ Distinct locationsOf (s, phase) (.read str) := by
  unfold Unique Distinct doRead
  simp only [hm, if_true, Option.some.injEq, Reply.metrics.injEq, forall_const]
  by_cases hseen : s.root.seenInPhase = true
  · refine ⟨fun hu _ => ?_, ?_⟩
    · have hcpu := hu _ _ ⟨rfl, rfl⟩
      rw [List.map_append] at hcpu
      exact (h.nodup_writeRoot_iff hseen _ true).mp hcpu.of_append_left
    · rintro hd cpu wallclock ⟨rfl, rfl⟩
      have hdistinct := hd hseen
      rw [List.map_append]
      exact ((h.nodup_writeRoot_iff hseen _ true).mpr hdistinct).append
        ((h.nodup_writeRoot_iff hseen _ false).mpr hdistinct) (h.disjoint_kinds hseen)
  · refine ⟨fun _ hs => absurd hs hseen, ?_⟩
    rintro - cpu wallclock ⟨rfl, rfl⟩
    simp [writeRoot, hseen]

/-! ## Runs -/

theorem Inv.next {a : Label} (h : Inv locationsOf (s, phase))
    (hs : step locationsOf segment s a = some t) : Inv locationsOf (t, note phase s a t) :=
  next_of_sample h h.recordSample h.endPhase
    (fun _ => ⟨h.simple, h.closed, h.nodes, h.shown⟩) hs

theorem inv_of_run {labels : List Label}
    (hs : run (step locationsOf segment) init labels = some s) :
    ∃ phase, Inv locationsOf (s, phase) :=
  along_iff_reached.mp (along_of_step (I := fun s => ∃ phase, Inv locationsOf (s, phase))
    (fun _ _ _ ⟨_, h⟩ hs => ⟨_, h.next hs⟩) ⟨_, init_inv⟩ labels) labels (List.prefix_refl _) s hs

theorem Inv.unique {a : Label} (h : Inv locationsOf (s, phase)) (hp : Unique s)
    (hok : Distinct locationsOf (s, phase) a) (hs : step locationsOf segment s a = some t) :
    Unique t := by
  cases a with
  | record trace signum =>
    obtain ⟨-, rfl⟩ := Option.ite_some_none_eq_some.mp hs
    unfold recordStackTrace
    split
    · exact hp
    · exact hp
  | read str =>
    obtain ⟨-, rfl⟩ := Option.ite_some_none_eq_some.mp hs
    by_cases hm : isMetrics str = true
    · exact (h.unique_iff hm).mpr hok
    · rw [doRead, if_neg hm]
      intro cpu wallclock hreply
      cases hreply
  | readError =>
    cases hs
    exact hp

theorem Inv.distinct {a : Label} (h : Inv locationsOf (s, phase))
    (hs : step locationsOf segment s a = some t) (ht : Unique t) :
    Distinct locationsOf (s, phase) a := by
  cases a with
  | read str =>
    obtain ⟨-, rfl⟩ := Option.ite_some_none_eq_some.mp hs
    intro hm
    exact (h.unique_iff hm).mp ht hm
  | _ => trivial

/-- **No series is printed twice**, in any scrape of a run, if and only if no two
lines that its phase's traces ask for spell the same names. -/
theorem unique_iff_distinct (locationsOf : UInt64 → List Location) (segment : String)
    (labels : List Label) :
    Along (step locationsOf segment) Unique init labels ↔
      Steps (recording (step locationsOf segment) note) (Distinct locationsOf) (init, [])
        labels := by
  refine along_fst.symm.trans (along_iff_steps (I := fun z => Inv locationsOf z ∧ Unique z.1)
    (fun z a y h hok hs => ?_) (fun _ h => h.2) (fun z a y h _ hs hy => ?_) ⟨init_inv, nofun⟩)
  · obtain ⟨hs, hg⟩ := recording_eq_some.mp hs
    have hnext := h.1.next hs
    exact ⟨by rwa [← hg] at hnext, h.1.unique h.2 hok hs⟩
  · exact h.1.distinct (recording_eq_some.mp hs).1 hy

end

/-- Two call sites in one function. -/
def oneFunction (_ : UInt64) : List Location := [⟨1, 12, "main.ml", "main"⟩]

def traceAt (pc : UInt64) : CallTrace :=
  ⟨4, [⟨true, 1⟩, ⟨true, 2⟩, ⟨true, 3⟩, ⟨false, pc⟩]⟩

/-- Two program counters of one function print its series twice. -/
theorem two_call_sites_printed_twice :
    ¬ Along (step oneFunction "") Unique init
      [getMetrics, .record (traceAt 0x1000) sigprof, .record (traceAt 0x1010) sigprof,
        getMetrics] := by
  refine not_along_of_run (List.prefix_refl _) rfl fun h => ?_
  exact absurd (h _ _ rfl) (by decide)

end Opsian.Prometheus.Series
