import Mathlib.Algebra.Ring.Int.Defs
import Opsian.Lib.Tally
import Opsian.Prometheus.Paths
import Opsian.Prometheus.Series

/-! # What a scrape adds up to

A trace is counted at the node it ends in, which prints one line for each of
its locations. A trace is therefore printed as often as it ends in locations, and
before the first scrape, which finds the root unseen, not at all. -/
namespace Opsian.Prometheus.Conservation
open Opsian.Lib Opsian.Lib.Runs Opsian.Lib.History Opsian.Lib.Tally Opsian.Prometheus.Exporter
open Opsian.Prometheus.Paths (countAt number nodeAt mainOnly mainTrace)
open Opsian.Symbols.SymbolTable (Location)

def lineSum (lines : List Line) : Int :=
  (lines.map fun line => line.value.toInt).sum

/-- The samples of one kind. -/
def ofKind (isCpuSample : Bool) (samples : List Sample) : List Sample :=
  samples.filter fun x => x.isCpuSample == isCpuSample

/-! ## Who writes a line -/

/-- The lines of `writeNodes`, each with the path of the node that it is written for. -/
def nodeEntries (isCpuSample : Bool) :
    Forest UInt64 ProfileNode → String → List (List UInt64 × Line)
  | .nil, _ => []
  | .cons pc node children rest, commonStr =>
    let functions := functionNames node.locations
    (if node.seenInPhase then
      (writeLines (node.count isCpuSample) commonStr functions).map ([pc], ·) ++
        (nodeEntries isCpuSample children (functions.foldl (· ++ ·) commonStr)).map
          (Prod.map (pc :: ·) id)
    else []) ++ nodeEntries isCpuSample rest commonStr

def rootEntries (s : State) (rootPrefix : String) (isCpuSample : Bool) :
    List (List UInt64 × Line) :=
  if s.root.seenInPhase then
    (writeLines (s.root.count isCpuSample) rootPrefix ["(root)"]).map ([], ·) ++
      nodeEntries isCpuSample s.pcToNode (rootPrefix ++ "(root)")
  else []

theorem lines_nodeEntries (kind : Bool) (fo : Forest UInt64 ProfileNode) (commonStr : String) :
    (nodeEntries kind fo commonStr).map Prod.snd = writeNodes kind fo commonStr := by
  induction fo generalizing commonStr with
  | nil => rfl
  | cons pc node children rest ihc ihr =>
    rw [nodeEntries, writeNodes, List.map_append, ihr]
    congr 1
    split
    · rw [← ihc, List.map_append, List.map_map, List.map_map]
      congr 1
      exact List.map_id _
    · rfl

theorem lines_rootEntries (s : State) (rootPrefix : String) (kind : Bool) :
    (rootEntries s rootPrefix kind).map Prod.snd = writeRoot s rootPrefix kind := by
  unfold rootEntries writeRoot
  split
  · rw [List.map_append, lines_nodeEntries, List.map_map]
    congr 1
  · rfl

/-! ## The history -/

/-- A scrape: the traces of its phase, and its lines with the nodes they are written for. -/
structure Scrape where
  samples : List Sample
  cpu : List (List UInt64 × Line)
  wallclock : List (List UInt64 × Line)

structure History where
  phase : List Sample
  latest : Option Scrape

def start : History := ⟨[], none⟩

def values (entries : List (List UInt64 × Line)) : List (List UInt64 × Int) :=
  entries.map (Prod.map id fun line => line.value.toInt)

/-- The lines count each trace of a kind once: those of the node that a path ends in add up to
the traces that took the path. -/
structure Accounts (isCpuSample : Bool) (lines : List Line)
    (entries : List (List UInt64 × Line)) (samples : List Sample) : Prop where
  written : entries.map Prod.snd = lines
  once : ∀ path, amountFor path (values entries) = number samples path isCpuSample
  sum : lineSum lines = (ofKind isCpuSample samples).length

/-- A scrape has printed the traces of its phase, each of them once. -/
def Conserved (z : State × History) : Prop :=
  ∀ cpu wallclock, z.1.reply = some (.metrics cpu wallclock) → ∃ scrape,
    z.2.latest = some scrape ∧ Accounts true cpu scrape.cpu scrape.samples ∧
      Accounts false wallclock scrape.wallclock scrape.samples

section

variable (locationsOf : UInt64 → List Location) (segment : String)

def note (g : History) (s : State) (a : Label) (t : State) : History where
  phase := Exporter.note g.phase s a t
  latest :=
    match a with
    | .read str =>
      if isMetrics str then
        some ⟨g.phase, rootEntries s (rootCpuPrefix segment) true,
          rootEntries s (rootWallclockPrefix segment) false⟩
      else g.latest
    | _ => g.latest

/-- The locations a path ends in; the root prints one line. -/
def ends (path : List UInt64) : Nat :=
  (path.getLast?.map fun pc => (locationsOf pc).length).getD 1

/-- Each trace since the latest scrape ends in one location; before the first scrape there is
none. -/
def Located (z : State × History) : Label → Prop
  | .read str => isMetrics str = true →
      (∀ x ∈ z.2.phase, ends locationsOf x.path = 1) ∧ (z.2.latest = none → z.2.phase = [])
  | _ => True

instance (z : State × History) (a : Label) : Decidable (Located locationsOf z a) :=
  match a with
  | .read _ => inferInstanceAs (Decidable (_ = true → _ ∧ (_ → z.2.phase = [])))
  | .record .. | .readError => .isTrue trivial

/-- The counters do not overflow. -/
def Room (z : State × History) : Label → Prop
  | .record _ _ => z.2.phase.length < 2147483647
  | _ => True

instance (z : State × History) (a : Label) : Decidable (Room z a) :=
  match a with
  | .record .. => inferInstanceAs (Decidable (_ < 2147483647))
  | .read _ | .readError => .isTrue trivial

end

/-! ## The lines of a node -/

variable {locationsOf : UInt64 → List Location} {segment : String} {s t : State}
  {phase : List Sample} {g : History} {fo : Forest UInt64 ProfileNode}

theorem values_append (es es' : List (List UInt64 × Line)) :
    values (es ++ es') = values es ++ values es' := List.map_append

theorem sum_values (es : List (List UInt64 × Line)) :
    ((values es).map Prod.snd).sum = lineSum (es.map Prod.snd) := by
  rw [values, lineSum, List.map_map, List.map_map]
  rfl

theorem lineSum_writeLines (c : Int32) (commonStr : String) (functions : List String) :
    lineSum (writeLines c commonStr functions) = functions.length * c.toInt := by
  induction functions generalizing commonStr with
  | nil => simp [writeLines, lineSum]
  | cons f functions ih =>
    have hcons : lineSum (writeLines c commonStr (f :: functions)) =
        c.toInt + lineSum (writeLines c (commonStr ++ f) functions) := by simp [writeLines, lineSum]
    rw [hcons, ih, List.length_cons]
    push_cast
    rw [Int.add_mul, Int.one_mul, Int.add_comm]

/-- Lines of one node. -/
theorem amountFor_own (path q : List UInt64) (lines : List Line) :
    amountFor q (values (lines.map (path, ·))) = if path = q then lineSum lines else 0 := by
  by_cases h : path = q <;> simp [amountFor, values, lineSum, List.filter_map, Function.comp_def, h]

/-- Lines of the nodes below one. -/
theorem amountFor_below (pc : UInt64) (q : List UInt64) (es : List (List UInt64 × Line)) :
    amountFor q (values (es.map (Prod.map (pc :: ·) id))) =
      match q with
      | [] => 0
      | pc' :: q => if pc = pc' then amountFor q (values es) else 0 := by
  cases q with
  | nil => simp [amountFor, values, List.filter_map, Function.comp_def]
  | cons pc' q =>
    by_cases h : pc = pc' <;>
      simp [amountFor, values, List.filter_map, Function.comp_def, h]

/-- What a node prints for its count. -/
def nodeWeight (kind : Bool) (node : ProfileNode) : Int :=
  node.locations.length * (node.count kind).toInt

/-- An unseen node has counted nothing. -/
def Unseen (node : ProfileNode) : Prop :=
  node.seenInPhase = false → ∀ kind, node.count kind = 0

theorem nodeWeight_unseen {node : ProfileNode} (h : Unseen node) (hu : node.seenInPhase = false)
    (kind : Bool) : nodeWeight kind node = 0 := by
  rw [nodeWeight, h hu kind]
  exact Int.mul_zero _

/-- The lines of a node print its count once for each of its locations. -/
theorem amountFor_nodeEntries (hs : fo.Simple) (hc : fo.Closed ProfileNode.seenInPhase)
    (hu : fo.All fun _ node => Unseen node) (kind : Bool) (commonStr : String) (q : List UInt64) :
    amountFor q (values (nodeEntries kind fo commonStr)) =
      ((fo.lookup q).map (nodeWeight kind)).getD 0 := by
  induction fo generalizing commonStr q with
  | nil => rfl
  | cons pc node children rest ihc ihr =>
    obtain ⟨hkey, hsc, hsr⟩ := hs
    obtain ⟨hbelow, hcc, hcr⟩ := hc
    obtain ⟨hnode, huc, hur⟩ := hu
    rw [nodeEntries, values_append, amountFor_append, ihr hsr hcr hur]
    cases q with
    | nil =>
      split
      · rw [values_append, amountFor_append, amountFor_own, amountFor_below]
        simp
      · simp [values, amountFor]
    | cons pc' q =>
      rw [Forest.lookup]
      by_cases hpc : pc = pc'
      · subst hpc
        rw [Forest.lookup_of_not_mem_keys hkey, if_pos rfl]
        cases hseen : node.seenInPhase with
        | true =>
          rw [if_pos rfl, values_append, amountFor_append, amountFor_own, amountFor_below]
          simp only [if_true, ihc hsc hcc huc, lineSum_writeLines]
          cases q with
          | nil => simp [nodeWeight, functionNames]
          | cons => simp
        | false =>
          have hnone (v : ProfileNode) (hv : children.lookup q = some v) :
              nodeWeight kind v = 0 := by
            obtain ⟨-, -, hunseen⟩ := huc.lookup hv
            obtain ⟨-, -, hdown⟩ := (hbelow hseen).lookup hv
            exact nodeWeight_unseen hunseen hdown kind
          cases q with
          | nil => simp [values, amountFor, nodeWeight_unseen hnode hseen]
          | cons pc' q =>
            cases hlookup : children.lookup (pc' :: q) with
            | none => simp [values, amountFor]
            | some v => simp [values, amountFor, hnone v hlookup]
      · rw [if_neg hpc]
        have hown : amountFor (pc' :: q) (values (if node.seenInPhase then
            (writeLines (node.count kind) commonStr (functionNames node.locations)).map ([pc], ·) ++
              (nodeEntries kind children ((functionNames node.locations).foldl (· ++ ·)
                commonStr)).map (Prod.map (pc :: ·) id) else [])) = 0 := by
          split
          · rw [values_append, amountFor_append, amountFor_own, amountFor_below]
            simp [hpc]
          · rfl
        exact (congrArg (· + _) hown).trans (Int.zero_add _)

/-! ## The traces of a phase -/

structure Inv (locationsOf : UInt64 → List Location) (z : State × List Sample) : Prop where
  series : Series.Inv locationsOf z
  counts : Paths.Inv z
  unseen : z.1.pcToNode.All fun _ node => Unseen node

theorem init_inv : Inv locationsOf (init, []) := ⟨Series.init_inv, Paths.init_inv, trivial⟩

theorem unseen_visit (kind : Bool) (ks : List UInt64) (node : ProfileNode) :
    Unseen (visit kind ks node) := by
  intro hu
  rw [visit_seenInPhase] at hu
  cases hu

theorem Inv.next {a : Label} (h : Inv locationsOf (s, phase))
    (hs : step locationsOf segment s a = some t) :
    Inv locationsOf (t, Exporter.note phase s a t) := by
  refine next_of_sample (I := Inv locationsOf) h (fun x => ?_) (fun r => ?_) (fun r => ?_) hs
  · refine ⟨h.series.recordSample x, h.counts.recordSample x, ?_⟩
    exact h.unseen.touch (fun _ _ hv => hv) (fun _ v ks _ => unseen_visit _ ks v)
      (fun _ ks => unseen_visit _ ks _) x.path
  · refine ⟨h.series.endPhase r, Paths.countAt_endPhase s, ?_⟩
    refine Forest.all_map (g := ProfileNode.reset) (fun _ node _ kind => ?_) s.pcToNode
    cases kind <;> rfl
  · exact ⟨⟨h.series.simple, h.series.closed, h.series.nodes, h.series.shown⟩, h.counts, h.unseen⟩

theorem number_le (path : List UInt64) (kind : Bool) : number phase path kind ≤ phase.length :=
  List.count_le_length

/-- The lines of a node print the traces of its path once for each of its locations. -/
theorem Inv.amountFor_rootEntries (h : Inv locationsOf (s, phase))
    (hroom : phase.length ≤ 2147483647) (hseen : s.root.seenInPhase = true) (rootPrefix : String)
    (kind : Bool) (path : List UInt64) :
    amountFor path (values (rootEntries s rootPrefix kind)) =
      ends locationsOf path * number phase path kind := by
  have hlt : number phase path kind < 2 ^ 31 := by
    have hle : number phase path kind ≤ phase.length := number_le path kind
    omega
  have hcount : (countAt s path kind).toInt = number phase path kind := h.counts.counted _ _ hlt
  have hnodes := amountFor_nodeEntries h.series.simple h.series.closed h.unseen kind
    (rootPrefix ++ "(root)") path
  rw [rootEntries, if_pos hseen, values_append, amountFor_append, amountFor_own,
    lineSum_writeLines, hnodes]
  by_cases hpath : path = []
  · subst hpath
    have hroot : (s.root.count kind).toInt = number phase [] kind := hcount
    simp [hroot, ends]
  · rw [if_neg (Ne.symm hpath), Int.zero_add, ← hcount, countAt, Paths.nodeAt_of_ne_nil _ hpath]
    cases hlookup : s.pcToNode.lookup path with
    | none => simp
    | some node =>
      obtain ⟨pc, hlast, hnode⟩ := h.series.nodes.lookup hlookup
      simp [nodeWeight, ends, hlast, hnode]

/-- The first scrape prints nothing. -/
theorem rootEntries_unseen (h : s.root.seenInPhase = false) (rootPrefix : String) (kind : Bool) :
    rootEntries s rootPrefix kind = [] := by
  rw [rootEntries, h]
  rfl

theorem amountFor_samples (samples : List Sample) (path : List UInt64) (kind : Bool) :
    amountFor path ((ofKind kind samples).map fun x => (x.path, (1 : Int))) =
      number samples path kind := by
  induction samples with
  | nil => rfl
  | cons x samples ih =>
    obtain ⟨xpath, xkind⟩ := x
    rw [number, List.count_cons, ofKind, List.filter_cons]
    by_cases hkind : xkind = kind
    · subst hkind
      rw [if_pos (by simp), List.map_cons, amountFor_cons, amountFor_singleton]
      refine (congrArg (_ + ·) ih).trans ?_
      by_cases hpath : xpath = path <;> simp [number, hpath, Int.add_comm]
    · rw [if_neg (by simpa using hkind)]
      refine ih.trans ?_
      simp [number, hkind]

/-- Where each trace is printed once, the lines add up to the traces. -/
theorem accounts_of_once {entries : List (List UInt64 × Line)} {samples : List Sample}
    {kind : Bool} (h : ∀ path, amountFor path (values entries) = number samples path kind) :
    Accounts kind (entries.map Prod.snd) entries samples where
  written := rfl
  once := h
  sum := by
    rw [← sum_values,
      sum_congr fun path => (h path).trans (amountFor_samples samples path kind).symm]
    simp [Function.comp_def]

/-! ## Runs -/

/-- A scrape prints each trace once exactly if its phase is located. -/
theorem Inv.once_iff (h : Inv locationsOf (s, phase)) (hroom : phase.length ≤ 2147483647)
    (rootPrefix : Bool → String) :
    (∀ kind path, amountFor path (values (rootEntries s (rootPrefix kind) kind)) =
        number phase path kind) ↔
      (∀ x ∈ phase, ends locationsOf x.path = 1) ∧
        (s.root.seenInPhase = false → phase = []) := by
  cases hseen : s.root.seenInPhase with
  | false =>
    simp only [rootEntries_unseen hseen, forall_const]
    constructor
    · intro hnone
      have hempty : phase = [] := List.eq_nil_iff_forall_not_mem.mpr fun x hx => by
        have hzero : ((0 : Nat) : Int) = number phase x.path x.isCpuSample :=
          hnone x.isCpuSample x.path
        exact List.count_eq_zero.mp (Int.ofNat.inj hzero).symm hx
      exact ⟨fun x hx => absurd hx (by simp [hempty]), hempty⟩
    · rintro ⟨-, rfl⟩ kind path
      rfl
  | true =>
    simp only [h.amountFor_rootEntries hroom hseen, reduceCtorEq, false_implies, and_true]
    constructor
    · intro honce x hx
      have hpos : 0 < number phase x.path x.isCpuSample := List.count_pos_iff.mpr hx
      have hx := honce x.isCpuSample x.path
      rw [← Int.natCast_mul] at hx
      exact Nat.eq_of_mul_eq_mul_right hpos ((Int.ofNat.inj hx).trans (Nat.one_mul _).symm)
    · intro hends kind path
      by_cases hnumber : number phase path kind = 0
      · simp [hnumber]
      · have hmem : ⟨path, kind⟩ ∈ phase := List.count_pos_iff.mp (Nat.pos_of_ne_zero hnumber)
        rw [hends _ hmem]
        exact Int.one_mul _

/-- The root is unseen until the first scrape. -/
structure Good (locationsOf : UInt64 → List Location) (z : State × History) : Prop where
  tree : Inv locationsOf (z.1, z.2.phase)
  root : z.1.root.seenInPhase = false ↔ z.2.latest = none
  room : z.2.phase.length ≤ 2147483647
  conserved : Conserved z

theorem init_good : Good locationsOf (init, start) :=
  ⟨init_inv, iff_of_true rfl rfl, Nat.zero_le _, nofun⟩

/-- A scrape conserves its phase exactly if that is located. -/
theorem Good.conserved_iff (h : Good locationsOf (s, g)) {str : String}
    (hm : isMetrics str = true) :
    Conserved (doRead segment s str, note segment g s (.read str) t) ↔
      Located locationsOf (s, g) (.read str) := by
  have honce := h.tree.once_iff h.room fun kind =>
    if kind then rootCpuPrefix segment else rootWallclockPrefix segment
  have hroot : s.root.seenInPhase = false ↔ g.latest = none := h.root
  rw [hroot] at honce
  unfold Conserved Located
  simp only [hm, doRead, note, if_true, Option.some.injEq, Reply.metrics.injEq, forall_const,
    exists_eq_left', ← honce]
  constructor
  · intro hall kind path
    obtain ⟨hcpu, hwallclock⟩ := hall _ _ ⟨rfl, rfl⟩
    cases kind with
    | true => exact hcpu.once path
    | false => exact hwallclock.once path
  · rintro hall cpu wallclock ⟨rfl, rfl⟩
    rw [← lines_rootEntries, ← lines_rootEntries]
    exact ⟨accounts_of_once (hall true), accounts_of_once (hall false)⟩

theorem Good.next {a : Label} (h : Good locationsOf (s, g)) (hroom : Room (s, g) a)
    (hok : Located locationsOf (s, g) a) (hs : step locationsOf segment s a = some t) :
    Good locationsOf (t, note segment g s a t) := by
  have htree := h.tree.next hs
  cases a with
  | record trace signum =>
    obtain ⟨-, rfl⟩ := Option.ite_some_none_eq_some.mp hs
    have hlength : (Exporter.note g.phase s (.record trace signum) s).length ≤ 2147483647 := by
      have hlt : g.phase.length < 2147483647 := hroom
      rw [Exporter.note, List.length_append]
      cases sampleOf (trace, signum) with
      | none => exact Nat.le_of_lt hlt
      | some x => exact hlt
    refine ⟨htree, ?_, hlength, ?_⟩
    · refine Iff.trans ?_ h.root
      rw [recordStackTrace_eq s (trace, signum)]
      cases sampleOf (trace, signum) with
      | none => exact Iff.rfl
      | some x =>
        show ((if x.path = [] then _ else _) : ProfileNode).seenInPhase = false ↔ _
        split
        · rw [ProfileNode.increment_seenInPhase]
        · exact Iff.rfl
    · intro cpu wallclock hreply
      refine h.conserved cpu wallclock ?_
      rw [recordStackTrace_eq s (trace, signum)] at hreply
      cases hx : sampleOf (trace, signum) with
      | none => rwa [hx] at hreply
      | some x => rwa [hx] at hreply
  | read str =>
    obtain ⟨-, rfl⟩ := Option.ite_some_none_eq_some.mp hs
    by_cases hm : isMetrics str = true
    · refine ⟨htree, ?_, ?_, (h.conserved_iff hm).mpr hok⟩
      · simp [doRead, note, hm, endPhase]
      · simp [note, Exporter.note, hm]
    · refine ⟨htree, ?_, ?_, ?_⟩
      · simpa [doRead, note, hm] using h.root
      · simpa [note, Exporter.note, hm] using h.room
      · simp [Conserved, doRead, hm]
  | readError =>
    cases hs
    exact ⟨htree, h.root, h.room, h.conserved⟩

theorem Good.located {a : Label} (h : Good locationsOf (s, g))
    (hs : step locationsOf segment s a = some t) (ht : Conserved (t, note segment g s a t)) :
    Located locationsOf (s, g) a := by
  cases a with
  | read str =>
    obtain ⟨-, rfl⟩ := Option.ite_some_none_eq_some.mp hs
    intro hm
    exact (h.conserved_iff hm).mp ht hm
  | _ => trivial

/-- **A scrape conserves its samples**, each of them counted on one line, in every run whose
counters do not overflow, if and only if each trace of each of its phases ends in one location
and none comes before the first scrape. -/
theorem conserved_iff_located (locationsOf : UInt64 → List Location) (segment : String)
    (labels : List Label)
    (hroom : Steps (recording (step locationsOf segment) (note segment)) Room (init, start)
      labels) :
    Along (recording (step locationsOf segment) (note segment)) Conserved (init, start) labels ↔
      Steps (recording (step locationsOf segment) (note segment)) (Located locationsOf)
        (init, start) labels := by
  refine along_iff_steps_of (I := Good locationsOf) (fun z a y h hr hok => ?_)
    (fun _ h => h.conserved) (fun z a y h _ _ hs hy => ?_) init_good hroom
  · exact next_of_step fun t ht => Good.next h hr hok ht
  · obtain ⟨hs, hg⟩ := recording_eq_some.mp hs
    exact h.located hs (by rwa [← hg])

/-- Samples of both kinds between two scrapes are conserved. -/
theorem scraped_samples_conserved :
    Along (recording (step mainOnly "") (note "")) Conserved (init, start)
      [getMetrics, .record mainTrace sigprof, .record mainTrace 14, .record mainTrace sigprof,
        getMetrics] :=
  (conserved_iff_located mainOnly "" _ (by decide +kernel)).mpr (by decide +kernel)

/-- One before the first scrape is lost. -/
theorem early_sample_lost :
    ¬ Along (recording (step mainOnly "") (note "")) Conserved (init, start)
      [.record mainTrace sigprof, getMetrics] := by
  refine not_along_of_run (List.prefix_refl _) rfl fun h => ?_
  obtain ⟨scrape, hlatest, hcpu, -⟩ := h [] [] rfl
  cases hlatest
  exact absurd hcpu.sum (by decide)

end Opsian.Prometheus.Conservation
