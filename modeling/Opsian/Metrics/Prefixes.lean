import Opsian.Lib.PrefixTable
import Opsian.Metrics.CpuReader

/-! # Disabled prefixes

The readers test the names of groups against the disabled prefixes, never the names of
metrics: a metric is recorded where no prefix disables a group that it belongs to. -/
namespace Opsian.Metrics.Prefixes
open Opsian.Lib Opsian.Metrics.Listener Opsian.Metrics.Completion Opsian.Metrics.CpuReader

/-! ## The constants of the event ring -/

def enabledName : String := "ocaml.eventring.enabled"

def runParamName : String := "ocaml.runparam"

def versionParamName : String := "ocaml.version"

def stringConstant (name : String) (unit : MetricUnit) (value : String) : MetricListenerEntry where
  name := name
  variability := .constant
  unit := unit
  data := ⟨.string, value, 0⟩

/-- `version` is `OCAML_VERSION_STRING`. -/
def emitConstantMetrics (events : Events) (version : String) (getenv : String → Option String) :
    List MetricListenerEntry :=
  [⟨enabledName, .constant, .none, ⟨.long, "", if events = .enabled then 1 else 0⟩⟩] ++
    ((getenv "OCAMLRUNPARAM").or (getenv "CAMLRUNPARAM")).toList.map
      (stringConstant runParamName .string) ++
    [stringConstant versionParamName .none version]

/-- What `EventRingReader::read` records before it polls. -/
def constants (events : Events) (version : String) (r : EventRingReader)
    (getenv : String → Option String) : List MetricListenerEntry :=
  if r.enabled && !r.hasEmittedConstantMetrics then emitConstantMetrics events version getenv
  else []

/-! ## Both readers -/

structure Readers where
  cpudata : CPUDataReader
  eventRing : EventRingReader
  deriving DecidableEq, Repr

/-- One read, with what it finds. -/
inductive Read where
  | cpudata (input : Input) (timestampInMs : Int64)
  | eventRing (getenv : String → Option String)

section Steps

variable (split : String → List String) (lexicalCast : String → Except String Int64)
  (events : Events) (version : String)

def Readers.updateEntryPrefixes (x : Readers) (disabledPrefixes : List String) (created : Bool) :
    Readers :=
  ⟨x.cpudata.updateEntryPrefixes disabledPrefixes,
    x.eventRing.updateEntryPrefixes events disabledPrefixes created⟩

/-- A read with the entries that it records, but for those of the poll. -/
def Readers.read (x : Readers) : Read → Readers × List MetricListenerEntry
  | .cpudata input timestampInMs =>
    let r := x.cpudata.read split lexicalCast input timestampInMs
    ({ x with cpudata := r.1 }, recorded r.2)
  | .eventRing getenv =>
    ({ x with eventRing := x.eventRing.read }, constants events version x.eventRing getenv)

def Readers.reads (x : Readers) (as : List Read) : Readers :=
  as.foldl (fun x a => (x.read split lexicalCast events version a).1) x

end Steps

/-! ## The groups -/

/-- How the metrics of the groups begin, with the groups that have to be enabled. -/
def groups : List (List Char × List String) :=
  [("cpu.ncores".toList, [cpuNCoresName]),
    ("cpu.process.".toList, [cpuProcessName]),
    ("cpu.system.".toList, [cpuSystemName]),
    (memCoreNamePrefix.toList, [memCoreName]),
    (memExtendedNamePrefix.toList, [memCoreName, memExtendedName]),
    ("ocaml.".toList, [eventRingName])]

/-- No prefix disables a group of the metric. -/
def groupsEnabled (disabledPrefixes : List String) (name : String) : Bool :=
  (PrefixTable.classOf groups name.toList).all fun gs =>
    gs.all fun g => !isPrefixDisabled g disabledPrefixes

variable {split : String → List String} {lexicalCast : String → Except String Int64}
  {events : Events} {version : String}

theorem groups_prefixFree : PrefixTable.PrefixFree groups := by decide

/-- The metrics that begin in one way are recorded or left out together. -/
theorem filter_group (P : List String) {pre : List Char} {gs : List String}
    (hmem : (pre, gs) ∈ groups) {l : List MetricListenerEntry}
    (h : ∀ e ∈ l, pre <+: e.name.toList) :
    l.filter (fun e => groupsEnabled P e.name) =
      if gs.all fun g => !isPrefixDisabled g P then l else [] :=
  PrefixTable.filter_of_class
    (fun e he => PrefixTable.classOf_of_mem groups_prefixFree hmem (h e he)) _

/-! ## The CPU reader -/

theorem parseLines_fst (parse : List String → List MetricListenerEntry × Option Exception)
    (status : Error) (message content : String) :
    (parseLines split parse status message content).1 =
      (getlines content).flatMap fun line => (parse (split line)).1 := by
  rw [parseLines, List.flatMap_map]

theorem parseLines_names {pre : List Char}
    {parse : List String → List MetricListenerEntry × Option Exception}
    (h : ∀ result, ∀ e ∈ (parse result).1, pre <+: e.name.toList) (status : Error)
    (message content : String) :
    ∀ e ∈ (parseLines split parse status message content).1, pre <+: e.name.toList := by
  intro e he
  rw [parseLines_fst] at he
  obtain ⟨line, -, he⟩ := List.mem_flatMap.mp he
  exact h _ e he

theorem block_fst (f : SeekableFile) (status : Error) (lines : Block) :
    (f.block status lines).1 = if f.readable then lines.1 else [] := by
  unfold SeekableFile.block
  split
  · rfl
  · split <;> rfl

theorem systemBlock_names (r : CPUDataReader) (input : Input) :
    ∀ e ∈ (r.systemBlock split lexicalCast input).1, "cpu.system.".toList <+: e.name.toList := by
  rw [CPUDataReader.systemBlock, block_fst]
  split
  · exact parseLines_names (statLine_names _) _ _ _
  · exact List.forall_mem_nil _

/-- A line of `/proc/meminfo`: the extended metrics take both flags. -/
theorem memInfoLine_filter (P : List String) (result : List String) :
    (memInfoLine lexicalCast true result).1.filter (fun e => groupsEnabled P e.name) =
      if isPrefixDisabled memCoreName P then []
      else (memInfoLine lexicalCast (!isPrefixDisabled memExtendedName P) result).1 := by
  unfold memInfoLine
  cases result[0]? with
  | none => simp
  | some entryName =>
    dsimp only
    by_cases hcore : procMemNames.contains entryName = true
    · have hmem : (memCoreNamePrefix.toList, [memCoreName]) ∈ groups := by simp [groups]
      simp only [hcore, Bool.or_true, if_true]
      rw [filter_group P hmem (addMemInfo_names (by decide) entryName result)]
      simp only [List.all_cons, List.all_nil, Bool.and_true]
      cases isPrefixDisabled memCoreName P <;> rfl
    · have hmem : (memExtendedNamePrefix.toList, [memCoreName, memExtendedName]) ∈ groups := by
        simp [groups]
      simp only [Bool.eq_false_iff.mpr hcore, Bool.or_false, if_true, Bool.false_eq_true, if_false]
      rw [filter_group P hmem (addMemInfo_names (by decide) entryName result)]
      simp only [List.all_cons, List.all_nil, Bool.and_true]
      cases isPrefixDisabled memCoreName P <;> cases isPrefixDisabled memExtendedName P <;> rfl

theorem memBlock_filter (P : List String) (r : CPUDataReader) (input : Input) :
    (({ r with memExtendedEnabled := true }).memBlock split lexicalCast input).1.filter
        (fun e => groupsEnabled P e.name) =
      if isPrefixDisabled memCoreName P then []
      else (({ r with memExtendedEnabled := !isPrefixDisabled memExtendedName P }).memBlock
        split lexicalCast input).1 := by
  simp only [CPUDataReader.memBlock, block_fst, parseLines_fst]
  split
  · rw [List.filter_flatMap]
    simp only [memInfoLine_filter]
    cases isPrefixDisabled memCoreName P <;> simp
  · simp

/-- A block behind one flag. -/
theorem filter_block (P : List String) {pre : List Char} {g : String} (hmem : (pre, [g]) ∈ groups)
    {b : Block} (h : ∀ e ∈ b.1, pre <+: e.name.toList) :
    (if !isPrefixDisabled g [] then b else ([], [])).1.filter (fun e => groupsEnabled P e.name) =
      (if !isPrefixDisabled g P then b else ([], [])).1 := by
  have hall : (if !isPrefixDisabled g [] then b else ([], [])).1 = b.1 := rfl
  rw [hall, filter_group P hmem h]
  simp only [List.all_cons, List.all_nil, Bool.and_true]
  cases isPrefixDisabled g P <;> rfl

theorem nCoresEntries_filter (P : List String) (r : CPUDataReader) (input : Input) :
    ((r.updateEntryPrefixes []).nCoresEntries input).filter (fun e => groupsEnabled P e.name) =
      (r.updateEntryPrefixes P).nCoresEntries input := by
  have hmem : ("cpu.ncores".toList, [cpuNCoresName]) ∈ groups := by simp [groups]
  rw [filter_group P hmem (nCoresEntries_names _ input)]
  simp only [List.all_cons, List.all_nil, Bool.and_true]
  unfold CPUDataReader.nCoresEntries CPUDataReader.updateEntryPrefixes
  cases isPrefixDisabled cpuNCoresName P <;> rfl

/-- What the reader records under the prefixes is what it records without any, but for the
groups that they disable. -/
theorem entries_updateEntryPrefixes (P : List String) (r : CPUDataReader) (input : Input) :
    (r.updateEntryPrefixes P).entries split lexicalCast input =
      ((r.updateEntryPrefixes []).entries split lexicalCast input).filter
        fun e => groupsEnabled P e.name := by
  simp only [CPUDataReader.entries, CPUDataReader.blocks, List.flatMap_cons, List.flatMap_nil,
    List.append_nil, List.filter_append, nCoresEntries_filter]
  refine congrArg₂ (· ++ ·) rfl (congrArg₂ (· ++ ·) ?process (congrArg₂ (· ++ ·) ?system ?mem))
  case process =>
    refine (filter_block P ?_ (processBlock_names input.rusage)).symm
    simp [groups]
  case system =>
    refine (filter_block P ?_ (systemBlock_names r input)).symm
    simp [groups]
  case mem =>
    refine Eq.trans ?_ (memBlock_filter P r input).symm
    unfold CPUDataReader.updateEntryPrefixes
    cases isPrefixDisabled memCoreName P <;> rfl

/-! ## The event-ring reader -/

theorem emitConstantMetrics_names (getenv : String → Option String) :
    ∀ e ∈ emitConstantMetrics events version getenv, "ocaml.".toList <+: e.name.toList := by
  intro e he
  rcases List.mem_append.mp he with he | he
  · rcases List.mem_append.mp he with he | he
    · cases List.mem_singleton.mp he
      simp [enabledName]
    · obtain ⟨value, -, rfl⟩ := List.mem_map.mp he
      simp [stringConstant, runParamName]
  · cases List.mem_singleton.mp he
    simp [stringConstant, versionParamName]

/-- Where the layer can be enabled, a disabled prefix keeps it off. -/
theorem enabled_updateEntryPrefixes (P : List String) (r : EventRingReader) (created : Bool) :
    (r.updateEntryPrefixes events P created).enabled =
      ((r.updateEntryPrefixes events [] created).enabled && !isPrefixDisabled eventRingName P) := by
  unfold EventRingReader.updateEntryPrefixes enableRuntimeEvents
  cases events with
  | disabled => rfl
  | enabled =>
    rw [show isPrefixDisabled eventRingName [] = false from rfl]
    cases r.enabled <;> cases isPrefixDisabled eventRingName P <;> simp

theorem constants_updateEntryPrefixes (P : List String) (r : EventRingReader) (created : Bool)
    (getenv : String → Option String) :
    constants events version (r.updateEntryPrefixes events P created) getenv =
      (constants events version (r.updateEntryPrefixes events [] created) getenv).filter
        fun e => groupsEnabled P e.name := by
  have hmem : ("ocaml.".toList, [eventRingName]) ∈ groups := by simp [groups]
  have hnames : ∀ e ∈ constants events version (r.updateEntryPrefixes events [] created) getenv,
      "ocaml.".toList <+: e.name.toList := by
    unfold constants
    split
    · exact emitConstantMetrics_names getenv
    · exact List.forall_mem_nil _
  rw [filter_group P hmem hnames]
  unfold constants
  rw [enabled_updateEntryPrefixes P]
  simp only [List.all_cons, List.all_nil, Bool.and_true]
  cases isPrefixDisabled eventRingName P with
  | false => simp [EventRingReader.updateEntryPrefixes]
  | true => simp

/-! ## Reads behind an update -/

theorem read_updateEntryPrefixes (P : List String) (x : Readers) (created : Bool) (a : Read) :
    ((x.updateEntryPrefixes events P created).read split lexicalCast events version a).2 =
      ((x.updateEntryPrefixes events [] created).read split lexicalCast events version a).2.filter
        fun e => groupsEnabled P e.name := by
  cases a with
  | cpudata input timestampInMs =>
    simp only [Readers.read, recorded_read]
    exact entries_updateEntryPrefixes P x.cpudata input
  | eventRing getenv => exact constants_updateEntryPrefixes P x.eventRing created getenv

/-- The readers are as an update with the prefixes leaves them. -/
def Installed (events : Events) (P : List String) (created : Bool) (x : Readers) : Prop :=
  x.updateEntryPrefixes events P created = x

theorem installed_eventRing (P : List String) (r : EventRingReader) (created : Bool) :
    (r.updateEntryPrefixes events P created).updateEntryPrefixes events P created =
      r.updateEntryPrefixes events P created := by
  unfold EventRingReader.updateEntryPrefixes enableRuntimeEvents
  cases events with
  | disabled => rfl
  | enabled => cases r.enabled <;> cases isPrefixDisabled eventRingName P <;> cases created <;> rfl

theorem installed_update (P : List String) (x : Readers) (created : Bool) :
    Installed events P created (x.updateEntryPrefixes events P created) :=
  congrArg (Readers.mk _) (installed_eventRing P x.eventRing created)

/-- Reads leave the flags alone. -/
theorem Installed.read {P : List String} {created : Bool} {x : Readers}
    (h : Installed events P created x) (a : Read) :
    Installed events P created (x.read split lexicalCast events version a).1 := by
  have hcpudata := congrArg Readers.cpudata h
  have hring := congrArg Readers.eventRing h
  cases a with
  | cpudata input timestampInMs =>
    refine congrArg₂ Readers.mk ?_ hring
    obtain ⟨r, hr⟩ : ∃ r : CPUDataReader, x.cpudata = r.updateEntryPrefixes P :=
      ⟨x.cpudata, hcpudata.symm⟩
    show (x.cpudata.read split lexicalCast input timestampInMs).1.updateEntryPrefixes P =
      (x.cpudata.read split lexicalCast input timestampInMs).1
    rw [hr]
    rfl
  | eventRing getenv =>
    refine congrArg₂ Readers.mk hcpudata ?_
    exact congrArg (fun r : EventRingReader => { r with
      hasEmittedConstantMetrics := x.eventRing.hasEmittedConstantMetrics || x.eventRing.enabled })
      hring

theorem Installed.reads {P : List String} {created : Bool} {x : Readers}
    (h : Installed events P created x) (as : List Read) :
    Installed events P created (x.reads split lexicalCast events version as) := by
  induction as generalizing x with
  | nil => exact h
  | cons a as ih => exact ih (h.read a)

/-- **A metric is recorded if and only if its groups are enabled**, in every read behind an
update and any reads since. -/
theorem recorded_iff_groupsEnabled (P : List String) (x : Readers) (created : Bool)
    (earlier : List Read) (a : Read) (e : MetricListenerEntry) :
    let y := (x.updateEntryPrefixes events P created).reads split lexicalCast events version earlier
    e ∈ (y.read split lexicalCast events version a).2 ↔
      e ∈ ((y.updateEntryPrefixes events [] created).read split lexicalCast events version a).2 ∧
        groupsEnabled P e.name = true := by
  intro y
  have hy : y.updateEntryPrefixes events P created = y :=
    (installed_update P x created).reads earlier
  have hread : (y.read split lexicalCast events version a).2 =
      ((y.updateEntryPrefixes events [] created).read split lexicalCast events version a).2.filter
        fun e => groupsEnabled P e.name := by
    conv_lhs => rw [← hy]
    exact read_updateEntryPrefixes P y created a
  rw [hread, List.mem_filter]

/-- A process that used 12 seconds, with files that hold one line each. -/
def busy : Input where
  nprocs := 8
  rusage := .ok ⟨⟨12, 0⟩, ⟨0, 0⟩, 2048, 0, 0, 0, 0, 0, 0⟩
  clockTicks := 100
  procStat := "ctxt 5\n"
  procMemInfo := "MemFree: 7 kB\n"

/-- The prefix is longer than the name of the group that the metric is in. -/
theorem longer_prefix_recorded :
    let split := fun line : String => (line.toList.splitOn ' ').map String.ofList
    let lexicalCast := fun s : String => (s.toInt?.map Int64.ofInt).elim
      (.error "bad lexical cast: source type value could not be interpreted as target") .ok
    let file : SeekableFile := ⟨true, false, ""⟩
    let y : Readers :=
      ⟨.new ["cpu.process.time"] file file, .new .disabled ["cpu.process.time"] true⟩
    ¬ ∀ e, e ∈ (y.read split lexicalCast .disabled "5.0.0" (.cpudata busy 0)).2 ↔
      e ∈ ((y.updateEntryPrefixes .disabled [] true).read split lexicalCast .disabled "5.0.0"
        (.cpudata busy 0)).2 ∧ isPrefixDisabled e.name ["cpu.process.time"] = false := by
  intro split lexicalCast file y h
  have hmem : addLongVar "cpu.process.time.user" .milliseconds 12000 ∈
      (y.read split lexicalCast .disabled "5.0.0" (.cpudata busy 0)).2 := by
    rw [Readers.read, recorded_read]
    have hon : y.cpudata.cpuProcessEnabled = true := by decide
    refine List.mem_flatMap.mpr ⟨processBlock busy.rusage, List.mem_cons_of_mem _ ?_,
      List.mem_cons_self⟩
    rw [if_pos hon]
    exact List.mem_cons_self
  have henabled := ((h _).mp hmem).2
  revert henabled
  decide

end Opsian.Metrics.Prefixes
