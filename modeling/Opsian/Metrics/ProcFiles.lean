import Mathlib.Algebra.Ring.Nat
import Opsian.Lib.TextFormat
import Opsian.Lib.Words
import Opsian.Metrics.CpuReader

/-! # The files under /proc

The kernel prints a line of words: in `/proc/stat` a key with its numbers, in `/proc/meminfo` a
name with a number, and with a unit where there is one. The numbers are set off by as many
blanks as it takes to align them. -/
namespace Opsian.Metrics.ProcFiles
open Opsian.Lib Opsian.Lib.Words Opsian.Metrics.Listener Opsian.Metrics.CpuReader

/-! ## What the kernel prints -/

/-- A number and the blanks before it, less one. -/
structure Number where
  gap : Nat
  value : Nat
  deriving DecidableEq, Repr

def Number.word (n : Number) : Nat × List Char := (n.gap, (toString n.value).toList)

structure StatLine where
  key : String
  numbers : List Number
  deriving DecidableEq, Repr

structure MemLine where
  name : String
  number : Number
  inKilobytes : Bool
  deriving DecidableEq, Repr

def StatLine.print (l : StatLine) : String :=
  String.ofList (line ' ' l.key.toList (l.numbers.map Number.word))

def MemLine.print (l : MemLine) : String :=
  String.ofList (line ' ' (l.name.toList ++ [':'])
    (l.number.word :: if l.inKilobytes then [(0, "kB".toList)] else []))

def printFile (lines : List String) : String :=
  String.ofList (unlines '\n' (lines.map String.toList))

/-- The number is an `int64_t`. -/
def Number.Fits (n : Number) : Prop := n.value < 2 ^ 63

structure StatLine.WellFormed (l : StatLine) : Prop where
  key : ' ' ∉ l.key.toList ∧ '\n' ∉ l.key.toList
  numbers : ∀ n ∈ l.numbers, n.Fits

structure MemLine.WellFormed (l : MemLine) : Prop where
  name : ' ' ∉ l.name.toList ∧ '\n' ∉ l.name.toList ∧ '\x00' ∉ l.name.toList
  number : l.number.Fits

/-! ## What is to be recorded of it -/

def cpuNames : List String :=
  ["cpu.system.user", "cpu.system.nice", "cpu.system.system", "cpu.system.idle",
    "cpu.system.iowait", "cpu.system.irq", "cpu.system.softirq", "cpu.system.steal",
    "cpu.system.guest", "cpu.system.guest_nice"]

def metric (name : String) (unit : MetricUnit) (value : Int64) : MetricListenerEntry :=
  ⟨name, .variable, unit, ⟨.long, "", value⟩⟩

/-- One metric for each number that has a name; an old kernel prints fewer. -/
def named (names : List String) (unit : MetricUnit) (convert : Int64 → Int64)
    (numbers : List Number) : List MetricListenerEntry :=
  List.zipWith (fun name n => metric name unit (convert (Int64.ofNat n.value))) names numbers

def StatLine.entries (ticks : Int64) (l : StatLine) : List MetricListenerEntry :=
  if l.key = "cpu" then named cpuNames .milliseconds (· * 1000 / ticks) l.numbers
  else if l.key = "page" then
    named ["cpu.system.pages.in", "cpu.system.pages.out"] .events id l.numbers
  else if l.key = "swap" then
    named ["cpu.system.swap.in", "cpu.system.swap.out"] .events id l.numbers
  else if l.key = "ctxt" then named ["cpu.system.csw"] .events id l.numbers
  else if l.key = "procs_running" then named ["cpu.system.procs.running"] .none id l.numbers
  else if l.key = "procs_blocked" then named ["cpu.system.procs.blocked"] .none id l.numbers
  else []

def MemLine.isCoreMetric (l : MemLine) : Bool := procMemNames.contains (l.name ++ ":")

def MemLine.entry (l : MemLine) : MetricListenerEntry :=
  metric ((if l.isCoreMetric then memCoreNamePrefix else memExtendedNamePrefix) ++ l.name)
    (if l.inKilobytes then .bytes else .none)
    (if l.inKilobytes then Int64.ofNat l.number.value * kiloToBytes
      else Int64.ofNat l.number.value)

def MemLine.entries (memExtendedEnabled : Bool) (l : MemLine) : List MetricListenerEntry :=
  if memExtendedEnabled || l.isCoreMetric then [l.entry] else []

/-! ## Splitting and casting -/

/-- `boost::split` at the blanks of a line, with `token_compress_on`. -/
def Splits (split : String → List String) : Prop :=
  ∀ w rest, Spaced ' ' w rest →
    split (String.ofList (line ' ' w rest)) =
      String.ofList w :: rest.map fun p => String.ofList p.2

/-- `boost::lexical_cast<int64_t>` of the digits of a number. -/
def Casts (lexicalCast : String → Except String Int64) : Prop :=
  ∀ n : Nat, n < 2 ^ 63 → lexicalCast (toString n) = .ok (Int64.ofNat n)

variable {split : String → List String} {lexicalCast : String → Except String Int64}
  {ticks : Int64}

theorem not_mem_digits (n : Nat) {c : Char} (hc : c.isDigit = false) :
    c ∉ (toString n).toList := by
  intro hmem
  have hdigits : (toString n).toList = Nat.toDigits 10 n := by simp
  rw [hdigits] at hmem
  have hdigit := Nat.isDigit_of_mem_toDigits (by decide) (by decide) hmem
  rw [hc] at hdigit
  cases hdigit

theorem Number.word_spaced (n : Number) : n.word.2 ≠ [] ∧ ' ' ∉ n.word.2 :=
  ⟨by simp [Number.word, Nat.toDigits_ne_nil], not_mem_digits n.value rfl⟩

theorem Number.ofList_word (n : Number) : String.ofList n.word.2 = toString n.value :=
  String.ofList_toList

/-- A line of `/proc/stat` is split into its key and its numbers. -/
theorem StatLine.split_print (hsplit : Splits split) {l : StatLine} (h : l.WellFormed) :
    split l.print = l.key :: l.numbers.map fun n => toString n.value := by
  have hspaced : Spaced ' ' l.key.toList (l.numbers.map Number.word) := by
    refine ⟨h.key.1, fun p hp => ?_⟩
    obtain ⟨n, -, rfl⟩ := List.mem_map.mp hp
    exact n.word_spaced
  rw [StatLine.print, hsplit _ _ hspaced, String.ofList_toList, List.map_map]
  exact congrArg _ (List.map_congr_left fun n _ => n.ofList_word)

/-- A line of `/proc/meminfo` is split into its name, its number and its unit. -/
theorem MemLine.split_print (hsplit : Splits split) {l : MemLine} (h : l.WellFormed) :
    split l.print =
      (l.name ++ ":") :: toString l.number.value :: if l.inKilobytes then ["kB"] else [] := by
  have hspaced : Spaced ' ' (l.name.toList ++ [':'])
      (l.number.word :: if l.inKilobytes then [(0, "kB".toList)] else []) := by
    refine ⟨?_, List.forall_mem_cons.mpr ⟨l.number.word_spaced, fun p hp => ?_⟩⟩
    · intro hmem
      rcases List.mem_append.mp hmem with hmem | hmem
      · exact h.name.1 hmem
      · cases List.mem_singleton.mp hmem
    · split at hp
      · cases List.mem_singleton.mp hp
        exact ⟨by decide, by decide⟩
      · cases hp
  have hname : String.ofList (l.name.toList ++ [':']) = l.name ++ ":" := by
    rw [String.ofList_append, String.ofList_toList]
  rw [MemLine.print, hsplit _ _ hspaced, hname, List.map_cons, l.number.ofList_word]
  cases l.inKilobytes with
  | true => simp
  | false => simp

theorem addLongVar_eq_metric {name : String} (h : '\x00' ∉ name.toList) (unit : MetricUnit)
    (value : Int64) : addLongVar name unit value = metric name unit value := by
  have hkept : name.toList.takeWhile (· ≠ '\x00') = name.toList := by
    have hall : ∀ c ∈ name.toList, decide (c ≠ '\x00') = true := fun c hc =>
      decide_eq_true fun heq => h (heq ▸ hc)
    rw [← List.append_nil name.toList, List.takeWhile_append_of_pos hall, List.takeWhile_nil]
  have hname : cString name = name := by rw [cString, hkept, String.ofList_toList]
  rw [addLongVar, addLongEntry, hname, metric]

/-! ## A line of `/proc/stat` -/

/-- No bad cast. -/
def Silent (x : List MetricListenerEntry × Option Exception) : Prop :=
  ∀ what, x.2 ≠ some (.badLexicalCast what)

theorem silent_of_none {x : List MetricListenerEntry × Option Exception} (h : x.2 = none) :
    Silent x := by
  intro what heq
  rw [h] at heq
  cases heq

/-- The additions of one branch: the `i`th piece under the first name, and so on. -/
def additions (unit : MetricUnit) (value : Nat → Except Exception Int64) :
    Nat → List String → List Addition
  | _, [] => []
  | i, name :: names => ⟨name, unit, value i⟩ :: additions unit value (i + 1) names

/-- The number at a place, or what `at` throws. -/
def numberAt (convert : Int64 → Int64) (numbers : List Number) (k : Nat) :
    Except Exception Int64 :=
  (numbers[k]?).elim (.error .outOfRange) fun n => .ok (convert (Int64.ofNat n.value))

theorem addAll_additions {unit : MetricUnit} {value : Nat → Except Exception Int64}
    {convert : Int64 → Int64} (names : List String)
    (hnames : ∀ name ∈ names, '\x00' ∉ name.toList) {numbers : List Number} {i : Nat}
    (h : ∀ k, value (i + k) = numberAt convert numbers k) :
    (addAll (additions unit value i names)).1 = named names unit convert numbers ∧
      Silent (addAll (additions unit value i names)) := by
  induction names generalizing numbers i with
  | nil => exact ⟨rfl, silent_of_none rfl⟩
  | cons name names ih =>
    obtain ⟨hname, hnames⟩ := List.forall_mem_cons.mp hnames
    have hfirst : value i = numberAt convert numbers 0 := h 0
    rw [additions, addAll, hfirst]
    cases numbers with
    | nil =>
      refine ⟨rfl, fun what heq => ?_⟩
      cases heq
    | cons n numbers =>
      have hrest : ∀ k, value (i + 1 + k) = numberAt convert numbers k := by
        intro k
        have hk := h (k + 1)
        rwa [← Nat.add_assoc, Nat.add_right_comm] at hk
      obtain ⟨hentries, hsilent⟩ := ih hnames hrest
      exact ⟨congrArg₂ List.cons (addLongVar_eq_metric hname unit _) hentries, hsilent⟩

theorem int64At_numbers (hcast : Casts lexicalCast) (key : String) {numbers : List Number}
    (h : ∀ n ∈ numbers, n.Fits) (k : Nat) :
    int64At lexicalCast (key :: numbers.map fun n => toString n.value) (1 + k) =
      numberAt id numbers k := by
  rw [Nat.add_comm, int64At, List.getElem?_cons_succ, List.getElem?_map, numberAt]
  cases hn : numbers[k]? with
  | none => rfl
  | some n =>
    have hfits := h n (List.mem_of_getElem? hn)
    simp only [Option.map_some, hcast n.value hfits]
    rfl

theorem ticksAt_numbers (hcast : Casts lexicalCast) (key : String) {numbers : List Number}
    (h : ∀ n ∈ numbers, n.Fits) (k : Nat) :
    ticksAt lexicalCast ticks (key :: numbers.map fun n => toString n.value) (1 + k) =
      numberAt (· * 1000 / ticks) numbers k := by
  rw [ticksAt, int64At_numbers hcast key h, numberAt, numberAt]
  cases numbers[k]? <;> rfl

theorem statLine_print (hcast : Casts lexicalCast) {l : StatLine} (h : l.WellFormed) :
    (statLine lexicalCast ticks (l.key :: l.numbers.map fun n => toString n.value)).1 =
        l.entries ticks ∧
      Silent (statLine lexicalCast ticks (l.key :: l.numbers.map fun n => toString n.value)) := by
  have hticks : ∀ k, ticksAt lexicalCast ticks
      (l.key :: l.numbers.map fun n => toString n.value) (1 + k) =
        numberAt (· * 1000 / ticks) l.numbers k := ticksAt_numbers hcast l.key h.numbers
  have hint := int64At_numbers hcast l.key h.numbers
  unfold statLine StatLine.entries statAdditions
  simp only [List.getElem?_cons_zero]
  by_cases hcpu : l.key = "cpu"
  · rw [if_pos hcpu, if_pos hcpu]
    exact addAll_additions cpuNames (by decide) hticks
  rw [if_neg hcpu, if_neg hcpu]
  by_cases hpage : l.key = "page"
  · rw [if_pos hpage, if_pos hpage]
    exact addAll_additions ["cpu.system.pages.in", "cpu.system.pages.out"] (by decide) hint
  rw [if_neg hpage, if_neg hpage]
  by_cases hswap : l.key = "swap"
  · rw [if_pos hswap, if_pos hswap]
    exact addAll_additions ["cpu.system.swap.in", "cpu.system.swap.out"] (by decide) hint
  rw [if_neg hswap, if_neg hswap]
  by_cases hctxt : l.key = "ctxt"
  · rw [if_pos hctxt, if_pos hctxt]
    exact addAll_additions ["cpu.system.csw"] (by decide) hint
  rw [if_neg hctxt, if_neg hctxt]
  by_cases hrunning : l.key = "procs_running"
  · rw [if_pos hrunning, if_pos hrunning]
    exact addAll_additions ["cpu.system.procs.running"] (by decide) hint
  rw [if_neg hrunning, if_neg hrunning]
  by_cases hblocked : l.key = "procs_blocked"
  · rw [if_pos hblocked, if_pos hblocked]
    exact addAll_additions ["cpu.system.procs.blocked"] (by decide) hint
  rw [if_neg hblocked, if_neg hblocked]
  exact ⟨rfl, silent_of_none rfl⟩

/-! ## A line of `/proc/meminfo` -/

/-- The unit tells by its being there. -/
theorem addMemInfo_print (hcast : Casts lexicalCast) (namePrefix : String) {l : MemLine}
    (h : l.WellFormed) :
    addMemInfo lexicalCast namePrefix (l.name ++ ":")
        ((l.name ++ ":") :: toString l.number.value :: if l.inKilobytes then ["kB"] else []) =
      ([addLongVar (namePrefix ++ l.name) (if l.inKilobytes then .bytes else .none)
        (if l.inKilobytes then Int64.ofNat l.number.value * kiloToBytes
          else Int64.ofNat l.number.value)], none) := by
  have hne : l.name ++ ":" ≠ "" := by simp
  have hname : String.ofList (l.name ++ ":").toList.dropLast = l.name := by
    rw [String.toList_append, show ":".toList = [':'] from rfl, List.dropLast_concat,
      String.ofList_toList]
  have hvalue : lexicalCast (toString l.number.value) = .ok (Int64.ofNat l.number.value) :=
    hcast l.number.value h.number
  unfold addMemInfo
  rw [if_neg hne, hname]
  generalize toString l.number.value = digits at hvalue ⊢
  cases l.inKilobytes with
  | true => simp [addAll, kbAt, int64At, hvalue, Except.mapError, Except.map]
  | false => simp [addAll, int64At, hvalue, Except.mapError]

theorem memInfoLine_print (hcast : Casts lexicalCast) (memExtendedEnabled : Bool) {l : MemLine}
    (h : l.WellFormed) :
    memInfoLine lexicalCast memExtendedEnabled
        ((l.name ++ ":") :: toString l.number.value :: if l.inKilobytes then ["kB"] else []) =
      (l.entries memExtendedEnabled, none) := by
  unfold memInfoLine MemLine.entries
  simp only [List.getElem?_cons_zero]
  rw [← MemLine.isCoreMetric]
  by_cases henabled : (memExtendedEnabled || l.isCoreMetric) = true
  · have hname : '\x00' ∉
        ((if l.isCoreMetric then memCoreNamePrefix else memExtendedNamePrefix) ++
          l.name).toList := by
      rw [String.toList_append, List.mem_append]
      refine not_or.mpr ⟨?_, h.name.2.2⟩
      split
      · decide
      · decide
    rw [if_pos henabled, if_pos henabled, addMemInfo_print hcast _ h,
      addLongVar_eq_metric hname, MemLine.entry]
  · rw [if_neg henabled, if_neg henabled]

/-! ## A file -/

theorem getlines_printFile {lines : List String} (h : ∀ l ∈ lines, '\n' ∉ l.toList) :
    getlines (printFile lines) = lines := by
  have hsplit : (printFile lines).toList.splitOn '\n' = lines.map String.toList ++ [[]] := by
    rw [printFile, String.toList_ofList, splitOn_unlines]
    intro l hl
    obtain ⟨s, hs, rfl⟩ := List.mem_map.mp hl
    exact h s hs
  unfold getlines
  simp only [hsplit, List.getLast?_concat, if_true, List.dropLast_concat, List.map_map]
  refine (List.map_congr_left fun s _ => ?_).trans (List.map_id lines)
  exact String.ofList_toList

/-- A file whose lines are parsed without a bad cast. -/
theorem parseLines_printFile {A : Type}
    {parse : List String → List MetricListenerEntry × Option Exception} {print : A → String}
    {entries : A → List MetricListenerEntry} {ls : List A}
    (hlines : ∀ l ∈ ls, '\n' ∉ (print l).toList)
    (hparse : ∀ l ∈ ls, (parse (split (print l))).1 = entries l ∧ Silent (parse (split (print l))))
    (status : Error) (message : String) :
    parseLines split parse status message (printFile (ls.map print)) =
      (ls.flatMap entries, []) := by
  have hlines' : ∀ l ∈ ls.map print, '\n' ∉ l.toList := by
    intro l hl
    obtain ⟨a, ha, rfl⟩ := List.mem_map.mp hl
    exact hlines a ha
  unfold parseLines
  rw [getlines_printFile hlines', List.map_map]
  refine Prod.ext ?_ ?_
  · simp only [List.flatMap_map]
    exact List.flatMap_congr fun l hl => (hparse l hl).1
  · rw [List.filterMap_eq_nil_iff]
    intro x hx
    obtain ⟨l, hl, rfl⟩ := List.mem_map.mp hx
    have hsilent := (hparse l hl).2
    split
    · next what heq => exact absurd heq (hsilent what)
    · rfl

theorem Number.not_mem_word (n : Number) : '\n' ∉ n.word.2 := not_mem_digits n.value rfl

theorem StatLine.newline_not_mem {l : StatLine} (h : l.WellFormed) : '\n' ∉ l.print.toList := by
  rw [StatLine.print, String.toList_ofList]
  refine not_mem_line (by decide) h.key.2 fun p hp => ?_
  obtain ⟨n, -, rfl⟩ := List.mem_map.mp hp
  exact n.not_mem_word

theorem MemLine.newline_not_mem {l : MemLine} (h : l.WellFormed) : '\n' ∉ l.print.toList := by
  rw [MemLine.print, String.toList_ofList]
  refine not_mem_line (by decide) ?_ (List.forall_mem_cons.mpr ⟨l.number.not_mem_word, ?_⟩)
  · simp [h.name.2.1]
  · intro p hp
    split at hp
    · cases List.mem_singleton.mp hp
      decide
    · cases hp

/-! ## A read -/

/-- What the files hold, as the kernel has printed it. -/
structure Printed (input : Input) (stat : List StatLine) (mem : List MemLine) : Prop where
  procStat : input.procStat = printFile (stat.map StatLine.print)
  statLines : ∀ l ∈ stat, l.WellFormed
  procMemInfo : input.procMemInfo = printFile (mem.map MemLine.print)
  memLines : ∀ l ∈ mem, l.WellFormed

variable {r : CPUDataReader} {input : Input} {stat : List StatLine} {mem : List MemLine}

theorem systemBlock_printed (hsplit : Splits split) (hcast : Casts lexicalCast)
    (hr : r.procStat.readable = true) (h : Printed input stat mem) :
    r.systemBlock split lexicalCast input =
      (stat.flatMap (StatLine.entries (r.ticks input)), []) := by
  rw [CPUDataReader.systemBlock, SeekableFile.block, if_pos hr, h.procStat]
  refine parseLines_printFile (fun l hl => StatLine.newline_not_mem (h.statLines l hl)) ?_ _ _
  intro l hl
  rw [StatLine.split_print hsplit (h.statLines l hl)]
  exact statLine_print hcast (h.statLines l hl)

theorem memBlock_printed (hsplit : Splits split) (hcast : Casts lexicalCast)
    (hr : r.procMemInfo.readable = true) (h : Printed input stat mem) :
    r.memBlock split lexicalCast input =
      (mem.flatMap (MemLine.entries r.memExtendedEnabled), []) := by
  rw [CPUDataReader.memBlock, SeekableFile.block, if_pos hr, h.procMemInfo]
  refine parseLines_printFile (fun l hl => MemLine.newline_not_mem (h.memLines l hl)) ?_ _ _
  intro l hl
  rw [MemLine.split_print hsplit (h.memLines l hl),
    memInfoLine_print hcast r.memExtendedEnabled (h.memLines l hl)]
  exact ⟨rfl, silent_of_none rfl⟩

/-- What a read is to record: the groups that are enabled, in the order of the files. -/
def expected (r : CPUDataReader) (input : Input) (usage : RUsage) (stat : List StatLine)
    (mem : List MemLine) : List MetricListenerEntry :=
  r.nCoresEntries input ++ (if r.cpuProcessEnabled then processEntries usage else []) ++
    (if r.cpuSystemEnabled then stat.flatMap (StatLine.entries (r.ticks input)) else []) ++
    if r.memCoreEnabled then mem.flatMap (MemLine.entries r.memExtendedEnabled) else []

/-- **What the kernel prints is recorded, and nothing else**: a read of files that can be opened
records each number that has a metric under its name and in its unit, reports no error, and
leaves none to be reported. -/
theorem printed_read_back (hsplit : Splits split) (hcast : Casts lexicalCast)
    (hstat : r.procStat.readable = true) (hmem : r.procMemInfo.readable = true)
    {usage : RUsage} (husage : input.rusage = .ok usage) (h : Printed input stat mem)
    (timestampInMs : Int64) :
    (r.read split lexicalCast input timestampInMs).2 =
        (if expected r input usage stat mem = [] then []
          else [.recordEntries (expected r input usage stat mem) timestampInMs]) ∧
      (r.read split lexicalCast input timestampInMs).1.sentErrors = r.sentErrors := by
  have hblocks : r.blocks split lexicalCast input =
      [(r.nCoresEntries input, []),
        (if r.cpuProcessEnabled then processEntries usage else [], []),
        (if r.cpuSystemEnabled then stat.flatMap (StatLine.entries (r.ticks input)) else [], []),
        (if r.memCoreEnabled then mem.flatMap (MemLine.entries r.memExtendedEnabled) else [],
          [])] := by
    rw [CPUDataReader.blocks, systemBlock_printed hsplit hcast hstat h,
      memBlock_printed hsplit hcast hmem h, husage]
    cases r.cpuProcessEnabled <;> cases r.cpuSystemEnabled <;> cases r.memCoreEnabled <;> rfl
  have hentries : r.entries split lexicalCast input = expected r input usage stat mem := by
    rw [CPUDataReader.entries, hblocks]
    simp [expected]
  have herrors : (r.blocks split lexicalCast input).flatMap Prod.snd = [] := by
    rw [hblocks]
    rfl
  unfold CPUDataReader.read
  simp only [hentries, herrors]
  exact ⟨rfl, rfl⟩

def splitAtBlanks (s : String) : List String := (words ' ' s.toList).map String.ofList

theorem splits_splitAtBlanks : Splits splitAtBlanks := by
  intro w rest h
  rw [splitAtBlanks, String.toList_ofList, words_line h, List.map_cons, List.map_map]
  rfl

def castDigits (s : String) : Except String Int64 :=
  match TextFormat.readNat s.toList with
  | some n =>
    if n < 2 ^ 63 then .ok (Int64.ofNat n)
    else .error "bad lexical cast: source type value could not be interpreted as target"
  | none => .error "bad lexical cast: source type value could not be interpreted as target"

theorem casts_castDigits : Casts castDigits := by
  intro n hn
  have hdigits : (toString n).toList = Nat.toDigits 10 n := by simp
  rw [castDigits, hdigits, TextFormat.readNat_toDigits]
  exact if_pos hn

def bootedUsage : RUsage := ⟨⟨1, 250000⟩, ⟨0, 40000⟩, 20480, 900, 3, 0, 8, 12, 5⟩

def bootedStat : List StatLine :=
  [⟨"cpu", [⟨1, 3357⟩, ⟨0, 0⟩, ⟨0, 4313⟩, ⟨0, 1362393⟩]⟩, ⟨"intr", [⟨0, 8⟩, ⟨0, 0⟩]⟩,
    ⟨"ctxt", [⟨0, 1990473⟩]⟩]

def bootedMem : List MemLine :=
  [⟨"MemTotal", ⟨6, 16384⟩, true⟩, ⟨"HugePages_Total", ⟨7, 0⟩, false⟩]

def booted : Input where
  nprocs := 4
  rusage := .ok bootedUsage
  clockTicks := 100
  procStat := printFile (bootedStat.map StatLine.print)
  procMemInfo := printFile (bootedMem.map MemLine.print)

theorem booted_printed : Printed booted bootedStat bootedMem where
  procStat := rfl
  statLines := by
    simp only [bootedStat, List.forall_mem_cons]
    refine ⟨⟨by decide, ?_⟩, ⟨by decide, ?_⟩, ⟨by decide, ?_⟩, List.forall_mem_nil _⟩
    all_goals simp [Number.Fits]
  procMemInfo := rfl
  memLines := by
    simp only [bootedMem, List.forall_mem_cons]
    exact ⟨⟨by decide, by simp [Number.Fits]⟩, ⟨by decide, by simp [Number.Fits]⟩,
      List.forall_mem_nil _⟩

/-- An old kernel's four columns, and a metric of `/proc/meminfo` in each of the two groups. -/
theorem booted_read_back :
    ((CPUDataReader.new [] ⟨true, false, ""⟩ ⟨true, false, ""⟩).read splitAtBlanks castDigits
        booted 7).2 =
      (if expected (.new [] ⟨true, false, ""⟩ ⟨true, false, ""⟩) booted bootedUsage bootedStat
          bootedMem = [] then []
        else [.recordEntries (expected (.new [] ⟨true, false, ""⟩ ⟨true, false, ""⟩) booted
          bootedUsage bootedStat bootedMem) 7]) ∧
    ((CPUDataReader.new [] ⟨true, false, ""⟩ ⟨true, false, ""⟩).read splitAtBlanks castDigits
        booted 7).1.sentErrors = [] :=
  printed_read_back splits_splitAtBlanks casts_castDigits rfl rfl rfl booted_printed 7

end Opsian.Metrics.ProcFiles
