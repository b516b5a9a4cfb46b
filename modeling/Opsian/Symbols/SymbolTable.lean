import Opsian.Lib.Runs
import Opsian.Lib.Table

/-! # The symbol table

`lookup_locations` asks libbacktrace for the locations of an address and keeps
them. File and function names are numbered from one counter, and a new one is
announced through a callback. What libbacktrace and `dladdr` answer comes with
the call; addresses are cached, and `clear_symbols` forgets everything but the
counter. -/
namespace Opsian.Symbols.SymbolTable
open Opsian.Lib

structure Location where
  methodId : UInt64
  lineNumber : Int
  fileName : String
  functionName : String
  deriving DecidableEq, Repr

/-- What `dladdr` fills in. -/
structure DlInfo where
  sname : Option String
  fname : Option String
  deriving DecidableEq, Repr

/-- One call of `handlePcInfo`, with the answer of `dladdr` for its address. -/
structure PcInfo where
  btFileName : Option String
  lineNumber : Int
  btFunctionName : Option String
  dladdr : Option DlInfo
  deriving DecidableEq, Repr

/-- The callbacks of one lookup: the symbol names from `backtrace_syminfo` and
the locations from `backtrace_pcinfo`. -/
structure Answers where
  syminfo : List (Option String)
  pcinfo : List PcInfo
  deriving DecidableEq, Repr

structure State where
  nextId : UInt64
  knownAddrToLocations : Table UInt64 (List Location)
  knownMethodToIds : Table String UInt64
  knownFileToIds : Table String UInt64
  currentLocations : List Location
  currentSymbolName : String
  /-- The announcements since the last `clear_symbols`, newest first. -/
  files : List (UInt64 × String)
  functions : List (UInt64 × String × UInt64)
  /-- The locations the latest lookup has returned. -/
  returned : List Location
  /-- The function names met since the last `clear_symbols`, with their files, oldest first. -/
  resolved : List (String × String)

def init : State where
  nextId := 1
  knownAddrToLocations := ∅
  knownMethodToIds := ∅
  knownFileToIds := ∅
  currentLocations := []
  currentSymbolName := ""
  files := []
  functions := []
  returned := []
  resolved := []

/-! ## The callbacks -/

def recordFile (s : State) (fileName : String) : State × UInt64 :=
  match s.knownFileToIds.lookup fileName with
  | some id => (s, id)
  | none =>
    ({ s with
        nextId := s.nextId + 1
        knownFileToIds := s.knownFileToIds.insert fileName s.nextId
        files := (s.nextId, fileName) :: s.files }, s.nextId)

/-- The state, the file name and the file's id, as `handlePcInfo` builds them up. -/
structure Found where
  state : State
  fileName : String
  fileId : UInt64

def btFile (s : State) (info : PcInfo) : Found :=
  match info.btFileName with
  | some f => ⟨(recordFile s f).1, f, (recordFile s f).2⟩
  | none => ⟨s, "", 0⟩

/-- The binary's name, where there is no file name. -/
def dlFile (x : Found) (info : PcInfo) : Found :=
  if x.fileId = 0 then
    match info.dladdr.bind DlInfo.fname with
    | some f => ⟨(recordFile x.state f).1, f, (recordFile x.state f).2⟩
    | none => x
  else x

/-- The fallback to what `dladdr` knows of the function. -/
def dlFunctionName : Option DlInfo → String
  | none => ""
  | some dl =>
    match dl.sname, dl.fname with
    | some n, _ => n
    | none, some f => "In " ++ f
    | none, none => ""

/-- The first of the names that is not empty. -/
def functionName (currentSymbolName : String) (info : PcInfo) : String :=
  let name := info.btFunctionName.getD ""
  let name := if name = "" then currentSymbolName else name
  let name := if name = "" then dlFunctionName info.dladdr else name
  if name = "" then "Unknown" else name

def recordFunction (s : State) (name : String) (fileId : UInt64) : State × UInt64 :=
  match s.knownMethodToIds.lookup name with
  | some id => (s, id)
  | none =>
    ({ s with
        nextId := s.nextId + 1
        knownMethodToIds := s.knownMethodToIds.insert name s.nextId
        functions := (s.nextId, name, fileId) :: s.functions }, s.nextId)

def handlePcInfo (s : State) (info : PcInfo) : State :=
  let x := dlFile (btFile s info) info
  let name := functionName s.currentSymbolName info
  let (t, functionId) := recordFunction x.state name x.fileId
  { t with
    currentLocations := t.currentLocations ++ [⟨functionId, info.lineNumber, x.fileName, name⟩]
    resolved := t.resolved ++ [(name, x.fileName)] }

def dunePrefix : String := "camlDune__exe__"

/-- `substitute_option(name, "__", ".")`. -/
def substituteDots : List Char → List Char
  | '_' :: '_' :: cs => '.' :: substituteDots cs
  | c :: cs => c :: substituteDots cs
  | [] => []

def prettySymbol (name : String) : String :=
  if dunePrefix.toList.isPrefixOf name.toList then
    String.ofList (substituteDots (name.toList.drop dunePrefix.length))
  else name

def handleSyminfo (s : State) : Option String → State
  | none => s
  | some name => { s with currentSymbolName := prettySymbol name }

/-! ## The interface -/

def lookupLocations (s : State) (pc : UInt64) (isForeign : Bool) (answers : Answers) : State :=
  match s.knownAddrToLocations.lookup pc with
  | some locations => { s with returned := locations }
  | none =>
    let s := { s with currentLocations := [], currentSymbolName := "" }
    let s := if isForeign then s else answers.syminfo.foldl handleSyminfo s
    let s := answers.pcinfo.foldl handlePcInfo s
    { s with
      knownAddrToLocations := s.knownAddrToLocations.emplace pc s.currentLocations
      returned := s.currentLocations }

def clearSymbols (s : State) : State :=
  { s with
    knownAddrToLocations := ∅
    knownMethodToIds := ∅
    knownFileToIds := ∅
    files := []
    functions := []
    returned := []
    resolved := [] }

inductive Label where
  | lookup (pc : UInt64) (isForeign : Bool) (answers : Answers)
  | clear
  deriving DecidableEq, Repr

def step (s : State) : Label → Option State
  | .lookup pc isForeign answers => some (lookupLocations s pc isForeign answers)
  | .clear => some (clearSymbols s)

/-! ## The cache -/

section cache

variable {s t : State} {pc : UInt64} {ls : List Location}

theorem recordFile_known (s : State) (fileName : String) :
    (recordFile s fileName).1.knownAddrToLocations = s.knownAddrToLocations := by
  unfold recordFile
  split <;> rfl

theorem handlePcInfo_known (s : State) (info : PcInfo) :
    (handlePcInfo s info).knownAddrToLocations = s.knownAddrToLocations := by
  have hbt : (btFile s info).state.knownAddrToLocations = s.knownAddrToLocations := by
    unfold btFile
    split
    · exact recordFile_known s _
    · rfl
  have hdl (x : Found) :
      (dlFile x info).state.knownAddrToLocations = x.state.knownAddrToLocations := by
    unfold dlFile
    split
    · split
      · exact recordFile_known x.state _
      · rfl
    · rfl
  have hfunction (u : State) (name : String) (fileId : UInt64) :
      (recordFunction u name fileId).1.knownAddrToLocations = u.knownAddrToLocations := by
    unfold recordFunction
    split <;> rfl
  exact (hfunction _ _ _).trans ((hdl _).trans hbt)

theorem foldl_handlePcInfo_known (s : State) (infos : List PcInfo) :
    (infos.foldl handlePcInfo s).knownAddrToLocations = s.knownAddrToLocations := by
  induction infos generalizing s with
  | nil => rfl
  | cons info infos ih => exact (ih _).trans (handlePcInfo_known s info)

theorem foldl_handleSyminfo_known (s : State) (names : List (Option String)) :
    (names.foldl handleSyminfo s).knownAddrToLocations = s.knownAddrToLocations := by
  induction names generalizing s with
  | nil => rfl
  | cons name names ih =>
    refine (ih _).trans ?_
    cases name <;> rfl

/-- A lookup leaves what it has returned in the cache, and the rest as it was. -/
theorem lookupLocations_known (s : State) (pc : UInt64) (isForeign : Bool) (answers : Answers) :
    (lookupLocations s pc isForeign answers).knownAddrToLocations =
      s.knownAddrToLocations.emplace pc (lookupLocations s pc isForeign answers).returned := by
  unfold lookupLocations
  split
  · rename_i locations hls
    exact (Table.emplace_of_mem (Table.mem_of_lookup hls)).symm
  · refine congrArg (fun table : Table UInt64 (List Location) => table.emplace pc _) ?_
    rw [foldl_handlePcInfo_known]
    split
    · rfl
    · exact foldl_handleSyminfo_known _ _

theorem lookup_known (s : State) (pc : UInt64) (isForeign : Bool) (answers : Answers) :
    (lookupLocations s pc isForeign answers).knownAddrToLocations.lookup pc =
      some (lookupLocations s pc isForeign answers).returned := by
  cases h : s.knownAddrToLocations.lookup pc with
  | some locations => simp [lookupLocations, h]
  | none =>
    have hnew : pc ∉ s.knownAddrToLocations := fun hmem => by
      obtain ⟨ls, hls⟩ := Table.lookup_of_mem hmem
      rw [h] at hls
      cases hls
    rw [lookupLocations_known, Table.emplace_of_not_mem hnew, AList.lookup_insert]

theorem returned_of_known (h : s.knownAddrToLocations.lookup pc = some ls) (isForeign : Bool)
    (answers : Answers) : (lookupLocations s pc isForeign answers).returned = ls := by
  simp [lookupLocations, h]

/-- While nothing clears the symbols, an address keeps its first locations. -/
theorem known_of_run {labels : List Label} (h : s.knownAddrToLocations.lookup pc = some ls)
    (hno : .clear ∉ labels) (hr : Runs.run step s labels = some t) :
    t.knownAddrToLocations.lookup pc = some ls := by
  induction labels generalizing s with
  | nil =>
    cases hr
    exact h
  | cons a labels ih =>
    cases a with
    | clear => exact absurd List.mem_cons_self hno
    | lookup pc' isForeign answers =>
      refine ih ?_ (fun hmem => hno (List.mem_cons_of_mem _ hmem)) hr
      by_cases hpc : pc = pc'
      · subst hpc
        rw [lookup_known, returned_of_known h]
      · rw [lookupLocations_known, Table.lookup_emplace_ne hpc, h]

theorem returned_again {labels : List Label} (isForeign isForeign' : Bool)
    (answers answers' : Answers) (hno : .clear ∉ labels)
    (hr : Runs.run step (lookupLocations s pc isForeign answers) labels = some t) :
    (lookupLocations t pc isForeign' answers').returned =
      (lookupLocations s pc isForeign answers).returned :=
  returned_of_known (known_of_run (lookup_known s pc isForeign answers) hno hr) isForeign' answers'

end cache

/-! ## What a collector makes of a location -/

/-- The file name behind an id; 0 stands for none. -/
def fileOf (files : List (UInt64 × String)) (fileId : UInt64) : Option String :=
  if fileId = 0 then some "" else files.lookup fileId

/-- Function and file, by the announcements a collector has kept. -/
def decode (s : State) (location : Location) : Option (String × String) :=
  (s.functions.lookup location.methodId).bind fun f =>
    (fileOf s.files f.2).map fun file => (f.1, file)

end Opsian.Symbols.SymbolTable
