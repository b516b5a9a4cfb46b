import Mathlib.Algebra.Ring.Nat
import Opsian.Lib.Assoc
import Opsian.Symbols.SymbolTable

/-! # What the announced tables give back

The announcement of a function carries the file of the place where its name was
met first, and the table of functions knows names only. So a location decodes to
its own function always, and to its own file exactly as long as no name is met
with two files before the tables are cleared. -/
namespace Opsian.Symbols.Decode
open Opsian.Lib Opsian.Lib.Runs Opsian.Symbols.SymbolTable

/-- Every location of the latest lookup decodes to its own names. -/
def Decodes (s : State) : Prop :=
  ∀ l ∈ s.returned, decode s l = some (l.functionName, l.fileName)

/-! ## What a callback resolves to -/

def fileName (info : PcInfo) : String :=
  (info.btFileName <|> info.dladdr.bind DlInfo.fname).getD ""

/-- The function and the file of one call of `handlePcInfo`. -/
def resolve (currentSymbolName : String) (info : PcInfo) : String × String :=
  (functionName currentSymbolName info, fileName info)

/-- The symbol name `backtrace_syminfo` leaves for the locations. -/
def symbolName (isForeign : Bool) (answers : Answers) : String :=
  if isForeign then ""
  else answers.syminfo.foldl (fun current name => (name.map prettySymbol).getD current) ""

def resolveAll (isForeign : Bool) (answers : Answers) : List (String × String) :=
  answers.pcinfo.map (resolve (symbolName isForeign answers))

/-- No function name has been met with two files since the tables were cleared,
this lookup included. -/
def OneFile (s : State) : Label → Prop
  | .lookup pc isForeign answers => pc ∉ s.knownAddrToLocations →
      Assoc.Functional (s.resolved ++ resolveAll isForeign answers)
  | .clear => True

/-- The 64-bit counter has an id for every file and function of the lookup. -/
def Room (s : State) : Label → Prop
  | .lookup _ _ answers => s.nextId.toNat + 2 * answers.pcinfo.length < 2 ^ 64
  | .clear => True

/-! ## The invariant -/

/-- The location's function is in the table, and its names have been met together. -/
structure Interned (s : State) (l : Location) : Prop where
  method : s.knownMethodToIds.lookup l.functionName = some l.methodId
  resolved : (l.functionName, l.fileName) ∈ s.resolved

/-- Ids are fresh and never 0, what has an id is announced, and the announcement
of a function has the file it was met with first. -/
structure Tables (s : State) : Prop where
  next : 1 ≤ s.nextId.toNat
  files_lt : ∀ e ∈ s.files, e.1.toNat < s.nextId.toNat
  functions_lt : ∀ e ∈ s.functions, e.1.toNat < s.nextId.toNat
  file : ∀ name id, s.knownFileToIds.lookup name = some id → id ≠ 0 ∧ s.files.lookup id = some name
  method : ∀ name id, s.knownMethodToIds.lookup name = some id →
    ∃ fileId file, s.functions.lookup id = some (name, fileId) ∧
      fileOf s.files fileId = some file ∧ s.resolved.lookup name = some file
  met : ∀ name file, s.resolved.lookup name = some file → name ∈ s.knownMethodToIds

/-- The tables, and the locations the caches hold. -/
structure Inv (s : State) : Prop extends Tables s where
  cached : ∀ pc ls, s.knownAddrToLocations.lookup pc = some ls → ∀ l ∈ ls, Interned s l
  returned : ∀ l ∈ s.returned, Interned s l

variable {s t : State}

/-- An interned location decodes to its function and to the first file of that name. -/
theorem Tables.decode (h : Tables s) {l : Location} (hl : Interned s l) :
    decode s l = (s.resolved.lookup l.functionName).map fun file => (l.functionName, file) := by
  obtain ⟨fileId, file, hfun, hfile, hfirst⟩ := h.method _ _ hl.method
  simp only [SymbolTable.decode, hfun, hfirst, Option.bind_some, hfile, Option.map_some]

theorem Tables.decode_iff (h : Tables s) {l : Location} (hl : Interned s l) :
    SymbolTable.decode s l = some (l.functionName, l.fileName) ↔
      s.resolved.lookup l.functionName = some l.fileName := by
  rw [h.decode hl]
  constructor
  · intro he
    obtain ⟨file, hfile, heq⟩ := Option.map_eq_some_iff.mp he
    rw [hfile, (Prod.mk.inj heq).2]
  · intro he
    rw [he]; rfl

/-! ## Recording a file -/

theorem toNat_succ {n : UInt64} (h : n.toNat + 1 < 2 ^ 64) : (n + 1).toNat = n.toNat + 1 := by
  rw [UInt64.toNat_add]
  exact Nat.mod_eq_of_lt h

theorem ne_of_toNat_lt {a b : UInt64} (h : a.toNat < b.toNat) : a ≠ b := by
  rintro rfl
  exact Nat.lt_irrefl _ h

theorem lookup_lt {α : Type} {l : List (UInt64 × α)} {n id : UInt64} {v : α}
    (hl : ∀ e ∈ l, e.1.toNat < n.toNat) (h : l.lookup id = some v) : id.toNat < n.toNat :=
  hl (id, v) (Assoc.mem_of_lookup h)

/-- A new announcement does not change what the old ones say. -/
theorem fileOf_cons {files : List (UInt64 × String)} {n id : UInt64} {name file : String}
    (hl : ∀ e ∈ files, e.1.toNat < n.toNat) (h : fileOf files id = some file) :
    fileOf ((n, name) :: files) id = some file := by
  unfold fileOf at h ⊢
  split at h
  · rename_i hz
    rw [if_pos hz]; exact h
  · rename_i hz
    rw [if_neg hz, Assoc.lookup_cons_ne (ne_of_toNat_lt (lookup_lt hl h))]
    exact h

/-- What stays when a file is recorded. -/
structure SameFunctions (s t : State) : Prop where
  methods : t.knownMethodToIds = s.knownMethodToIds
  functions : t.functions = s.functions
  resolved : t.resolved = s.resolved
  cache : t.knownAddrToLocations = s.knownAddrToLocations
  current : t.currentLocations = s.currentLocations
  symbol : t.currentSymbolName = s.currentSymbolName
  returned : t.returned = s.returned

theorem SameFunctions.refl (s : State) : SameFunctions s s := ⟨rfl, rfl, rfl, rfl, rfl, rfl, rfl⟩

/-- A file's id, old or new, is announced with its name. -/
theorem recordFile_spec (h : Tables s) (name : String) (hroom : s.nextId.toNat + 1 < 2 ^ 64) :
    Tables (recordFile s name).1 ∧ SameFunctions s (recordFile s name).1 ∧
      (recordFile s name).1.nextId.toNat ≤ s.nextId.toNat + 1 ∧ (recordFile s name).2 ≠ 0 ∧
      fileOf (recordFile s name).1.files (recordFile s name).2 = some name := by
  unfold recordFile
  split
  · rename_i id hid
    obtain ⟨hne, hfile⟩ := h.file name id hid
    exact ⟨h, .refl s, Nat.le_succ _, hne, by rw [fileOf, if_neg hne]; exact hfile⟩
  · rename_i hnone
    have hnext := toNat_succ hroom
    have hne : s.nextId ≠ 0 := fun hz => by
      have := h.next
      rw [hz] at this; exact absurd this (by decide)
    refine ⟨?_, ⟨rfl, rfl, rfl, rfl, rfl, rfl, rfl⟩, Nat.le_of_eq hnext, hne, ?_⟩
    · constructor
      · simp only [hnext]; omega
      · intro e he
        simp only [hnext]
        rcases List.mem_cons.mp he with rfl | he
        · exact Nat.lt_succ_self _
        · exact Nat.lt_succ_of_lt (h.files_lt e he)
      · intro e he
        simp only [hnext]
        exact Nat.lt_succ_of_lt (h.functions_lt e he)
      · intro name' id' hid'
        rcases Table.lookup_insert_cases hid' with ⟨rfl, rfl⟩ | ⟨-, hold⟩
        · exact ⟨hne, List.lookup_cons_self⟩
        · obtain ⟨hne', hfile'⟩ := h.file name' id' hold
          refine ⟨hne', ?_⟩
          rw [Assoc.lookup_cons_ne (ne_of_toNat_lt (lookup_lt h.files_lt hfile'))]
          exact hfile'
      · intro name' id' hid'
        obtain ⟨fileId, file, hfun, hfile, hfirst⟩ := h.method name' id' hid'
        exact ⟨fileId, file, hfun, fileOf_cons h.files_lt hfile, hfirst⟩
      · exact h.met
    · rw [fileOf, if_neg hne]; exact List.lookup_cons_self

/-- The file name and its id, after both fallbacks. -/
theorem found_spec (h : Tables s) (info : PcInfo) (hroom : s.nextId.toNat + 1 < 2 ^ 64) :
    let x := dlFile (btFile s info) info
    Tables x.state ∧ SameFunctions s x.state ∧ x.state.nextId.toNat ≤ s.nextId.toNat + 1 ∧
      fileOf x.state.files x.fileId = some x.fileName ∧ x.fileName = fileName info := by
  cases hbt : info.btFileName with
  | some f =>
    obtain ⟨htab, hsame, hnext, hne, hfile⟩ := recordFile_spec h f hroom
    simp only [btFile, dlFile, hbt, hne, if_false]
    exact ⟨htab, hsame, hnext, hfile, by rw [fileName, hbt]; rfl⟩
  | none =>
    cases hdl : info.dladdr.bind DlInfo.fname with
    | some f =>
      obtain ⟨htab, hsame, hnext, -, hfile⟩ := recordFile_spec h f hroom
      simp only [btFile, dlFile, hbt, hdl, if_true]
      exact ⟨htab, hsame, hnext, hfile, by rw [fileName, hbt, hdl]; rfl⟩
    | none =>
      simp only [btFile, dlFile, hbt, hdl, if_true]
      exact ⟨h, .refl s, Nat.le_succ _, rfl, by rw [fileName, hbt, hdl]; rfl⟩

/-! ## Recording a location -/

/-- What one callback adds: old table entries stay, and one pair of names is met. -/
structure Grows (s t : State) (rs : List (String × String)) : Prop where
  methods : ∀ name id, s.knownMethodToIds.lookup name = some id →
    t.knownMethodToIds.lookup name = some id
  resolved : t.resolved = s.resolved ++ rs
  cache : t.knownAddrToLocations = s.knownAddrToLocations
  symbol : t.currentSymbolName = s.currentSymbolName
  returned : t.returned = s.returned

theorem Grows.interned {rs : List (String × String)} (h : Grows s t rs) {l : Location}
    (hl : Interned s l) : Interned t l :=
  ⟨h.methods _ _ hl.method, by rw [h.resolved]; exact List.mem_append_left _ hl.resolved⟩

theorem Grows.trans {u : State} {rs rs' : List (String × String)} (h : Grows s t rs)
    (h' : Grows t u rs') : Grows s u (rs ++ rs') where
  methods name id hid := h'.methods name id (h.methods name id hid)
  resolved := by rw [h'.resolved, h.resolved, List.append_assoc]
  cache := h'.cache.trans h.cache
  symbol := h'.symbol.trans h.symbol
  returned := h'.returned.trans h.returned

/-- A function's id, old or new: a new name is announced with the file at hand,
and met with it from then on. -/
theorem recordFunction_spec (h : Tables s) (name file : String) {fileId : UInt64}
    (hfile : fileOf s.files fileId = some file) (hroom : s.nextId.toNat + 1 < 2 ^ 64) :
    let r := recordFunction s name fileId
    let t := { r.1 with resolved := r.1.resolved ++ [(name, file)] }
    Tables t ∧ Grows s t [(name, file)] ∧ t.nextId.toNat ≤ s.nextId.toNat + 1 ∧
      t.currentLocations = s.currentLocations ∧ t.knownMethodToIds.lookup name = some r.2 := by
  cases hid : s.knownMethodToIds.lookup name with
  | some id =>
    simp only [recordFunction, hid]
    refine ⟨⟨h.next, h.files_lt, h.functions_lt, h.file, ?_, ?_⟩,
      ⟨fun _ _ he => he, rfl, rfl, rfl, rfl⟩, Nat.le_succ _, trivial, trivial⟩
    · intro name' id' hid'
      obtain ⟨fileId', file', hfun, hfile', hfirst⟩ := h.method name' id' hid'
      exact ⟨fileId', file', hfun, hfile', Assoc.lookup_append_of_some hfirst⟩
    · intro name' file' hmet
      rcases Assoc.lookup_concat_cases hmet with hmet | ⟨rfl, -⟩
      · exact h.met name' file' hmet
      · exact Table.mem_of_lookup hid
  | none =>
    have hnext := toNat_succ hroom
    have hnew : s.resolved.lookup name = none := by
      cases hl : s.resolved.lookup name with
      | none => rfl
      | some file' => exact absurd (h.met name file' hl) (AList.lookup_eq_none.mp hid)
    simp only [recordFunction, hid]
    refine ⟨⟨?_, ?_, ?_, h.file, ?_, ?_⟩, ⟨?_, rfl, rfl, rfl, rfl⟩, Nat.le_of_eq hnext, trivial,
      AList.lookup_insert _⟩
    · simp only [hnext]; omega
    · intro e he
      simp only [hnext]
      exact Nat.lt_succ_of_lt (h.files_lt e he)
    · intro e he
      simp only [hnext]
      rcases List.mem_cons.mp he with rfl | he
      · exact Nat.lt_succ_self _
      · exact Nat.lt_succ_of_lt (h.functions_lt e he)
    · intro name' id' hid'
      rcases Table.lookup_insert_cases hid' with ⟨rfl, rfl⟩ | ⟨-, hold⟩
      · exact ⟨fileId, file, List.lookup_cons_self, hfile, Assoc.lookup_concat_of_none hnew⟩
      · obtain ⟨fileId', file', hfun, hfile', hfirst⟩ := h.method name' id' hold
        refine ⟨fileId', file', ?_, hfile', Assoc.lookup_append_of_some hfirst⟩
        rw [Assoc.lookup_cons_ne (ne_of_toNat_lt (lookup_lt h.functions_lt hfun))]
        exact hfun
    · intro name' file' hmet
      rw [AList.mem_insert]
      rcases Assoc.lookup_concat_cases hmet with hmet | ⟨rfl, -⟩
      · exact .inr (h.met name' file' hmet)
      · exact .inl rfl
    · intro name' id' hid'
      have hne : name' ≠ name := fun he => by rw [he, hid] at hid'; cases hid'
      exact (AList.lookup_insert_ne hne).trans hid'

/-- The names of the locations, as they were met. -/
def names (ls : List Location) : List (String × String) :=
  ls.map fun l => (l.functionName, l.fileName)

/-- One callback: the pair it resolves to is met, and its location is interned. -/
theorem handlePcInfo_spec (h : Tables s) (info : PcInfo) (hroom : s.nextId.toNat + 2 < 2 ^ 64)
    (hcurrent : ∀ l ∈ s.currentLocations, Interned s l) :
    let t := handlePcInfo s info
    let r := resolve s.currentSymbolName info
    Tables t ∧ Grows s t [r] ∧ t.nextId.toNat ≤ s.nextId.toNat + 2 ∧
      (∀ l ∈ t.currentLocations, Interned t l) ∧
      names t.currentLocations = names s.currentLocations ++ [r] := by
  obtain ⟨htab, hsame, hnext, hfile, hname⟩ := found_spec h info (by omega)
  obtain ⟨htab', hgrows, hnext', hcur, hid⟩ := recordFunction_spec htab
    (functionName s.currentSymbolName info) _ hfile (by omega)
  have hresolve : resolve s.currentSymbolName info =
      (functionName s.currentSymbolName info, (dlFile (btFile s info) info).fileName) := by
    rw [resolve, hname]
  have hall : Grows s (handlePcInfo s info) [resolve s.currentSymbolName info] := by
    rw [hresolve]
    exact ⟨fun name id he => hgrows.methods name id (hsame.methods ▸ he),
      hgrows.resolved.trans (by rw [hsame.resolved]), hgrows.cache.trans hsame.cache,
      hgrows.symbol.trans hsame.symbol, hgrows.returned.trans hsame.returned⟩
  have hlocs : (handlePcInfo s info).currentLocations = s.currentLocations ++ [_] :=
    congrArg (· ++ [_]) (hcur.trans hsame.current)
  refine ⟨⟨htab'.next, htab'.files_lt, htab'.functions_lt, htab'.file, htab'.method, htab'.met⟩,
    hall, Nat.le_trans hnext' (by omega), fun l hl => ?_, ?_⟩
  · rw [hlocs] at hl
    rcases List.mem_append.mp hl with hl | hl
    · exact hall.interned (hcurrent l hl)
    · rw [List.mem_singleton.mp hl]
      refine ⟨hid, ?_⟩
      rw [hall.resolved, hresolve]
      exact List.mem_append_right _ (List.mem_singleton_self _)
  · rw [hlocs, names, List.map_append, hresolve]
    rfl

/-- All callbacks of a lookup. -/
theorem foldl_handlePcInfo_spec (h : Tables s) (infos : List PcInfo)
    (hroom : s.nextId.toNat + 2 * infos.length < 2 ^ 64)
    (hcurrent : ∀ l ∈ s.currentLocations, Interned s l) :
    let t := infos.foldl handlePcInfo s
    let rs := infos.map (resolve s.currentSymbolName)
    Tables t ∧ Grows s t rs ∧ (∀ l ∈ t.currentLocations, Interned t l) ∧
      names t.currentLocations = names s.currentLocations ++ rs := by
  induction infos generalizing s with
  | nil =>
    refine ⟨h, ⟨fun _ _ he => he, (List.append_nil _).symm, rfl, rfl, rfl⟩, hcurrent, ?_⟩
    exact (List.append_nil _).symm
  | cons info infos ih =>
    rw [List.length_cons] at hroom
    obtain ⟨htab, hgrows, hnext, hint, hnames⟩ := handlePcInfo_spec h info (by omega) hcurrent
    obtain ⟨htab', hgrows', hint', hnames'⟩ := ih htab (by omega) hint
    rw [hgrows.symbol] at hgrows' hnames'
    refine ⟨htab', hgrows.trans hgrows', hint', ?_⟩
    rw [List.foldl_cons, hnames', hnames, List.append_assoc, List.map_cons, List.singleton_append]

/-! ## A lookup -/

theorem foldl_handleSyminfo (s : State) (answers : List (Option String)) :
    answers.foldl handleSyminfo s = { s with
      currentSymbolName := answers.foldl (fun current name => (name.map prettySymbol).getD current)
        s.currentSymbolName } := by
  induction answers generalizing s with
  | nil => rfl
  | cons name answers ih =>
    rw [List.foldl_cons, ih]
    cases name <;> rfl

/-- The state in which the callbacks of an address start. -/
theorem symbolName_spec (s : State) (isForeign : Bool) (answers : Answers) :
    (if isForeign then { s with currentLocations := [], currentSymbolName := "" }
      else answers.syminfo.foldl handleSyminfo
        { s with currentLocations := [], currentSymbolName := "" }) =
      { s with
        currentLocations := []
        currentSymbolName := symbolName isForeign answers } := by
  cases isForeign with
  | true => rfl
  | false => exact foldl_handleSyminfo _ _

/-- A new address: what it resolves to is met, returned and kept. -/
theorem lookup_new_spec (h : Inv s) {pc : UInt64} (isForeign : Bool) (answers : Answers)
    (hnew : pc ∉ s.knownAddrToLocations)
    (hroom : s.nextId.toNat + 2 * answers.pcinfo.length < 2 ^ 64) :
    let t := lookupLocations s pc isForeign answers
    Inv t ∧ t.resolved = s.resolved ++ resolveAll isForeign answers ∧
      names t.returned = resolveAll isForeign answers := by
  have hstart : Tables { s with
      currentLocations := []
      currentSymbolName := symbolName isForeign answers } :=
    ⟨h.next, h.files_lt, h.functions_lt, h.file, h.method, h.met⟩
  obtain ⟨htab, hgrows, hint, hnames⟩ :=
    foldl_handlePcInfo_spec hstart answers.pcinfo hroom (by intro l hl; cases hl)
  have hlookup := AList.lookup_eq_none.mpr hnew
  simp only [lookupLocations, hlookup, symbolName_spec]
  refine ⟨⟨⟨htab.next, htab.files_lt, htab.functions_lt, htab.file, htab.method, htab.met⟩, ?_, ?_⟩,
    hgrows.resolved, hnames⟩
  · intro pc' ls hls l hl
    rw [Table.emplace_of_not_mem (by rw [hgrows.cache]; exact hnew)] at hls
    rcases Table.lookup_insert_cases hls with ⟨-, rfl⟩ | ⟨-, hold⟩
    · exact ⟨(hint l hl).method, (hint l hl).resolved⟩
    · rw [hgrows.cache] at hold
      have hl' := h.cached pc' ls hold l hl
      have hgrown := hgrows.interned (l := l) ⟨hl'.method, hl'.resolved⟩
      exact ⟨hgrown.method, hgrown.resolved⟩
  · intro l hl
    exact ⟨(hint l hl).method, (hint l hl).resolved⟩

theorem lookup_known_inv (h : Inv s) {pc : UInt64} {ls : List Location}
    (hls : s.knownAddrToLocations.lookup pc = some ls) : Inv { s with returned := ls } where
  toTables := ⟨h.next, h.files_lt, h.functions_lt, h.file, h.method, h.met⟩
  cached pc' ls' hls' l hl :=
    ⟨(h.cached pc' ls' hls' l hl).method, (h.cached pc' ls' hls' l hl).resolved⟩
  returned l hl := ⟨(h.cached pc ls hls l hl).method, (h.cached pc ls hls l hl).resolved⟩

theorem clearSymbols_inv (h : Inv s) : Inv (clearSymbols s) where
  next := h.next
  files_lt := by intro e he; cases he
  functions_lt := by intro e he; cases he
  file := by intro name id hid; cases hid
  method := by intro name id hid; cases hid
  met := by intro name file hmet; cases hmet
  cached := by intro pc ls hls; cases hls
  returned := by intro l hl; cases hl

theorem init_inv : Inv init where
  next := Nat.le_refl _
  files_lt := by intro e he; cases he
  functions_lt := by intro e he; cases he
  file := by intro name id hid; cases hid
  method := by intro name id hid; cases hid
  met := by intro name file hmet; cases hmet
  cached := by intro pc ls hls; cases hls
  returned := by intro l hl; cases hl

/-! ## Runs -/

theorem Inv.next_state {a : Label} (h : Inv s) (hfun : Assoc.Functional s.resolved)
    (hroom : Room s a) (hok : OneFile s a) (hs : step s a = some t) :
    Inv t ∧ Assoc.Functional t.resolved := by
  cases a with
  | clear => cases hs; exact ⟨clearSymbols_inv h, Assoc.functional_nil⟩
  | lookup pc isForeign answers =>
    cases hs
    by_cases hpc : pc ∈ s.knownAddrToLocations
    · obtain ⟨ls, hls⟩ := Table.lookup_of_mem hpc
      simp only [lookupLocations, hls]
      exact ⟨lookup_known_inv h hls, hfun⟩
    · obtain ⟨hinv, hresolved, -⟩ := lookup_new_spec h isForeign answers hpc hroom
      exact ⟨hinv, hresolved ▸ hok hpc⟩

theorem Inv.decodes (h : Inv s) (hfun : Assoc.Functional s.resolved) : Decodes s := by
  intro l hl
  have hint := h.returned l hl
  exact (h.decode_iff hint).mpr (Assoc.functional_iff_lookup.mp hfun _ hint.resolved)

/-- A name that is met with another file decodes to the first one. -/
theorem Inv.oneFile {a : Label} (h : Inv s) (hfun : Assoc.Functional s.resolved)
    (hroom : Room s a) (hs : step s a = some t) (ht : Decodes t) : OneFile s a := by
  cases a with
  | clear => trivial
  | lookup pc isForeign answers =>
    intro hpc
    cases hs
    obtain ⟨hinv, hresolved, hnames⟩ := lookup_new_spec h isForeign answers hpc hroom
    refine (Assoc.functional_append_iff hfun).mpr fun p hp => ?_
    rw [← hnames] at hp
    obtain ⟨l, hl, rfl⟩ := List.mem_map.mp hp
    rw [← hresolved]
    exact (hinv.decode_iff (hinv.returned l hl)).mp (ht l hl)

/-- **Locations decode to what was looked up**, in every state of a run that does
not use up the ids, if and only if no function name is met with two file names
between two clears. -/
theorem decodes_iff_oneFile (labels : List Label) (hroom : Steps step Room init labels) :
    Along step Decodes init labels ↔ Steps step OneFile init labels :=
  along_iff_steps_of (I := fun s => Inv s ∧ Assoc.Functional s.resolved)
    (fun _ _ _ h hr hok hs => h.1.next_state h.2 hr hok hs) (fun _ h => h.1.decodes h.2)
    (fun _ _ _ h hr _ hs ht => h.1.oneFile h.2 hr hs ht)
    ⟨init_inv, Assoc.functional_nil⟩ hroom

/-- Two static functions of one name, in two files. -/
def helperIn (file : String) : Answers := ⟨[], [⟨some file, 12, some "helper", none⟩]⟩

/-- A clear between the two lets both decode. -/
theorem cleared_helpers_decode :
    Along step Decodes init [.lookup 0x1000 true (helperIn "a.c"), .clear,
      .lookup 0x2000 true (helperIn "b.c")] := by
  refine (decodes_iff_oneFile _ ?_).mpr ?_
  · exact .cons rfl (by unfold Room; decide)
      (.cons rfl trivial (.cons rfl (by unfold Room; decide) trivial))
  · exact .cons rfl (fun _ => Assoc.functional_iff_lookup.mpr (by decide))
      (.cons rfl trivial (.cons rfl (fun _ => Assoc.functional_iff_lookup.mpr (by decide)) trivial))

/-- The second `helper` decodes to the first one's file. -/
theorem second_helper_misattributed :
    ¬ Along step Decodes init
      [.lookup 0x1000 true (helperIn "a.c"), .lookup 0x2000 true (helperIn "b.c")] := by
  refine not_along_of_run (List.prefix_refl _) rfl fun h => ?_
  have hdecode := h ⟨2, 12, "b.c", "helper"⟩ (by decide)
  exact absurd hdecode (by decide)

end Opsian.Symbols.Decode
