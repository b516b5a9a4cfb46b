import Mathlib.Data.List.DropRight
import Opsian.Lib.History
import Opsian.Symbols.Decode

/-! # What is announced, and when

The names of files and of functions are numbered from one counter, which a clear does
not reset. A name is announced where it is used first, and an id by the callback that
made it. -/
namespace Opsian.Symbols.Discipline
open Opsian.Lib Opsian.Lib.Runs Opsian.Lib.History Opsian.Symbols.SymbolTable

/-- What has an id. -/
inductive Name where
  | file (fileName : String)
  | function (functionName : String)
  deriving DecidableEq, Repr

/-- What is seen of the symbol table. -/
inductive Event where
  /-- `recordFile`, or its like in `handlePcInfo`, finds the id of a name, or makes one
  and calls back with it. A function is announced with the id of a file. -/
  | used (name : Name) (id fileId : UInt64) (announced : Bool)
  /-- `lookup_locations` returns. -/
  | returned (locations : List Location)
  | cleared
  deriving DecidableEq, Repr

/-! ## The events of a call -/

def fileEvent (s : State) (fileName : String) : Event :=
  .used (.file fileName) (recordFile s fileName).2 0
    (decide (s.knownFileToIds.lookup fileName = none))

def functionEvent (s : State) (name : String) (fileId : UInt64) : Event :=
  .used (.function name) (recordFunction s name fileId).2 fileId
    (decide (s.knownMethodToIds.lookup name = none))

def btEvents (s : State) (info : PcInfo) : List Event :=
  match info.btFileName with
  | some f => [fileEvent s f]
  | none => []

def dlEvents (x : Found) (info : PcInfo) : List Event :=
  if x.fileId = 0 then
    match info.dladdr.bind DlInfo.fname with
    | some f => [fileEvent x.state f]
    | none => []
  else []

/-- The events of one call of `handlePcInfo`, in its order. -/
def pcInfoEvents (s : State) (info : PcInfo) : List Event :=
  let bt := btFile s info
  let x := dlFile bt info
  btEvents s info ++ dlEvents bt info ++
    [functionEvent x.state (functionName s.currentSymbolName info) x.fileId]

def pcInfosEvents (s : State) : List PcInfo → List Event
  | [] => []
  | info :: infos => pcInfoEvents s info ++ pcInfosEvents (handlePcInfo s info) infos

/-- The symbol table when `backtrace_pcinfo` is called. -/
def beginLookup (s : State) (isForeign : Bool) (answers : Answers) : State :=
  let s := { s with currentLocations := [], currentSymbolName := "" }
  if isForeign then s else answers.syminfo.foldl handleSyminfo s

def lookupEvents (s : State) (pc : UInt64) (isForeign : Bool) (answers : Answers) : List Event :=
  (match s.knownAddrToLocations.lookup pc with
    | some _ => []
    | none => pcInfosEvents (beginLookup s isForeign answers) answers.pcinfo) ++
  [.returned (lookupLocations s pc isForeign answers).returned]

def eventsOf (s : State) : Label → List Event
  | .lookup pc isForeign answers => lookupEvents s pc isForeign answers
  | .clear => [.cleared]

/-- The whole history, oldest first. -/
def note (h : List Event) (s : State) (a : Label) (_ : State) : List Event := h ++ eventsOf s a

/-! ## The discipline -/

/-- The events since the latest clear. -/
def recent (h : List Event) : List Event := h.rtakeWhile (· != .cleared)

def announcedId : Event → Option UInt64
  | .used _ id _ true => some id
  | _ => none

/-- The ids announced so far, of files and of functions. -/
def announcedIds (h : List Event) : List UInt64 := h.filterMap announcedId

/-- The name was met since the latest clear. -/
def Met (h : List Event) (name : Name) : Prop :=
  ∃ id fileId announced, .used name id fileId announced ∈ recent h

/-- The id was announced since the latest clear, for this name. -/
def AnnouncedAs (h : List Event) (name : Name) (id : UInt64) : Prop :=
  ∃ fileId, .used name id fileId true ∈ recent h

/-- An event in the light of what came before it. -/
def Proper (past : List Event) : Event → Prop
  | .used name id fileId announced =>
    (announced = true ↔ ¬ Met past name) ∧
    (announced = true → id ∉ announcedIds past ∧
      (fileId ≠ 0 → ∃ fileName, AnnouncedAs past (.file fileName) fileId))
  | .returned locations =>
    ∀ l ∈ locations, ∃ functionName, AnnouncedAs past (.function functionName) l.methodId
  | .cleared => True

def Disciplined (h : List Event) : Prop :=
  ∀ past e later, h = past ++ e :: later → Proper past e

/-! ## Histories -/

variable {s t u : State} {h : List Event} {name : Name} {id fileId : UInt64} {e : Event}

theorem Disciplined.concat (hd : Disciplined h) (he : Proper h e) : Disciplined (h ++ [e]) := by
  intro past e' later heq
  rcases List.eq_nil_or_concat later with rfl | ⟨later, e'', rfl⟩
  · obtain ⟨rfl, rfl⟩ := List.append_singleton_inj.mp heq
    exact he
  · have hinit : h ++ [e] = (past ++ e' :: later) ++ [e''] := by simpa using heq
    exact hd past e' later (List.append_singleton_inj.mp hinit).1

theorem recent_concat (he : e ≠ .cleared) (h : List Event) : recent (h ++ [e]) = recent h ++ [e] :=
  List.rtakeWhile_concat_pos _ _ _ (bne_iff_ne.mpr he)

theorem recent_cleared (h : List Event) : recent (h ++ [.cleared]) = [] :=
  List.rtakeWhile_concat_neg _ _ _ (by simp)

theorem AnnouncedAs.concat (ha : AnnouncedAs h name id) (he : e ≠ .cleared) :
    AnnouncedAs (h ++ [e]) name id := by
  obtain ⟨fileId, hmem⟩ := ha
  refine ⟨fileId, ?_⟩
  rw [recent_concat he]
  exact List.mem_append_left _ hmem

theorem announcedIds_append (h h' : List Event) :
    announcedIds (h ++ h') = announcedIds h ++ announcedIds h' :=
  List.filterMap_append

theorem room_of_append {h' : List Event}
    (hroom : (announcedIds (h ++ h')).length < 2 ^ 64) : (announcedIds h).length < 2 ^ 64 := by
  rw [announcedIds_append, List.length_append] at hroom
  omega

/-! ## The maps -/

/-- The id of a name, in whichever map it belongs to. -/
def known (s : State) : Name → Option UInt64
  | .file fileName => s.knownFileToIds.lookup fileName
  | .function functionName => s.knownMethodToIds.lookup functionName

def Interned (s : State) (l : Location) : Prop :=
  known s (.function l.functionName) = some l.methodId

/-- The maps hold what was announced since the latest clear, and every id is one that the
counter has passed. -/
structure Kept (s : State) (h : List Event) : Prop where
  disciplined : Disciplined h
  next : s.nextId = UInt64.ofNat ((announcedIds h).length + 1)
  passed : ∀ id ∈ announcedIds h, id.toNat ≤ (announcedIds h).length
  met : ∀ name id fileId announced, .used name id fileId announced ∈ recent h →
    known s name = some id
  announced : ∀ name id, known s name = some id → AnnouncedAs h name id
  cached : ∀ pc ls, s.knownAddrToLocations.lookup pc = some ls → ∀ l ∈ ls, Interned s l

theorem Kept.congr (hk : Kept s h) (hnext : t.nextId = s.nextId) (hknown : known t = known s)
    (hcache : t.knownAddrToLocations = s.knownAddrToLocations) : Kept t h where
  disciplined := hk.disciplined
  next := hnext.trans hk.next
  passed := hk.passed
  met := hknown ▸ hk.met
  announced := hknown ▸ hk.announced
  cached := by
    unfold Interned
    rw [hknown, hcache]
    exact hk.cached

/-- A name has its id, or is given the next one. -/
inductive Records (s : State) (name : Name) : State → UInt64 → Prop where
  | old {id : UInt64} (hid : known s name = some id) : Records s name s id
  | new {t : State} (hnone : known s name = none)
      (hknown : known t = Function.update (known s) name (some s.nextId))
      (hnext : t.nextId = s.nextId + 1)
      (hcache : t.knownAddrToLocations = s.knownAddrToLocations)
      (hcurrent : t.currentLocations = s.currentLocations) : Records s name t s.nextId

/-- What only adds to the maps. -/
structure Grows (s t : State) : Prop where
  known : ∀ name id, known s name = some id → Discipline.known t name = some id
  cache : t.knownAddrToLocations = s.knownAddrToLocations
  current : ∀ l ∈ t.currentLocations, l ∈ s.currentLocations ∨ Interned t l

theorem Grows.refl (s : State) : Grows s s := ⟨fun _ _ h => h, rfl, fun _ h => .inl h⟩

theorem Grows.trans (hst : Grows s t) (htu : Grows t u) : Grows s u where
  known name id hid := htu.known name id (hst.known name id hid)
  cache := htu.cache.trans hst.cache
  current l hl := by
    rcases htu.current l hl with hl | hl
    · exact (hst.current l hl).imp_right (htu.known _ _)
    · exact .inr hl

theorem Records.grows (hr : Records s name t id) : Grows s t := by
  cases hr with
  | old hid => exact .refl s
  | new hnone hknown hnext hcache hcurrent =>
    refine ⟨fun name' id' hid => ?_, hcache, fun l hl => .inl (hcurrent ▸ hl)⟩
    have hne : name' ≠ name := by
      rintro rfl
      rw [hnone] at hid
      cases hid
    rw [hknown, Function.update_of_ne hne]
    exact hid

theorem Records.known (hr : Records s name t id) : Discipline.known t name = some id := by
  cases hr with
  | old hid => exact hid
  | new hnone hknown => rw [hknown, Function.update_self]

theorem recent_used (h : List Event) (name : Name) (id fileId : UInt64) (announced : Bool) :
    recent (h ++ [.used name id fileId announced]) = recent h ++ [.used name id fileId announced] :=
  recent_concat (by simp) h

theorem length_announced (h : List Event) (name : Name) (id fileId : UInt64) :
    (announcedIds (h ++ [.used name id fileId true])).length = (announcedIds h).length + 1 := by
  rw [announcedIds_append, List.length_append]
  rfl

/-- The name has its id: it is used silently. -/
theorem Kept.used_known (hk : Kept s h) (hid : known s name = some id) :
    Kept s (h ++ [.used name id fileId false]) := by
  have hmet : Met h name := by
    obtain ⟨fileId', hmem⟩ := hk.announced name id hid
    exact ⟨id, fileId', true, hmem⟩
  have hids : announcedIds (h ++ [.used name id fileId false]) = announcedIds h := by
    rw [announcedIds_append]
    exact List.append_nil _
  refine ⟨hk.disciplined.concat ⟨by simpa using hmet, nofun⟩, by rw [hids]; exact hk.next,
    by rw [hids]; exact hk.passed, ?_, fun name' id' hid' =>
      (hk.announced name' id' hid').concat (by simp), hk.cached⟩
  intro name' id' fileId' announced hmem
  rw [recent_used] at hmem
  rcases List.mem_append.mp hmem with hold | hnew
  · exact hk.met name' id' fileId' announced hold
  · obtain ⟨rfl, rfl, -, -⟩ := Event.used.inj (List.mem_singleton.mp hnew)
    exact hid

theorem Kept.unmet (hk : Kept s h) (hnone : known s name = none) : ¬ Met h name := by
  rintro ⟨id, fileId, announced, hmem⟩
  have hid := hk.met name id fileId announced hmem
  rw [hnone] at hid
  cases hid

/-- The counter is ahead of every id, as long as it does not wrap. -/
theorem Kept.nextId (hk : Kept s h) (hroom : (announcedIds h).length + 1 < 2 ^ 64) :
    s.nextId.toNat = (announcedIds h).length + 1 := by
  rw [hk.next, UInt64.toNat_ofNat']
  exact Nat.mod_eq_of_lt hroom

theorem Kept.fresh (hk : Kept s h) (hroom : (announcedIds h).length + 1 < 2 ^ 64) :
    s.nextId ∉ announcedIds h := by
  intro hmem
  have hle := hk.passed _ hmem
  have hnext := hk.nextId hroom
  omega

/-- The name is given the next id, which is announced. -/
theorem Kept.used_new (hk : Kept s h) (hr : Records s name t s.nextId)
    (hnone : known s name = none)
    (hknown : known t = Function.update (known s) name (some s.nextId))
    (hnext : t.nextId = s.nextId + 1)
    (hfile : fileId ≠ 0 → ∃ fileName, AnnouncedAs h (.file fileName) fileId)
    (hroom : (announcedIds h).length + 1 < 2 ^ 64) :
    Kept t (h ++ [.used name s.nextId fileId true]) := by
  have hids : announcedIds (h ++ [.used name s.nextId fileId true]) =
      announcedIds h ++ [s.nextId] := announcedIds_append _ _
  have hlength := length_announced h name s.nextId fileId
  refine ⟨hk.disciplined.concat ⟨by simpa using hk.unmet hnone, fun _ => ⟨hk.fresh hroom, hfile⟩⟩,
    ?_, ?_, ?_, ?_, ?_⟩
  · rw [hnext, hlength, hk.next]
    exact (UInt64.ofNat_add _ 1).symm
  · intro id' hmem
    rw [hlength]
    rw [hids] at hmem
    rcases List.mem_append.mp hmem with hold | hnew
    · exact Nat.le_succ_of_le (hk.passed id' hold)
    · rw [List.mem_singleton.mp hnew, hk.nextId hroom]
  · intro name' id' fileId' announced hmem
    rw [recent_used] at hmem
    rcases List.mem_append.mp hmem with hold | hnew
    · exact hr.grows.known _ _ (hk.met name' id' fileId' announced hold)
    · obtain ⟨rfl, rfl, -, -⟩ := Event.used.inj (List.mem_singleton.mp hnew)
      exact hr.known
  · intro name' id' hid'
    rw [hknown] at hid'
    by_cases hname : name' = name
    · subst hname
      rw [Function.update_self] at hid'
      cases hid'
      refine ⟨fileId, ?_⟩
      rw [recent_used]
      exact List.mem_append_right _ (List.mem_singleton_self _)
    · rw [Function.update_of_ne hname] at hid'
      exact (hk.announced name' id' hid').concat (by simp)
  · intro pc ls hls l hl
    rw [hr.grows.cache] at hls
    exact hr.grows.known _ _ (hk.cached pc ls hls l hl)

/-- An id for a name: the old one is used silently, a new one announced. -/
theorem Kept.used (hk : Kept s h) (hr : Records s name t id)
    (hfile : fileId ≠ 0 → ∃ fileName, AnnouncedAs h (.file fileName) fileId)
    (hroom : (announcedIds
      (h ++ [.used name id fileId (decide (known s name = none))])).length < 2 ^ 64) :
    Kept t (h ++ [.used name id fileId (decide (known s name = none))]) := by
  cases hr with
  | old hid =>
    simp only [hid, reduceCtorEq, decide_false]
    exact hk.used_known hid
  | new hnone hknown hnext hcache hcurrent =>
    simp only [hnone, decide_true] at hroom ⊢
    rw [length_announced] at hroom
    exact hk.used_new (.new hnone hknown hnext hcache hcurrent) hnone hknown hnext hfile hroom

/-! ## The callbacks -/

theorem recordFile_records (s : State) (fileName : String) :
    Records s (.file fileName) (recordFile s fileName).1 (recordFile s fileName).2 := by
  unfold recordFile
  split
  · rename_i id hid
    exact .old hid
  · rename_i hnone
    refine .new hnone (funext fun name => ?_) rfl rfl rfl
    cases name with
    | function name => exact (Function.update_of_ne (by simp) _ _).symm
    | file name =>
      by_cases hname : name = fileName
      · subst hname
        rw [Function.update_self]
        exact AList.lookup_insert _
      · rw [Function.update_of_ne (by simpa using hname)]
        exact AList.lookup_insert_ne hname

theorem recordFunction_records (s : State) (functionName : String) (fileId : UInt64) :
    Records s (.function functionName) (recordFunction s functionName fileId).1
      (recordFunction s functionName fileId).2 := by
  unfold recordFunction
  split
  · rename_i id hid
    exact .old hid
  · rename_i hnone
    refine .new hnone (funext fun name => ?_) rfl rfl rfl
    cases name with
    | file name => exact (Function.update_of_ne (by simp) _ _).symm
    | function name =>
      by_cases hname : name = functionName
      · subst hname
        rw [Function.update_self]
        exact AList.lookup_insert _
      · rw [Function.update_of_ne (by simpa using hname)]
        exact AList.lookup_insert_ne hname

/-- A file's id is 0, or was announced. -/
def FileKnown (h : List Event) (fileId : UInt64) : Prop :=
  fileId ≠ 0 → ∃ fileName, AnnouncedAs h (.file fileName) fileId

theorem recordFile_kept (hk : Kept s h) (fileName : String)
    (hroom : (announcedIds (h ++ [fileEvent s fileName])).length < 2 ^ 64) :
    Kept (recordFile s fileName).1 (h ++ [fileEvent s fileName]) ∧
      Grows s (recordFile s fileName).1 ∧
      FileKnown (h ++ [fileEvent s fileName]) (recordFile s fileName).2 := by
  have hr := recordFile_records s fileName
  have hkept := hk.used hr (fun h0 => absurd rfl h0) hroom
  exact ⟨hkept, hr.grows, fun _ => ⟨fileName, hkept.announced _ _ hr.known⟩⟩

theorem btFile_kept (hk : Kept s h) (info : PcInfo)
    (hroom : (announcedIds (h ++ btEvents s info)).length < 2 ^ 64) :
    Kept (btFile s info).state (h ++ btEvents s info) ∧ Grows s (btFile s info).state ∧
      FileKnown (h ++ btEvents s info) (btFile s info).fileId := by
  cases hbt : info.btFileName with
  | some f =>
    simp only [btFile, btEvents, hbt] at hroom ⊢
    exact recordFile_kept hk f hroom
  | none =>
    simp only [btFile, btEvents, hbt, List.append_nil]
    exact ⟨hk, .refl s, fun h0 => absurd rfl h0⟩

theorem dlFile_kept {x : Found} (hk : Kept x.state h) (hfile : FileKnown h x.fileId)
    (info : PcInfo) (hroom : (announcedIds (h ++ dlEvents x info)).length < 2 ^ 64) :
    Kept (dlFile x info).state (h ++ dlEvents x info) ∧ Grows x.state (dlFile x info).state ∧
      FileKnown (h ++ dlEvents x info) (dlFile x info).fileId := by
  by_cases hid : x.fileId = 0
  · cases hdl : info.dladdr.bind DlInfo.fname with
    | some f =>
      simp only [dlFile, dlEvents, hid, hdl, if_true] at hroom ⊢
      exact recordFile_kept hk f hroom
    | none =>
      simp only [dlFile, dlEvents, hid, hdl, if_true, List.append_nil]
      exact ⟨hk, .refl _, fun h0 => absurd rfl h0⟩
  · simp only [dlFile, dlEvents, hid, if_false, List.append_nil]
    exact ⟨hk, .refl _, hfile⟩

theorem handlePcInfo_kept (hk : Kept s h) (info : PcInfo)
    (hroom : (announcedIds (h ++ pcInfoEvents s info)).length < 2 ^ 64) :
    Kept (handlePcInfo s info) (h ++ pcInfoEvents s info) ∧ Grows s (handlePcInfo s info) := by
  unfold pcInfoEvents at hroom ⊢
  simp only [← List.append_assoc] at hroom ⊢
  have hroom' := room_of_append hroom
  obtain ⟨hbt, hgrows, hbtFile⟩ := btFile_kept hk info (room_of_append hroom')
  obtain ⟨hdl, hgrows', hdlFile⟩ := dlFile_kept hbt hbtFile info hroom'
  have hr := recordFunction_records (dlFile (btFile s info) info).state
    (functionName s.currentSymbolName info) (dlFile (btFile s info) info).fileId
  refine ⟨(hdl.used hr hdlFile hroom).congr rfl rfl rfl, hgrows.trans (hgrows'.trans ?_)⟩
  refine hr.grows.trans ⟨fun _ _ hid => hid, rfl, fun l hl => ?_⟩
  refine (List.mem_append.mp hl).imp_right fun hnew => ?_
  rw [List.mem_singleton.mp hnew]
  exact hr.known

theorem handlePcInfos_kept (hk : Kept s h) (infos : List PcInfo)
    (hroom : (announcedIds (h ++ pcInfosEvents s infos)).length < 2 ^ 64) :
    Kept (infos.foldl handlePcInfo s) (h ++ pcInfosEvents s infos) ∧
      Grows s (infos.foldl handlePcInfo s) := by
  induction infos generalizing s h with
  | nil =>
    rw [pcInfosEvents, List.append_nil]
    exact ⟨hk, .refl s⟩
  | cons info infos ih =>
    rw [pcInfosEvents, ← List.append_assoc] at hroom ⊢
    obtain ⟨hhead, hgrows⟩ := handlePcInfo_kept hk info (room_of_append hroom)
    obtain ⟨htail, hgrows'⟩ := ih hhead hroom
    exact ⟨htail, hgrows.trans hgrows'⟩

/-! ## Lookups and clears -/

/-- What is returned was announced, cached or not. -/
theorem Kept.returned {ls : List Location} (hk : Kept s h) (hls : ∀ l ∈ ls, Interned s l) :
    Kept s (h ++ [.returned ls]) := by
  have hids : announcedIds (h ++ [.returned ls]) = announcedIds h := by
    rw [announcedIds_append]
    exact List.append_nil _
  have hrecent : recent (h ++ [.returned ls]) = recent h ++ [.returned ls] :=
    recent_concat (by simp) h
  refine ⟨hk.disciplined.concat fun l hl => ⟨_, hk.announced _ _ (hls l hl)⟩,
    by rw [hids]; exact hk.next, by rw [hids]; exact hk.passed, ?_,
    fun name id hid => (hk.announced name id hid).concat (by simp), hk.cached⟩
  intro name id fileId announced hmem
  rw [hrecent] at hmem
  rcases List.mem_append.mp hmem with hold | hnew
  · exact hk.met name id fileId announced hold
  · cases List.mem_singleton.mp hnew

theorem lookupLocations_kept (hk : Kept s h) (pc : UInt64) (isForeign : Bool) (answers : Answers)
    (hroom : (announcedIds (h ++ lookupEvents s pc isForeign answers)).length < 2 ^ 64) :
    Kept (lookupLocations s pc isForeign answers) (h ++ lookupEvents s pc isForeign answers) := by
  unfold lookupEvents at hroom ⊢
  rw [← List.append_assoc] at hroom ⊢
  cases hcache : s.knownAddrToLocations.lookup pc with
  | some ls =>
    have hlookup : lookupLocations s pc isForeign answers = { s with returned := ls } := by
      simp [lookupLocations, hcache]
    simp only [List.append_nil, hlookup]
    exact (hk.returned (hk.cached pc ls hcache)).congr rfl rfl rfl
  | none =>
    rw [hcache] at hroom
    have hbegin : beginLookup s isForeign answers =
        { s with
          currentLocations := []
          currentSymbolName := Decode.symbolName isForeign answers } :=
      Decode.symbolName_spec s isForeign answers
    have hstart : Kept (beginLookup s isForeign answers) h := by
      rw [hbegin]
      exact hk.congr rfl rfl rfl
    obtain ⟨hfold, hgrows⟩ := handlePcInfos_kept hstart answers.pcinfo (room_of_append hroom)
    let t := answers.pcinfo.foldl handlePcInfo (beginLookup s isForeign answers)
    have hcurrent (l : Location) (hl : l ∈ t.currentLocations) : Interned t l := by
      refine (hgrows.current l hl).resolve_left fun hnil => ?_
      rw [hbegin] at hnil
      cases hnil
    have hlookup : lookupLocations s pc isForeign answers =
        { t with
          knownAddrToLocations := t.knownAddrToLocations.emplace pc t.currentLocations
          returned := t.currentLocations } := by
      simp only [lookupLocations, hcache]
      rfl
    have hreturned := hfold.returned hcurrent
    rw [hlookup]
    refine ⟨hreturned.disciplined, hreturned.next, hreturned.passed, hreturned.met,
      hreturned.announced, fun pc' ls hls => ?_⟩
    rcases Table.lookup_emplace_cases hls with ⟨-, rfl⟩ | hold
    · exact hcurrent
    · exact hreturned.cached pc' ls hold

theorem clearSymbols_kept (hk : Kept s h) : Kept (clearSymbols s) (h ++ [.cleared]) := by
  have hids : announcedIds (h ++ [.cleared]) = announcedIds h := by
    rw [announcedIds_append]
    exact List.append_nil _
  refine ⟨hk.disciplined.concat trivial, by rw [hids]; exact hk.next,
    by rw [hids]; exact hk.passed, fun name id fileId announced hmem => ?_, fun name id hid => ?_,
    fun pc ls hls => ?_⟩
  · rw [recent_cleared] at hmem
    cases hmem
  · cases name <;> cases hid
  · cases hls

theorem init_kept : Kept init [] where
  disciplined past e later heq := by simp at heq
  next := rfl
  passed := nofun
  met := nofun
  announced name id hid := by cases name <;> cases hid
  cached pc ls hls := by cases hls

/-- **Announcements are disciplined**: in every history with less than 2^64 ids, a name is
announced where it is used first since a clear and nowhere else, with an id that no
announcement has had before; the file of a function is announced before it, and the
functions of the locations that are returned are announced, since the same clear. -/
theorem history_disciplined (labels : List Label) :
    Along (recording step note)
      (fun x => (announcedIds x.2).length < 2 ^ 64 → Disciplined x.2) (init, []) labels := by
  refine (along_of_step (I := fun x => (announcedIds x.2).length < 2 ^ 64 → Kept x.1 x.2) ?_
    (fun _ => init_kept) labels).mono fun x hkept hroom => (hkept hroom).disciplined
  intro x a y hkept hs
  refine next_of_step (I := fun x => (announcedIds x.2).length < 2 ^ 64 → Kept x.1 x.2)
    (fun t ht hroom => ?_) hs
  have hk := hkept (room_of_append hroom)
  cases a with
  | lookup pc isForeign answers =>
    cases ht
    exact lookupLocations_kept hk pc isForeign answers hroom
  | clear =>
    cases ht
    exact clearSymbols_kept hk

/-! ## What the callbacks keep -/

/-- The announcement of a file, as `recordFile` passes it to its callback. -/
def announcedFile : Event → Option (UInt64 × String)
  | .used (.file fileName) id _ true => some (id, fileName)
  | _ => none

def announcedFunction : Event → Option (UInt64 × String × UInt64)
  | .used (.function functionName) id fileId true => some (id, functionName, fileId)
  | _ => none

/-- From `s` to `t` the callbacks are called for the announcements among the events. -/
structure Calls (s t : State) (es : List Event) : Prop where
  files : t.files = (es.filterMap announcedFile).reverse ++ s.files
  functions : t.functions = (es.filterMap announcedFunction).reverse ++ s.functions

variable {es es' : List Event}

theorem Calls.refl (s : State) : Calls s s [] := ⟨rfl, rfl⟩

theorem Calls.trans (hst : Calls s t es) (htu : Calls t u es') : Calls s u (es ++ es') where
  files := by
    rw [htu.files, hst.files, List.filterMap_append, List.reverse_append, List.append_assoc]
  functions := by
    rw [htu.functions, hst.functions, List.filterMap_append, List.reverse_append,
      List.append_assoc]

theorem recordFile_calls (s : State) (fileName : String) :
    Calls s (recordFile s fileName).1 [fileEvent s fileName] := by
  unfold fileEvent
  cases hid : s.knownFileToIds.lookup fileName <;> simp only [recordFile, hid] <;>
    exact ⟨rfl, rfl⟩

theorem recordFunction_calls (s : State) (name : String) (fileId : UInt64) :
    Calls s (recordFunction s name fileId).1 [functionEvent s name fileId] := by
  unfold functionEvent
  cases hid : s.knownMethodToIds.lookup name <;> simp only [recordFunction, hid] <;>
    exact ⟨rfl, rfl⟩

theorem btFile_calls (s : State) (info : PcInfo) :
    Calls s (btFile s info).state (btEvents s info) := by
  unfold btFile btEvents
  cases info.btFileName with
  | some f => exact recordFile_calls s f
  | none => exact .refl s

theorem dlFile_calls (x : Found) (info : PcInfo) :
    Calls x.state (dlFile x info).state (dlEvents x info) := by
  unfold dlFile dlEvents
  split
  · cases info.dladdr.bind DlInfo.fname with
    | some f => exact recordFile_calls x.state f
    | none => exact .refl _
  · exact .refl _

theorem handlePcInfo_calls (s : State) (info : PcInfo) :
    Calls s (handlePcInfo s info) (pcInfoEvents s info) := by
  have hfunction := recordFunction_calls (dlFile (btFile s info) info).state
    (functionName s.currentSymbolName info) (dlFile (btFile s info) info).fileId
  have hcalls := ((btFile_calls s info).trans (dlFile_calls _ info)).trans hfunction
  exact ⟨hcalls.files, hcalls.functions⟩

theorem handlePcInfos_calls (s : State) (infos : List PcInfo) :
    Calls s (infos.foldl handlePcInfo s) (pcInfosEvents s infos) := by
  induction infos generalizing s with
  | nil => exact .refl s
  | cons info infos ih => exact (handlePcInfo_calls s info).trans (ih _)

theorem lookupLocations_calls (s : State) (pc : UInt64) (isForeign : Bool) (answers : Answers) :
    Calls s (lookupLocations s pc isForeign answers) (lookupEvents s pc isForeign answers) := by
  unfold lookupEvents
  cases hcache : s.knownAddrToLocations.lookup pc with
  | some ls =>
    simp only [lookupLocations, hcache]
    exact ⟨rfl, rfl⟩
  | none =>
    have hbegin : Calls s (beginLookup s isForeign answers) [] := by
      rw [show beginLookup s isForeign answers = { s with
        currentLocations := []
        currentSymbolName := Decode.symbolName isForeign answers } from
          Decode.symbolName_spec s isForeign answers]
      exact ⟨rfl, rfl⟩
    let t := answers.pcinfo.foldl handlePcInfo (beginLookup s isForeign answers)
    have hlookup : lookupLocations s pc isForeign answers =
        { t with
          knownAddrToLocations := t.knownAddrToLocations.emplace pc t.currentLocations
          returned := t.currentLocations } := by
      simp only [lookupLocations, hcache]
      rfl
    have hfold := hbegin.trans (handlePcInfos_calls _ answers.pcinfo)
    rw [hlookup]
    exact hfold.trans ⟨rfl, rfl⟩

theorem recent_append (hes : .cleared ∉ es) (h : List Event) :
    recent (h ++ es) = recent h ++ es := by
  induction es generalizing h with
  | nil => rw [List.append_nil, List.append_nil]
  | cons e es ih =>
    obtain ⟨he, hes⟩ := not_or.mp (mt List.mem_cons.mpr hes)
    rw [List.append_cons, ih hes, recent_concat (Ne.symm he), List.append_assoc]
    rfl

theorem not_cleared_of_pcInfos (s : State) (infos : List PcInfo) :
    .cleared ∉ pcInfosEvents s infos := by
  induction infos generalizing s with
  | nil => exact List.not_mem_nil
  | cons info infos ih =>
    have hbt : .cleared ∉ btEvents s info := by
      unfold btEvents
      split <;> simp [fileEvent]
    have hdl (x : Found) : .cleared ∉ dlEvents x info := by
      unfold dlEvents
      split
      · split <;> simp [fileEvent]
      · exact List.not_mem_nil
    simp [pcInfosEvents, pcInfoEvents, functionEvent, hbt, hdl, ih]

theorem not_cleared_of_lookup (s : State) (pc : UInt64) (isForeign : Bool) (answers : Answers) :
    .cleared ∉ lookupEvents s pc isForeign answers := by
  unfold lookupEvents
  split <;> simp [not_cleared_of_pcInfos]

/-- The events tell of all calls of the callbacks since the latest clear, and of no other. -/
theorem calls_of_recent (labels : List Label) :
    Along (recording step note) (fun x => Calls init x.1 (recent x.2)) (init, []) labels := by
  refine along_of_step (fun x a y hcalls hs => ?_) (.refl init) labels
  refine next_of_step (I := fun x => Calls init x.1 (recent x.2)) (fun t ht => ?_) hs
  cases a with
  | lookup pc isForeign answers =>
    cases ht
    show Calls init _ (recent (x.2 ++ lookupEvents x.1 pc isForeign answers))
    rw [recent_append (not_cleared_of_lookup x.1 pc isForeign answers)]
    exact hcalls.trans (lookupLocations_calls x.1 pc isForeign answers)
  | clear =>
    cases ht
    show Calls init _ (recent (x.2 ++ [.cleared]))
    rw [recent_cleared]
    exact ⟨rfl, rfl⟩

end Opsian.Symbols.Discipline
