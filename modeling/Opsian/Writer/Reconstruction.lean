import Opsian.Lib.History
import Opsian.Symbols.Decode
import Opsian.Writer.Announcements

/-! # What the collector reads out of a sample

A sample names its methods by ids, and a collector has but the announcements that came before
it on the connection. From those it reads the functions and the lines that libbacktrace has for
the program counters of the trace, inlined calls included, however much of it was cached. The
file is the one that the function's name was met with first. -/
namespace Opsian.Writer.Reconstruction
open Opsian.Lib Opsian.Lib.Runs Opsian.Lib.History Opsian.Symbols
open Opsian.Symbols.SymbolTable (Answers Location PcInfo)
open Opsian.Symbols.Decode (Interned Tables resolve symbolName)
open Opsian.Writer.Announcements Opsian.Writer.LogWriter
open Opsian.Prometheus.Exporter (CallFrame)

/-- A place in the source code. -/
structure Source where
  function : String
  file : String
  line : UInt32
  deriving DecidableEq, Repr

/-- All of it but the file. -/
def Source.call (x : Source) : String × UInt32 := (x.function, x.line)

/-! ## The collector -/

/-- What a collector keeps of the announcements, newest first. -/
structure Directory where
  modules : List (Int64 × String)
  methods : List (Int64 × String × Int64)

namespace Directory

def learn (d : Directory) : Message → Directory
  | .moduleInformation moduleId filename =>
    { d with modules := (moduleId, filename) :: d.modules }
  | .methodInformation methodId moduleId methodName =>
    { d with methods := (methodId, methodName, moduleId) :: d.methods }
  | .stackSample _ | .other => d

/-- A method without a module has no file. -/
def fileOf (d : Directory) (moduleId : Int64) : Option String :=
  if moduleId = 0 then some "" else d.modules.lookup moduleId

def locate (d : Directory) (e : CompressedFrameEntry) : Option Source :=
  (d.methods.lookup e.methodId).bind fun m => (d.fileOf m.2).map fun file => ⟨m.1, file, e.line⟩

def read (d : Directory) (sample : StackSample) : List (Option Source) :=
  sample.compressedFrames.map d.locate

end Directory

/-- From the messages of a connection, newest first. -/
def directory : List Message → Directory
  | [] => ⟨[], []⟩
  | m :: earlier => (directory earlier).learn m

/-- Each sample, read by what was announced before it. -/
def readings : List Message → List (List (Option Source))
  | [] => []
  | .stackSample sample :: earlier => (directory earlier).read sample :: readings earlier
  | _ :: earlier => readings earlier

/-! ## The program -/

/-- What libbacktrace and `dladdr` say of each program counter of the process. -/
structure Image where
  isForeign : UInt64 → Bool
  answers : UInt64 → Answers

def sourceOf (currentSymbolName : String) (info : PcInfo) : Source :=
  ⟨(resolve currentSymbolName info).1, (resolve currentSymbolName info).2,
    UInt32.ofInt info.lineNumber⟩

namespace Image

/-- The calls that are inlined at an address, with the one around them. -/
def sources (image : Image) (pc : UInt64) : List Source :=
  (image.answers pc).pcinfo.map (sourceOf (symbolName (image.isForeign pc) (image.answers pc)))

/-- What the sample of a trace should say: nothing, where the trace is an error. -/
def calls (image : Image) (x : Trace) : List Source :=
  if x.trace.numFrames < 0 then []
  else (readFrames x.trace).flatMap fun frame => image.sources frame.frame

/-- The answers for a trace are those of the process. -/
def Tells (image : Image) (x : Trace) : Prop :=
  x.answers = (readFrames x.trace).map (fun frame => image.answers frame.frame) ∧
    ∀ frame ∈ readFrames x.trace, frame.isForeign = image.isForeign frame.frame

end Image

/-- The 64-bit counter has ids for all that the trace can resolve to. -/
def Room (s : State) : Label → Prop
  | .stackTrace x _ =>
    s.symbols.nextId.toNat + 2 * (x.answers.map fun a => a.pcinfo.length).sum < 2 ^ 64
  | _ => True

/-- No announcement is lost unnoticed, the answers are those of the process, and ids are left. -/
def Honest (image : Image) (s : State) (a : Label) : Prop :=
  Told s a ∧ Room s a ∧ ∀ x outcomes, a = .stackTrace x outcomes → image.Tells x

/-- What the samples of the connection should say, newest first. -/
def note (image : Image) (h : List (List Source)) (s : State) (a : Label) (t : State) :
    List (List Source) :=
  match a with
  | .connect => []
  | .stackTrace x _ =>
    if (readings s.connection.written).length < (readings t.connection.written).length then
      image.calls x :: h
    else h
  | .disconnect | .send _ => h

/-- The collector reads the functions and their lines, and the files as well while no function
was met with two of them since the connect. -/
structure Agrees (x : State × List (List Source)) : Prop where
  calls : (readings x.1.connection.written).map (List.map (Option.map Source.call)) =
    x.2.map (List.map fun source => some source.call)
  files : Assoc.Functional x.1.symbols.resolved →
    readings x.1.connection.written = x.2.map (List.map some)

/-! ## The announcements book what the symbol table has learnt -/

section booked

variable {s t u : SymbolTable.State} {ms ms' : List Message}

/-- The directory of a collector that has read every announcement since the clear. -/
def tables (s : SymbolTable.State) : Directory where
  modules := s.files.map fun e => (e.1.toInt64, e.2)
  methods := s.functions.map fun e => (e.1.toInt64, e.2.1, e.2.2.toInt64)

/-- The messages are announcements, and lead from the one directory to the other. -/
structure Booked (s t : SymbolTable.State) (ms : List Message) : Prop where
  announces : ∀ m ∈ ms, m.announces = true
  learnt : ms.foldl Directory.learn (tables s) = tables t

theorem Booked.same (h : tables t = tables s) : Booked s t [] := ⟨nofun, h.symm⟩

theorem Booked.trans (h : Booked s t ms) (h' : Booked t u ms') : Booked s u (ms ++ ms') where
  announces m hm := (List.mem_append.mp hm).elim (h.announces m) (h'.announces m)
  learnt := by rw [List.foldl_append, h.learnt, h'.learnt]

theorem recordFile_booked (s : SymbolTable.State) (f : String) :
    Booked s (SymbolTable.recordFile s f).1 (fileMessages s f) := by
  unfold SymbolTable.recordFile fileMessages
  cases s.knownFileToIds.lookup f with
  | some id => exact .same rfl
  | none => exact ⟨by simp [Message.announces], rfl⟩

theorem recordFunction_booked (s : SymbolTable.State) (name : String) (fileId : UInt64) :
    Booked s (SymbolTable.recordFunction s name fileId).1 (functionMessages s name fileId) := by
  unfold SymbolTable.recordFunction functionMessages
  cases s.knownMethodToIds.lookup name with
  | some id => exact .same rfl
  | none => exact ⟨by simp [Message.announces], rfl⟩

theorem btFile_booked (s : SymbolTable.State) (info : PcInfo) :
    Booked s (SymbolTable.btFile s info).state (btMessages s info) := by
  unfold SymbolTable.btFile btMessages
  cases info.btFileName with
  | some f => exact recordFile_booked s f
  | none => exact .same rfl

theorem dlFile_booked (x : SymbolTable.Found) (info : PcInfo) :
    Booked x.state (SymbolTable.dlFile x info).state (dlMessages x info) := by
  unfold SymbolTable.dlFile dlMessages
  split
  · cases info.dladdr.bind SymbolTable.DlInfo.fname with
    | some f => exact recordFile_booked x.state f
    | none => exact .same rfl
  · exact .same rfl

theorem handlePcInfo_booked (s : SymbolTable.State) (info : PcInfo) :
    Booked s (SymbolTable.handlePcInfo s info) (pcInfoMessages s info) := by
  have hfunction := recordFunction_booked
    (SymbolTable.dlFile (SymbolTable.btFile s info) info).state
    (SymbolTable.functionName s.currentSymbolName info)
    (SymbolTable.dlFile (SymbolTable.btFile s info) info).fileId
  have hall := ((btFile_booked s info).trans (dlFile_booked _ info)).trans hfunction
  exact ⟨hall.announces, hall.learnt⟩

theorem pcInfos_booked (s : SymbolTable.State) (infos : List PcInfo) :
    Booked s (infos.foldl SymbolTable.handlePcInfo s) (pcInfosMessages s infos) := by
  induction infos generalizing s with
  | nil => exact .same rfl
  | cons info infos ih => exact (handlePcInfo_booked s info).trans (ih _)

theorem begin_eq (s : SymbolTable.State) (isForeign : Bool) (answers : Answers) :
    begin s isForeign answers = { s with
      currentLocations := []
      currentSymbolName := symbolName isForeign answers } :=
  Decode.symbolName_spec s isForeign answers

theorem lookup_booked (s : SymbolTable.State) (pc : UInt64) (isForeign : Bool)
    (answers : Answers) :
    Booked s (SymbolTable.lookupLocations s pc isForeign answers)
      (lookupMessages s pc isForeign answers) := by
  unfold SymbolTable.lookupLocations lookupMessages
  cases s.knownAddrToLocations.lookup pc with
  | some ls => exact .same rfl
  | none =>
    have hinfos := pcInfos_booked (begin s isForeign answers) answers.pcinfo
    have hbegin : tables (begin s isForeign answers) = tables s := by
      rw [begin_eq]
      rfl
    refine ⟨hinfos.announces, ?_⟩
    rw [← hbegin]
    exact hinfos.learnt

end booked

/-! ## A lookup returns what the image has -/

section lookups

variable {image : Image} {s t u : SymbolTable.State}

def source (l : Location) : Source := ⟨l.functionName, l.fileName, UInt32.ofInt l.lineNumber⟩

theorem handlePcInfo_sources (h : Tables s) (info : PcInfo) (hroom : s.nextId.toNat + 1 < 2 ^ 64) :
    (SymbolTable.handlePcInfo s info).currentLocations.map source =
      s.currentLocations.map source ++ [sourceOf s.currentSymbolName info] := by
  obtain ⟨-, hsame, -, -, hname⟩ := Decode.found_spec h info hroom
  have hcurrent : ∀ (u : SymbolTable.State) (name : String) (fileId : UInt64),
      (SymbolTable.recordFunction u name fileId).1.currentLocations = u.currentLocations := by
    intro u name fileId
    unfold SymbolTable.recordFunction
    split
    · rfl
    · rfl
  simp only [SymbolTable.handlePcInfo, hcurrent, hsame.current, List.map_append, List.map_cons,
    List.map_nil, source, sourceOf, resolve, hname]

/-- The places of a lookup, and how far its ids may get. -/
theorem foldl_handlePcInfo_sources (h : Tables s) (infos : List PcInfo)
    (hroom : s.nextId.toNat + 2 * infos.length < 2 ^ 64)
    (hcurrent : ∀ l ∈ s.currentLocations, Interned s l) :
    (infos.foldl SymbolTable.handlePcInfo s).nextId.toNat ≤ s.nextId.toNat + 2 * infos.length ∧
      (infos.foldl SymbolTable.handlePcInfo s).currentLocations.map source =
        s.currentLocations.map source ++ infos.map (sourceOf s.currentSymbolName) := by
  induction infos generalizing s with
  | nil => exact ⟨Nat.le_add_right _ _, (List.append_nil _).symm⟩
  | cons info infos ih =>
    rw [List.length_cons] at hroom
    obtain ⟨htab, hgrows, hnext, hint, -⟩ := Decode.handlePcInfo_spec h info (by omega) hcurrent
    obtain ⟨hnext', hsources⟩ := ih htab (by omega) hint
    refine ⟨?_, ?_⟩
    · rw [List.foldl_cons, List.length_cons]
      omega
    · rw [List.foldl_cons, hsources, handlePcInfo_sources h info (by omega), hgrows.symbol,
        List.append_assoc, List.map_cons, List.singleton_append]

/-- What is interned stays so, and no name that was met is forgotten. -/
structure Grown (s t : SymbolTable.State) : Prop where
  interned : ∀ l, Interned s l → Interned t l
  resolved : ∃ rs, t.resolved = s.resolved ++ rs

theorem Grown.same (hm : t.knownMethodToIds = s.knownMethodToIds) (hr : t.resolved = s.resolved) :
    Grown s t where
  interned l hl := ⟨hm ▸ hl.method, hr ▸ hl.resolved⟩
  resolved := ⟨[], by rw [hr, List.append_nil]⟩

theorem Grown.trans (h : Grown s t) (h' : Grown t u) : Grown s u where
  interned l hl := h'.interned l (h.interned l hl)
  resolved := by
    obtain ⟨rs, hrs⟩ := h.resolved
    obtain ⟨rs', hrs'⟩ := h'.resolved
    exact ⟨rs ++ rs', by rw [hrs', hrs, List.append_assoc]⟩

/-- The tables are in order, and every cached address has the places of the image. -/
structure Sourced (image : Image) (s : SymbolTable.State) : Prop where
  inv : Decode.Inv s
  cached : ∀ pc ls, s.knownAddrToLocations.lookup pc = some ls →
    ls.map source = image.sources pc

/-- The places of an address that is not cached. -/
theorem lookup_new_sources (h : Decode.Inv s) {pc : UInt64} (isForeign : Bool) (answers : Answers)
    (hnew : s.knownAddrToLocations.lookup pc = none)
    (hroom : s.nextId.toNat + 2 * answers.pcinfo.length < 2 ^ 64) :
    Grown s (SymbolTable.lookupLocations s pc isForeign answers) ∧
      (SymbolTable.lookupLocations s pc isForeign answers).nextId.toNat ≤
        s.nextId.toNat + 2 * answers.pcinfo.length ∧
      (SymbolTable.lookupLocations s pc isForeign answers).returned.map source =
        answers.pcinfo.map (sourceOf (symbolName isForeign answers)) := by
  have hstart : Tables { s with
      currentLocations := []
      currentSymbolName := symbolName isForeign answers } :=
    ⟨h.next, h.files_lt, h.functions_lt, h.file, h.method, h.met⟩
  obtain ⟨-, hgrows, -⟩ := Decode.foldl_handlePcInfo_spec hstart answers.pcinfo hroom
    (List.forall_mem_nil _)
  obtain ⟨hnext, hsources⟩ := foldl_handlePcInfo_sources hstart answers.pcinfo hroom
    (List.forall_mem_nil _)
  simp only [SymbolTable.lookupLocations, hnew, Decode.symbolName_spec]
  refine ⟨⟨fun l hl => ?_, ⟨_, hgrows.resolved⟩⟩, hnext, hsources⟩
  have hgrown := hgrows.interned (l := l) ⟨hl.method, hl.resolved⟩
  exact ⟨hgrown.method, hgrown.resolved⟩

/-- A lookup returns the places of the image, whether it asks for them or not. -/
theorem Sourced.lookup (h : Sourced image s) (pc : UInt64)
    (hroom : s.nextId.toNat + 2 * (image.answers pc).pcinfo.length < 2 ^ 64) :
    let t := SymbolTable.lookupLocations s pc (image.isForeign pc) (image.answers pc)
    Sourced image t ∧ Grown s t ∧
      t.nextId.toNat ≤ s.nextId.toNat + 2 * (image.answers pc).pcinfo.length ∧
      t.returned.map source = image.sources pc := by
  intro t
  have hknown : t.knownAddrToLocations = s.knownAddrToLocations.emplace pc t.returned :=
    SymbolTable.lookupLocations_known s pc _ _
  obtain ⟨hinv, hgrown, hnext, hreturned⟩ : Decode.Inv t ∧ Grown s t ∧
      t.nextId.toNat ≤ s.nextId.toNat + 2 * (image.answers pc).pcinfo.length ∧
      t.returned.map source = image.sources pc := by
    cases hpc : s.knownAddrToLocations.lookup pc with
    | some ls =>
      have ht : t = { s with returned := ls } := by
        simp only [t, SymbolTable.lookupLocations, hpc]
      rw [ht]
      exact ⟨Decode.lookup_known_inv h.inv hpc, .same rfl rfl, Nat.le_add_right _ _,
        h.cached pc ls hpc⟩
    | none =>
      obtain ⟨hinv, -⟩ := Decode.lookup_new_spec h.inv (image.isForeign pc) (image.answers pc)
        (AList.lookup_eq_none.mp hpc) hroom
      exact ⟨hinv, lookup_new_sources h.inv _ _ hpc hroom⟩
  refine ⟨⟨hinv, fun pc' ls hls => ?_⟩, hgrown, hnext, hreturned⟩
  rw [hknown] at hls
  rcases Table.lookup_emplace_cases hls with ⟨rfl, rfl⟩ | hls
  · exact hreturned
  · exact h.cached pc' ls hls

/-- What the walk of a trace leaves: entries of places that the image has. -/
structure Walked (image : Image) (isError : Bool) (s : SymbolTable.State)
    (frames : List (CallFrame × Answers)) (w : Walk) : Prop where
  sourced : Sourced image w.symbols
  grown : Grown s w.symbols
  booked : Booked s w.symbols w.messages
  entries : ∃ ls : List Location, w.entries = ls.map entry ∧ (∀ l ∈ ls, Interned w.symbols l) ∧
    ls.map source = if isError then [] else frames.flatMap fun p => image.sources p.1.frame

theorem Sourced.walk (h : Sourced image s) (isError : Bool) (frames : List (CallFrame × Answers))
    (htells : ∀ p ∈ frames, p.1.isForeign = image.isForeign p.1.frame ∧
      p.2 = image.answers p.1.frame)
    (hroom : s.nextId.toNat + 2 * (frames.map fun p => p.2.pcinfo.length).sum < 2 ^ 64) :
    Walked image isError s frames (walk isError s frames) := by
  induction frames generalizing s with
  | nil =>
    refine ⟨h, .same rfl rfl, .same rfl, [], rfl, List.forall_mem_nil _, ?_⟩
    cases isError <;> rfl
  | cons head frames ih =>
    obtain ⟨frame, answers⟩ := head
    obtain ⟨hforeign, hanswers⟩ := htells _ List.mem_cons_self
    simp only at hforeign hanswers
    subst hanswers
    simp only [List.map_cons, List.sum_cons] at hroom
    obtain ⟨hsourced, hgrown, hnext, hreturned⟩ := h.lookup frame.frame (by omega)
    rw [← hforeign] at hsourced hgrown hnext hreturned
    generalize ht : SymbolTable.lookupLocations s frame.frame frame.isForeign
      (image.answers frame.frame) = t at hsourced hgrown hnext hreturned
    have hrest := ih hsourced (fun p hp => htells p (List.mem_cons_of_mem _ hp)) (by omega)
    simp only [Announcements.walk, ht]
    obtain ⟨ls, hentries, hinterned, hsources⟩ := hrest.entries
    refine ⟨hrest.sourced, hgrown.trans hrest.grown,
      (ht ▸ lookup_booked s frame.frame _ _).trans hrest.booked, ?_⟩
    cases isError with
    | true => exact ⟨ls, hentries, hinterned, hsources⟩
    | false =>
      refine ⟨t.returned ++ ls, ?_, fun l hl => ?_, ?_⟩
      · rw [List.map_append, ← hentries]
        rfl
      · rcases List.mem_append.mp hl with hl | hl
        · exact hrest.grown.interned l (hsourced.inv.returned l hl)
        · exact hinterned l hl
      · rw [List.map_append, hreturned, hsources]
        rfl

/-! ## What the tables give back -/

theorem toInt64_injective : Function.Injective UInt64.toInt64 := fun a b h => by
  have hbits : a.toInt64.toBitVec = b.toInt64.toBitVec := congrArg Int64.toBitVec h
  exact UInt64.toBitVec_inj.mp hbits

theorem fileOf_tables (s : SymbolTable.State) (fileId : UInt64) :
    (tables s).fileOf fileId.toInt64 = SymbolTable.fileOf s.files fileId := by
  unfold Directory.fileOf SymbolTable.fileOf
  by_cases hz : fileId = 0
  · subst hz
    rfl
  · have hz' : fileId.toInt64 ≠ 0 := fun h => hz (toInt64_injective h)
    rw [if_neg hz, if_neg hz']
    exact (Assoc.lookup_map toInt64_injective id s.files fileId).trans (congrFun Option.map_id _)

/-- An entry is located as its location decodes. -/
theorem locate_entry (s : SymbolTable.State) (l : Location) :
    (tables s).locate (entry l) = (SymbolTable.decode s l).map fun p =>
      ⟨p.1, p.2, UInt32.ofInt l.lineNumber⟩ := by
  have hlookup : (tables s).methods.lookup (entry l).methodId =
      (s.functions.lookup l.methodId).map fun m => (m.1, m.2.toInt64) :=
    Assoc.lookup_map toInt64_injective (fun m : String × UInt64 => (m.1, m.2.toInt64)) s.functions
      l.methodId
  unfold Directory.locate SymbolTable.decode
  rw [hlookup]
  cases s.functions.lookup l.methodId with
  | none => rfl
  | some m =>
    simp only [Option.map_some, Option.bind_some, fileOf_tables, Option.map_map]
    rfl

theorem call_of_interned (h : Tables s) {l : Location} (hl : Interned s l) :
    ((tables s).locate (entry l)).map Source.call = some (source l).call := by
  obtain ⟨fileId, file, -, -, hfirst⟩ := h.method _ _ hl.method
  rw [locate_entry, h.decode hl, hfirst]
  rfl

theorem source_of_interned (h : Tables s) (hone : Assoc.Functional s.resolved) {l : Location}
    (hl : Interned s l) : (tables s).locate (entry l) = some (source l) := by
  have hfirst := Assoc.functional_iff_lookup.mp hone _ hl.resolved
  rw [locate_entry, (h.decode_iff hl).mpr hfirst]
  rfl

end lookups

/-! ## What the connection carries -/

section connection

variable {c : Connection} {ms : List Message} {outcomes : List Outcome} {m : Message} {o : Outcome}

theorem sendAll_append (c : Connection) (l l' : List (Message × Outcome)) :
    sendAll c (l ++ l') = sendAll (sendAll c l) l' := by
  induction l generalizing c with
  | nil => rfl
  | cons x l ih => exact ih _

theorem noticed_of_append {l l' : List (Message × Outcome)} (h : Noticed c (l ++ l')) :
    Noticed c l := by
  induction l generalizing c with
  | nil => trivial
  | cons x l ih => exact ⟨h.1, ih h.2⟩

theorem readings_announcement (hm : m.announces = true) (written : List Message) :
    readings (m :: written) = readings written := by
  cases m with
  | moduleInformation | methodInformation | other => rfl
  | stackSample sample => cases hm

/-- An announcement that is not learnt takes the connection down. -/
theorem sendWithSize_announcement (hm : m.announces = true)
    (ho : c.isConnected = true → m.announces = true → o.ec ≠ 0 → o.stays = false) :
    readings (sendWithSize c m o).written = readings c.written ∧
      ((sendWithSize c m o).isConnected = true → c.isConnected = true ∧
        directory (sendWithSize c m o).written = (directory c.written).learn m) := by
  unfold sendWithSize
  split
  · rename_i hc
    by_cases hec : o.ec = 0
    · rw [if_pos hec]
      exact ⟨readings_announcement hm c.written, fun _ => ⟨hc, rfl⟩⟩
    · rw [if_neg hec]
      refine ⟨rfl, fun hstays => ?_⟩
      cases (ho hc hm hec).symm.trans hstays
  · rename_i hc
    exact ⟨rfl, fun hconn => absurd hconn hc⟩

theorem sendAll_announcements (hms : ∀ m ∈ ms, m.announces = true)
    (hlen : outcomes.length = ms.length) (ho : Noticed c (ms.zip outcomes)) :
    readings (sendAll c (ms.zip outcomes)).written = readings c.written ∧
      ((sendAll c (ms.zip outcomes)).isConnected = true → c.isConnected = true ∧
        directory (sendAll c (ms.zip outcomes)).written =
          ms.foldl Directory.learn (directory c.written)) := by
  induction ms generalizing c outcomes with
  | nil => exact ⟨rfl, fun hc => ⟨hc, rfl⟩⟩
  | cons m ms ih =>
    cases outcomes with
    | nil => cases hlen
    | cons o outcomes =>
      obtain ⟨hread, hlearn⟩ := sendWithSize_announcement (hms m List.mem_cons_self) ho.1
      obtain ⟨hread', hlearn'⟩ := ih (fun m' hm' => hms m' (List.mem_cons_of_mem _ hm'))
        (Nat.succ.inj hlen) ho.2
      refine ⟨hread'.trans hread, fun hc => ?_⟩
      obtain ⟨hc', hdir'⟩ := hlearn' hc
      obtain ⟨hc'', hdir⟩ := hlearn hc'
      exact ⟨hc'', hdir'.trans (by rw [hdir]; rfl)⟩

/-- A message that teaches nothing and is not a sample. -/
theorem sendWithSize_other (c : Connection) (o : Outcome) :
    readings (sendWithSize c .other o).written = readings c.written ∧
      ((sendWithSize c .other o).isConnected = true → c.isConnected = true ∧
        directory (sendWithSize c .other o).written = directory c.written) := by
  unfold sendWithSize
  split
  · rename_i hc
    refine ⟨?_, fun _ => ⟨hc, ?_⟩⟩
    · split
      · rfl
      · rfl
    · show directory (if o.ec = 0 then Message.other :: c.written else c.written) = _
      split
      · rfl
      · rfl
  · rename_i hc
    exact ⟨rfl, fun hconn => absurd hconn hc⟩

/-- A sample is written and read, or it is lost. -/
theorem sendWithSize_sample (c : Connection) (sample : StackSample) (o : Outcome) :
    ((sendWithSize c (.stackSample sample) o).isConnected = true → c.isConnected = true ∧
        directory (sendWithSize c (.stackSample sample) o).written = directory c.written) ∧
      (readings (sendWithSize c (.stackSample sample) o).written = readings c.written ∨
        c.isConnected = true ∧ readings (sendWithSize c (.stackSample sample) o).written =
          (directory c.written).read sample :: readings c.written) := by
  unfold sendWithSize
  split
  · rename_i hc
    by_cases hec : o.ec = 0
    · rw [if_pos hec]
      exact ⟨fun _ => ⟨hc, rfl⟩, .inr ⟨hc, rfl⟩⟩
    · rw [if_neg hec]
      exact ⟨fun _ => ⟨hc, rfl⟩, .inl rfl⟩
  · rename_i hc
    exact ⟨fun hconn => absurd hconn hc, .inl rfl⟩

end connection

/-! ## Runs -/

section runs

variable {image : Image} {s t : State} {g : List (List Source)}

structure Inv (image : Image) (s : State) (g : List (List Source)) : Prop where
  sourced : Sourced image s.symbols
  kept : s.connection.isConnected = true → directory s.connection.written = tables s.symbols
  agrees : Agrees (s, g)

theorem init_inv (image : Image) : Inv image init [] where
  sourced := ⟨Decode.init_inv, nofun⟩
  kept hc := by cases hc
  agrees := ⟨rfl, fun _ => rfl⟩

/-- Nothing is learnt, and no sample is written. -/
theorem Agrees.transfer (h : Agrees (s, g)) (hread : readings t.connection.written =
    readings s.connection.written) (hgrown : Grown s.symbols t.symbols) : Agrees (t, g) where
  calls := by
    show (readings t.connection.written).map _ = _
    rw [hread]
    exact h.calls
  files hone := by
    show readings t.connection.written = _
    rw [hread]
    obtain ⟨rs, hrs⟩ := hgrown.resolved
    rw [hrs] at hone
    exact h.files fun k v w hv hw =>
      hone k v w (List.mem_append_left _ hv) (List.mem_append_left _ hw)

/-- A sample is read next, as it should be. -/
theorem Agrees.cons (h : Agrees (s, g)) {sources : List Source} {ls : List Location}
    (hinv : Decode.Inv t.symbols) (hinterned : ∀ l ∈ ls, Interned t.symbols l)
    (hsources : ls.map source = sources) (hgrown : Grown s.symbols t.symbols)
    (hread : readings t.connection.written =
      (ls.map entry).map (tables t.symbols).locate :: readings s.connection.written) :
    Agrees (t, sources :: g) := by
  subst hsources
  refine ⟨?_, fun hone => ?_⟩
  · show (readings t.connection.written).map _ = _
    rw [hread, List.map_cons, List.map_cons, h.calls, List.map_map, List.map_map, List.map_map]
    refine congrArg (· :: _) (List.map_congr_left fun l hl => ?_)
    exact call_of_interned hinv.toTables (hinterned l hl)
  · show readings t.connection.written = _
    have hbefore : Agrees ({ s with symbols := t.symbols }, g) := h.transfer rfl hgrown
    rw [hread, hbefore.files hone, List.map_cons, List.map_map, List.map_map]
    refine congrArg (· :: _) (List.map_congr_left fun l hl => ?_)
    exact source_of_interned hinv.toTables hone (hinterned l hl)

theorem Image.calls_eq (image : Image) {x : Trace}
    (hlen : x.answers.length = (readFrames x.trace).length) :
    image.calls x = if decide (x.trace.numFrames < 0) then [] else
      ((readFrames x.trace).zip x.answers).flatMap fun p => image.sources p.1.frame := by
  have hframes : ((readFrames x.trace).zip x.answers).map Prod.fst = readFrames x.trace :=
    List.map_fst_zip (by omega)
  rw [Image.calls, ← hframes, List.flatMap_map, hframes]
  simp only [decide_eq_true_eq]

/-- The walk of a trace whose answers are those of the process. -/
theorem Inv.walk (hi : Inv image s g) {x : Trace} {outcomes : List Outcome}
    (hok : Honest image s (.stackTrace x outcomes)) :
    Walked image (decide (x.trace.numFrames < 0)) s.symbols ((readFrames x.trace).zip x.answers)
      (x.walk s.symbols) := by
  obtain ⟨-, hroom, htells⟩ := hok
  obtain ⟨hanswers, hforeign⟩ := htells x outcomes rfl
  have hroom : s.symbols.nextId.toNat + 2 * (x.answers.map fun a => a.pcinfo.length).sum < 2 ^ 64 :=
    hroom
  have hzip : (readFrames x.trace).zip x.answers =
      (readFrames x.trace).map fun frame => (frame, image.answers frame.frame) := by
    rw [hanswers]
    conv_lhs => enter [1]; rw [← List.map_id (readFrames x.trace)]
    exact List.zip_map'
  refine hi.sourced.walk _ _ (fun p hp => ?_) ?_
  · rw [hzip] at hp
    obtain ⟨frame, hframe, rfl⟩ := List.mem_map.mp hp
    exact ⟨hforeign frame hframe, rfl⟩
  · have hsnd : ((readFrames x.trace).zip x.answers).map Prod.snd = x.answers :=
      List.map_snd_zip (by rw [hanswers, List.length_map])
    rw [← hsnd, List.map_map] at hroom
    exact hroom

section

variable {x : Trace} {outcomes : List Outcome}

theorem note_of_lost (h : readings t.connection.written = readings s.connection.written) :
    note image g s (.stackTrace x outcomes) t = g :=
  if_neg (by rw [h]; exact Nat.lt_irrefl _)

theorem note_of_written {r : List (Option Source)}
    (h : readings t.connection.written = r :: readings s.connection.written) :
    note image g s (.stackTrace x outcomes) t = image.calls x :: g :=
  if_pos (by rw [h]; exact Nat.lt_succ_self _)

end

theorem Inv.stackTrace (hi : Inv image s g) {x : Trace} {outcomes : List Outcome}
    (hanswers : x.answers.length = (readFrames x.trace).length)
    (houtcomes : outcomes.length = (x.messages s.symbols).length)
    (hok : Honest image s (.stackTrace x outcomes))
    (ht : t = {
      symbols := (x.walk s.symbols).symbols
      connection := sendAll s.connection ((x.messages s.symbols).zip outcomes) }) :
    Inv image t (note image g s (.stackTrace x outcomes) t) := by
  have hw := hi.walk hok
  obtain ⟨ls, hentries, hinterned, hsources⟩ := hw.entries
  -- the announcements first, and the sample behind them
  rcases List.eq_nil_or_concat outcomes with rfl | ⟨os, o, rfl⟩
  · simp [Trace.messages] at houtcomes
  rw [List.concat_eq_append] at houtcomes hok ht ⊢
  have hlen : os.length = (x.walk s.symbols).messages.length := by
    simpa [Trace.messages] using houtcomes
  have hzip : (x.messages s.symbols).zip (os ++ [o]) = (x.walk s.symbols).messages.zip os ++
      [(.stackSample (x.sample (x.walk s.symbols).entries), o)] := List.zip_append hlen.symm
  have hnoticed : Noticed s.connection ((x.messages s.symbols).zip (os ++ [o])) := hok.1
  rw [hzip] at hnoticed
  obtain ⟨hread, hlearn⟩ :=
    sendAll_announcements hw.booked.announces hlen (noticed_of_append hnoticed)
  rw [hzip, sendAll_append] at ht
  generalize hc : sendAll s.connection ((x.walk s.symbols).messages.zip os) = c at *
  obtain ⟨hdir, hsample⟩ := sendWithSize_sample c (x.sample (x.walk s.symbols).entries) o
  have hsymbols : t.symbols = (x.walk s.symbols).symbols := by rw [ht]
  have hconnection : t.connection =
      sendWithSize c (.stackSample (x.sample (x.walk s.symbols).entries)) o := by rw [ht]; rfl
  have hbooked : c.isConnected = true → directory c.written = tables t.symbols := fun hconn => by
    obtain ⟨hconn', hdirectory⟩ := hlearn hconn
    rw [hdirectory, hi.kept hconn', hw.booked.learnt, hsymbols]
  rw [← hconnection] at hdir hsample
  refine ⟨hsymbols ▸ hw.sourced, fun hconn => ?_, ?_⟩
  · obtain ⟨hconn', hdirectory⟩ := hdir hconn
    exact hdirectory.trans (hbooked hconn')
  · have hgrown : Grown s.symbols t.symbols := hsymbols ▸ hw.grown
    rw [hread] at hsample
    rcases hsample with hlost | ⟨hconn, hwritten⟩
    · rw [note_of_lost hlost]
      exact hi.agrees.transfer hlost hgrown
    · rw [note_of_written hwritten]
      refine hi.agrees.cons (hsymbols ▸ hw.sourced.inv) (hsymbols ▸ hinterned) ?_ hgrown ?_
      · rw [hsources, image.calls_eq hanswers]
      · rw [hwritten, hbooked hconn, ← hentries]
        rfl

theorem Inv.next (hi : Inv image s g) {a : Label} (hok : Honest image s a)
    (hs : step s a = some t) : Inv image t (note image g s a t) := by
  cases a with
  | connect =>
    cases hs
    exact ⟨⟨Decode.clearSymbols_inv hi.sourced.inv, nofun⟩, fun _ => rfl, rfl, fun _ => rfl⟩
  | disconnect =>
    cases hs
    exact ⟨hi.sourced, nofun, hi.agrees.transfer rfl (.same rfl rfl)⟩
  | send o =>
    cases hs
    obtain ⟨hread, hlearn⟩ := sendWithSize_other s.connection o
    refine ⟨hi.sourced, fun hconn => ?_, hi.agrees.transfer hread (.same rfl rfl)⟩
    obtain ⟨hconn', hdirectory⟩ := hlearn hconn
    exact hdirectory.trans (hi.kept hconn')
  | stackTrace x outcomes =>
    obtain ⟨⟨hanswers, houtcomes⟩, ht⟩ := Option.ite_some_none_eq_some.mp hs
    exact hi.stackTrace hanswers houtcomes hok ht.symm

end runs

/-- **The collector reads what was sampled**: from the messages of a connection alone, in
every run in which no announcement is lost unnoticed and the ids do not run out. -/
theorem collector_reads_sources (image : Image) (labels : List Label)
    (h : Steps step (Honest image) init labels) :
    Along (recording step (note image)) Agrees (init, []) labels := by
  have hstep : ∀ x a y, Inv image x.1 x.2 → Honest image x.1 a →
      recording step (note image) x a = some y → Inv image y.1 y.2 := by
    intro x a y hx ha hr
    obtain ⟨hy, hnote⟩ := recording_eq_some.mp hr
    rw [hnote]
    exact hx.next ha hy
  exact (along_of_invariant (I := fun x => Inv image x.1 x.2) hstep (init_inv image)
    (steps_fst.mpr h)).mono fun x hx => hx.agrees

/-- Two functions at one address, one inlined in the other, looked up once and then cached. -/
def inlined : Image where
  isForeign _ := true
  answers _ := ⟨[], [⟨some "list.ml", 12, some "map", none⟩, ⟨some "main.ml", 3, some "run", none⟩]⟩

def sampled : Trace where
  trace := ⟨4, List.replicate 4 ⟨true, 16⟩⟩
  answers := [inlined.answers 16]
  controller := ⟨10, 0⟩
  signum := Prometheus.Exporter.sigprof
  threadState := 0

theorem inlined_read :
    let labels : List Label := [.connect, .stackTrace sampled (List.replicate 5 ⟨0, false⟩),
      .stackTrace sampled [⟨0, false⟩]]
    (run step init labels).map (fun s => readings s.connection.written) =
      some (List.replicate 2 [some ⟨"map", "list.ml", 12⟩, some ⟨"run", "main.ml", 3⟩]) ∧
    Along (recording step (note inlined)) Agrees (init, []) labels := by
  have hwritten : ∀ (c : Connection) (ms : List Message) (n : Nat),
      Noticed c (ms.zip (List.replicate n ⟨0, false⟩)) := by
    intro c ms n
    induction ms generalizing c n with
    | nil => trivial
    | cons m ms ih =>
      cases n with
      | zero => trivial
      | succ n => exact ⟨fun _ _ h => absurd rfl h, ih _ n⟩
  have htells : inlined.Tells sampled := ⟨by decide, by decide⟩
  refine ⟨by decide, collector_reads_sources inlined _ ?_⟩
  refine .cons rfl ⟨trivial, trivial, nofun⟩
    (.cons rfl ⟨?_, ?_, ?_⟩ (.cons rfl ⟨?_, ?_, ?_⟩ trivial))
  · exact hwritten _ _ 5
  · unfold Room
    decide
  · intro x outcomes h
    cases h
    exact htells
  · exact hwritten _ _ 1
  · unfold Room
    decide
  · intro x outcomes h
    cases h
    exact htells

end Opsian.Writer.Reconstruction
