import Opsian.Lib.Runs
import Opsian.Symbols.SymbolTable
import Opsian.Writer.LogWriter

/-! # Method ids are announced on the connection that uses them

The symbol table calls a name known before its announcement is sent, and nobody asks
how the send has ended. A new connection clears the symbols, so what counts is the
announcements that were lost on a connection that goes on. -/
namespace Opsian.Writer.Announcements
open Opsian.Lib Opsian.Lib.Runs Opsian.Symbols Opsian.Writer.LogWriter
open Opsian.Symbols.SymbolTable (Answers PcInfo Found Location)
open Opsian.Prometheus.Exporter (CallFrame CallTrace)

inductive Message where
  | moduleInformation (moduleId : Int64) (filename : String)
  | methodInformation (methodId moduleId : Int64) (methodName : String)
  | stackSample (sample : StackSample)
  /-- Hellos, heartbeats, metrics and whatever else is sent. -/
  | other
  deriving DecidableEq, Repr

def Message.announces : Message → Bool
  | .moduleInformation .. | .methodInformation .. => true
  | .stackSample _ | .other => false

/-! ## The messages of a stack trace -/

/-- `onNewFile`, where `recordFile` calls it. -/
def fileMessages (s : SymbolTable.State) (fileName : String) : List Message :=
  match s.knownFileToIds.lookup fileName with
  | some _ => []
  | none => [.moduleInformation s.nextId.toInt64 fileName]

/-- `onNewFunction`, where `handlePcInfo` calls it. -/
def functionMessages (s : SymbolTable.State) (name : String) (fileId : UInt64) : List Message :=
  match s.knownMethodToIds.lookup name with
  | some _ => []
  | none => [.methodInformation s.nextId.toInt64 fileId.toInt64 name]

def btMessages (s : SymbolTable.State) (info : PcInfo) : List Message :=
  match info.btFileName with
  | some f => fileMessages s f
  | none => []

def dlMessages (x : Found) (info : PcInfo) : List Message :=
  if x.fileId = 0 then
    match info.dladdr.bind SymbolTable.DlInfo.fname with
    | some f => fileMessages x.state f
    | none => []
  else []

/-- What `handlePcInfo` sends, in its order. -/
def pcInfoMessages (s : SymbolTable.State) (info : PcInfo) : List Message :=
  let bt := SymbolTable.btFile s info
  let x := SymbolTable.dlFile bt info
  btMessages s info ++ dlMessages bt info ++
    functionMessages x.state (SymbolTable.functionName s.currentSymbolName info) x.fileId

def pcInfosMessages (s : SymbolTable.State) : List PcInfo → List Message
  | [] => []
  | info :: infos =>
    pcInfoMessages s info ++ pcInfosMessages (SymbolTable.handlePcInfo s info) infos

/-- The symbol table when `backtrace_pcinfo` is called. -/
def begin (s : SymbolTable.State) (isForeign : Bool) (answers : Answers) : SymbolTable.State :=
  let s := { s with currentLocations := [], currentSymbolName := "" }
  if isForeign then s else answers.syminfo.foldl SymbolTable.handleSyminfo s

def lookupMessages (s : SymbolTable.State) (pc : UInt64) (isForeign : Bool) (answers : Answers) :
    List Message :=
  match s.knownAddrToLocations.lookup pc with
  | some _ => []
  | none => pcInfosMessages (begin s isForeign answers) answers.pcinfo

/-- What the walk of a trace leaves: the symbol table, the messages sent on the way, and
the entries of the sample. -/
structure Walk where
  symbols : SymbolTable.State
  messages : List Message
  entries : List CompressedFrameEntry

/-- The loop of `recordStackTrace`, with libbacktrace's answers for each frame. -/
def walk (isError : Bool) (s : SymbolTable.State) : List (CallFrame × Answers) → Walk
  | [] => ⟨s, [], []⟩
  | (frame, answers) :: frames =>
    let t := SymbolTable.lookupLocations s frame.frame frame.isForeign answers
    let w := walk isError t frames
    ⟨w.symbols, lookupMessages s frame.frame frame.isForeign answers ++ w.messages,
      addFrames isError t.returned ++ w.entries⟩

/-- A stack trace as it is popped, with the answers for its frames. -/
structure Trace where
  trace : CallTrace
  answers : List Answers
  controller : Intervals
  signum : Int
  threadState : Int
  deriving DecidableEq, Repr

def Trace.walk (x : Trace) (s : SymbolTable.State) : Walk :=
  Announcements.walk (decide (x.trace.numFrames < 0)) s ((readFrames x.trace).zip x.answers)

def Trace.sample (x : Trace) (entries : List CompressedFrameEntry) : StackSample where
  type := (setSampleType x.controller x.signum).1
  sampleRateMillis := (setSampleType x.controller x.signum).2
  threadState := x.threadState
  compressedFrames := entries
  errorCode := if x.trace.numFrames < 0 then x.trace.numFrames else 0
  hasMaxFrames := decide (maxFrames ≤ x.trace.numFrames.natAbs)

/-- All that `recordStackTrace` sends. -/
def Trace.messages (x : Trace) (s : SymbolTable.State) : List Message :=
  (x.walk s).messages ++ [.stackSample (x.sample (x.walk s).entries)]

/-! ## The connection -/

/-- The codes that `sendWithSize` takes for a lost connection: `connection_reset`,
`broken_pipe`, `io_error`, `network_down`, `network_reset`, `network_unreachable`. -/
def lostCodes : List Nat := [104, 32, 5, 100, 102, 101]

/-- How a write ends. -/
structure Outcome where
  /-- The value of the error code, 0 for success. -/
  ec : Nat
  /-- A handler that ran meanwhile has closed the socket: the write's timeout, or the
  receive timer's disconnect. -/
  closed : Bool
  deriving DecidableEq, Repr

/-- The connection is there after the write. -/
def Outcome.stays (o : Outcome) : Bool := !o.closed && !decide (o.ec ∈ lostCodes)

structure Connection where
  isConnected : Bool
  /-- What has been written on the latest connection, newest first. -/
  written : List Message
  deriving DecidableEq, Repr

def sendWithSize (c : Connection) (m : Message) (o : Outcome) : Connection :=
  if c.isConnected then
    { isConnected := o.stays
      written := if o.ec = 0 then m :: c.written else c.written }
  else c

def sendAll (c : Connection) : List (Message × Outcome) → Connection
  | [] => c
  | (m, o) :: sends => sendAll (sendWithSize c m o) sends

structure State where
  symbols : SymbolTable.State
  connection : Connection

def init : State where
  symbols := SymbolTable.init
  connection := ⟨false, []⟩

inductive Label where
  /-- The network has connected; `onSocketConnected` clears the symbols. -/
  | connect
  | disconnect
  /-- Something other than a stack trace is sent. -/
  | send (o : Outcome)
  | stackTrace (x : Trace) (outcomes : List Outcome)
  deriving DecidableEq, Repr

def step (s : State) : Label → Option State
  | .connect =>
    some { symbols := SymbolTable.clearSymbols s.symbols, connection := ⟨true, []⟩ }
  | .disconnect => some { s with connection := { s.connection with isConnected := false } }
  | .send o => some { s with connection := sendWithSize s.connection .other o }
  | .stackTrace x outcomes =>
    if x.answers.length = (readFrames x.trace).length ∧
        outcomes.length = (x.messages s.symbols).length then
      some {
        symbols := (x.walk s.symbols).symbols
        connection := sendAll s.connection ((x.messages s.symbols).zip outcomes) }
    else none

/-! ## What the collector can make of it -/

/-- The method is defined by one of the messages. -/
def Defines (ms : List Message) (methodId : Int64) : Prop :=
  ∃ moduleId name, .methodInformation methodId moduleId name ∈ ms

/-- What a message refers to is defined by earlier ones. -/
def Defined (earlier : List Message) : Message → Prop
  | .stackSample sample => ∀ e ∈ sample.compressedFrames, Defines earlier e.methodId
  | .methodInformation _ moduleId _ =>
    moduleId ≠ 0 → ∃ filename, .moduleInformation moduleId filename ∈ earlier
  | .moduleInformation .. | .other => True

/-- Every message that was written, newest first, is defined. -/
def AllDefined : List Message → Prop
  | [] => True
  | m :: earlier => Defined earlier m ∧ AllDefined earlier

def Sound (s : State) : Prop := AllDefined s.connection.written

/-- No announcement is lost on a connection that goes on. -/
def Noticed (c : Connection) : List (Message × Outcome) → Prop
  | [] => True
  | (m, o) :: sends =>
    (c.isConnected = true → m.announces = true → o.ec ≠ 0 → o.stays = false) ∧
      Noticed (sendWithSize c m o) sends

def Told (s : State) : Label → Prop
  | .stackTrace x outcomes => Noticed s.connection ((x.messages s.symbols).zip outcomes)
  | _ => True

/-! ## The sample is the log writer's -/

section Sample

variable {s : SymbolTable.State} {pc : UInt64} {ls : List Location}

/-- A walk clears nothing. -/
theorem walk_known (h : s.knownAddrToLocations.lookup pc = some ls) (isError : Bool)
    (frames : List (CallFrame × Answers)) :
    (walk isError s frames).symbols.knownAddrToLocations.lookup pc = some ls := by
  induction frames generalizing s with
  | nil => exact h
  | cons head frames ih =>
    have hrun : run SymbolTable.step s [.lookup head.1.frame head.1.isForeign head.2] =
        some (SymbolTable.lookupLocations s head.1.frame head.1.isForeign head.2) := rfl
    exact ih (SymbolTable.known_of_run h (by simp) hrun)

/-- The locations of a frame, once it has been looked up. -/
def locationsOf (t : SymbolTable.State) (frame : CallFrame) : List Location :=
  (t.knownAddrToLocations.lookup frame.frame).getD []

theorem walk_entries (isError : Bool) (s : SymbolTable.State)
    (frames : List (CallFrame × Answers)) :
    (walk isError s frames).entries = (frames.map Prod.fst).flatMap fun frame =>
      addFrames isError (locationsOf (walk isError s frames).symbols frame) := by
  induction frames generalizing s with
  | nil => rfl
  | cons head frames ih =>
    have hhead := walk_known
      (SymbolTable.lookup_known s head.1.frame head.1.isForeign head.2) isError frames
    simp only [walk, List.map_cons, List.flatMap_cons, locationsOf, hhead, Option.getD_some]
    rw [ih]
    rfl

/-- `recordStackTrace` sends the sample that it makes of the locations. -/
theorem sample_eq_recordStackTrace (x : Trace) (s : SymbolTable.State)
    (hlen : x.answers.length = (readFrames x.trace).length) :
    x.sample (x.walk s).entries = recordStackTrace (locationsOf (x.walk s).symbols)
      x.controller x.trace x.signum x.threadState := by
  have hframes : ((readFrames x.trace).zip x.answers).map Prod.fst = readFrames x.trace :=
    List.map_fst_zip (by omega)
  have hentries := walk_entries (decide (x.trace.numFrames < 0)) s
    ((readFrames x.trace).zip x.answers)
  rw [hframes] at hentries
  simp only [Trace.walk, Trace.sample, recordStackTrace, hentries, decide_eq_true_eq]

end Sample

/-! ## The messages announce what they use -/

section Symbols

/-- Whatever the symbol table knows is announced by one of the messages. -/
structure Known (base : List Message) (s : SymbolTable.State) : Prop where
  files : ∀ f id, s.knownFileToIds.lookup f = some id →
    ∃ filename, .moduleInformation id.toInt64 filename ∈ base
  methods : ∀ n id, s.knownMethodToIds.lookup n = some id → Defines base id.toInt64
  cached : ∀ pc ls, s.knownAddrToLocations.lookup pc = some ls →
    ∀ l ∈ ls, Defines base l.methodId.toInt64
  current : ∀ l ∈ s.currentLocations, Defines base l.methodId.toInt64

/-- Each message is defined by those before it. -/
def Follows (base : List Message) : List Message → Prop
  | [] => True
  | m :: ms => Defined base m ∧ Follows (m :: base) ms

/-- The messages are defined, and the symbol table knows no more than they announce. -/
structure Carries (base ms : List Message) (t : SymbolTable.State) : Prop where
  follows : Follows base ms
  known : Known (ms.reverse ++ base) t

variable {base base' ms ms' : List Message} {s t u : SymbolTable.State}

theorem Defines.mono {methodId : Int64} (h : Defines base methodId)
    (hsub : ∀ m ∈ base, m.announces = true → m ∈ base') : Defines base' methodId := by
  obtain ⟨moduleId, name, hm⟩ := h
  exact ⟨moduleId, name, hsub _ hm rfl⟩

theorem Defined.mono {m : Message} (h : Defined base m)
    (hsub : ∀ m ∈ base, m.announces = true → m ∈ base') : Defined base' m := by
  cases m with
  | stackSample sample => exact fun e he => (h e he).mono hsub
  | methodInformation methodId moduleId name =>
    intro hne
    obtain ⟨filename, hm⟩ := h hne
    exact ⟨filename, hsub _ hm rfl⟩
  | moduleInformation moduleId filename => trivial
  | other => trivial

theorem Known.mono (h : Known base s) (hsub : ∀ m ∈ base, m ∈ base') : Known base' s where
  files f id hf := by
    obtain ⟨filename, hm⟩ := h.files f id hf
    exact ⟨filename, hsub _ hm⟩
  methods n id hn := (h.methods n id hn).mono fun m hm _ => hsub m hm
  cached pc ls hls l hl := (h.cached pc ls hls l hl).mono fun m hm _ => hsub m hm
  current l hl := (h.current l hl).mono fun m hm _ => hsub m hm

theorem Follows.append (h : Follows base ms) (h' : Follows (ms.reverse ++ base) ms') :
    Follows base (ms ++ ms') := by
  induction ms generalizing base with
  | nil => exact h'
  | cons m ms ih =>
    refine ⟨h.1, ih h.2 ?_⟩
    rw [List.reverse_cons, List.append_assoc] at h'
    exact h'

theorem Known.carries (h : Known base s) : Carries base [] s := ⟨trivial, h⟩

theorem Carries.trans (h : Carries base ms t) (h' : Carries (ms.reverse ++ base) ms' u) :
    Carries base (ms ++ ms') u := by
  refine ⟨h.follows.append h'.follows, ?_⟩
  rw [List.reverse_append, List.append_assoc]
  exact h'.known

/-- The file is announced, or there is none. -/
def Filed (base : List Message) (fileId : UInt64) : Prop :=
  fileId = 0 ∨ ∃ filename, .moduleInformation fileId.toInt64 filename ∈ base

theorem recordFile_carries (h : Known base s) (f : String) :
    Carries base (fileMessages s f) (SymbolTable.recordFile s f).1 ∧
      Filed ((fileMessages s f).reverse ++ base) (SymbolTable.recordFile s f).2 := by
  unfold fileMessages SymbolTable.recordFile
  cases hf : s.knownFileToIds.lookup f with
  | some id => exact ⟨h.carries, .inr (h.files f id hf)⟩
  | none =>
    have hold : Known (.moduleInformation s.nextId.toInt64 f :: base) s :=
      h.mono fun m hm => List.mem_cons_of_mem _ hm
    refine ⟨⟨⟨trivial, trivial⟩, { hold with files := fun g id hg => ?_ }⟩,
      .inr ⟨f, List.mem_cons_self⟩⟩
    rcases Table.lookup_insert_cases hg with ⟨-, rfl⟩ | ⟨-, hg⟩
    · exact ⟨f, List.mem_cons_self⟩
    · exact hold.files g id hg

theorem btFile_carries (h : Known base s) (info : PcInfo) :
    Carries base (btMessages s info) (SymbolTable.btFile s info).state ∧
      Filed ((btMessages s info).reverse ++ base) (SymbolTable.btFile s info).fileId := by
  unfold btMessages SymbolTable.btFile
  cases info.btFileName with
  | some f => exact recordFile_carries h f
  | none => exact ⟨h.carries, .inl rfl⟩

theorem dlFile_carries {x : Found} (h : Known base x.state) (hx : Filed base x.fileId)
    (info : PcInfo) :
    Carries base (dlMessages x info) (SymbolTable.dlFile x info).state ∧
      Filed ((dlMessages x info).reverse ++ base) (SymbolTable.dlFile x info).fileId := by
  unfold dlMessages SymbolTable.dlFile
  split
  · cases info.dladdr.bind SymbolTable.DlInfo.fname with
    | some f => exact recordFile_carries h f
    | none => exact ⟨h.carries, hx⟩
  · exact ⟨h.carries, hx⟩

theorem recordFunction_carries (h : Known base s) {fileId : UInt64} (hfile : Filed base fileId)
    (name : String) :
    Carries base (functionMessages s name fileId) (SymbolTable.recordFunction s name fileId).1 ∧
      Defines ((functionMessages s name fileId).reverse ++ base)
        (SymbolTable.recordFunction s name fileId).2.toInt64 := by
  unfold functionMessages SymbolTable.recordFunction
  cases hn : s.knownMethodToIds.lookup name with
  | some id => exact ⟨h.carries, h.methods name id hn⟩
  | none =>
    have hold : Known (.methodInformation s.nextId.toInt64 fileId.toInt64 name :: base) s :=
      h.mono fun m hm => List.mem_cons_of_mem _ hm
    have hnew : Defines (.methodInformation s.nextId.toInt64 fileId.toInt64 name :: base)
        s.nextId.toInt64 := ⟨_, _, List.mem_cons_self⟩
    refine ⟨⟨⟨fun hne => ?_, trivial⟩, { hold with methods := fun n id hid => ?_ }⟩, hnew⟩
    · exact hfile.resolve_left fun h0 => hne (by rw [h0]; rfl)
    · rcases Table.lookup_insert_cases hid with ⟨-, rfl⟩ | ⟨-, hid⟩
      · exact hnew
      · exact hold.methods n id hid

theorem handlePcInfo_carries (h : Known base s) (info : PcInfo) :
    Carries base (pcInfoMessages s info) (SymbolTable.handlePcInfo s info) := by
  obtain ⟨hbt, hbtFile⟩ := btFile_carries h info
  obtain ⟨hdl, hdlFile⟩ := dlFile_carries hbt.known hbtFile info
  obtain ⟨hfunction, hdefines⟩ := recordFunction_carries hdl.known hdlFile
    (SymbolTable.functionName s.currentSymbolName info)
  rw [← List.append_assoc, ← List.reverse_append] at hfunction
  have hall := (hbt.trans hdl).trans hfunction
  refine ⟨hall.follows, { hall.known with current := fun l hl => ?_ }⟩
  rcases List.mem_append.mp hl with hl | hl
  · exact hall.known.current l hl
  · cases List.mem_singleton.mp hl
    refine hdefines.mono fun m hm _ => ?_
    simp only [pcInfoMessages, List.reverse_append, List.append_assoc]
    exact hm

theorem foldl_handlePcInfo_carries (h : Known base s) (infos : List PcInfo) :
    Carries base (pcInfosMessages s infos) (infos.foldl SymbolTable.handlePcInfo s) := by
  induction infos generalizing base s with
  | nil => exact h.carries
  | cons info infos ih =>
    have hinfo := handlePcInfo_carries h info
    exact hinfo.trans (ih hinfo.known)

/-- Between two lookups, the locations of the last one do not count. -/
def forget (s : SymbolTable.State) : SymbolTable.State := { s with currentLocations := [] }

theorem Known.forget (h : Known base s) : Known base (forget s) := { h with current := nofun }

theorem Known.begin (h : Known base (Announcements.forget s)) (isForeign : Bool)
    (answers : Answers) : Known base (begin s isForeign answers) := by
  have hstart : Known base { s with currentLocations := [], currentSymbolName := "" } :=
    { h with }
  unfold Announcements.begin
  split
  · exact hstart
  · generalize answers.syminfo = names
    generalize ({ s with currentLocations := [], currentSymbolName := "" } :
      SymbolTable.State) = t at hstart
    induction names generalizing t with
    | nil => exact hstart
    | cons name names ih =>
      refine ih _ ?_
      cases name with
      | none => exact hstart
      | some name => exact { hstart with }

theorem lookupLocations_carries (h : Known base (forget s)) (pc : UInt64) (isForeign : Bool)
    (answers : Answers) :
    Carries base (lookupMessages s pc isForeign answers)
        (forget (SymbolTable.lookupLocations s pc isForeign answers)) ∧
      ∀ l ∈ (SymbolTable.lookupLocations s pc isForeign answers).returned,
        Defines ((lookupMessages s pc isForeign answers).reverse ++ base) l.methodId.toInt64 := by
  unfold lookupMessages SymbolTable.lookupLocations
  cases hpc : s.knownAddrToLocations.lookup pc with
  | some ls => exact ⟨⟨trivial, { h with }⟩, fun l hl => h.cached pc ls hpc l hl⟩
  | none =>
    have hall := foldl_handlePcInfo_carries (h.begin isForeign answers) answers.pcinfo
    refine ⟨⟨hall.follows, { hall.known.forget with cached := fun pc' ls hls l hl => ?_ }⟩,
      fun l hl => hall.known.current l hl⟩
    rcases Table.lookup_emplace_cases hls with ⟨-, rfl⟩ | hls
    · exact hall.known.current l hl
    · exact hall.known.cached pc' ls hls l hl

theorem walk_carries (h : Known base (forget s)) (isError : Bool)
    (frames : List (CallFrame × Answers)) :
    Carries base (walk isError s frames).messages (forget (walk isError s frames).symbols) ∧
      ∀ e ∈ (walk isError s frames).entries,
        Defines ((walk isError s frames).messages.reverse ++ base) e.methodId := by
  induction frames generalizing base s with
  | nil => exact ⟨h.carries, nofun⟩
  | cons head frames ih =>
    obtain ⟨frame, answers⟩ := head
    obtain ⟨hlookup, hreturned⟩ := lookupLocations_carries h frame.frame frame.isForeign answers
    obtain ⟨hrest, hentries⟩ := ih hlookup.known
    refine ⟨hlookup.trans hrest, fun e he => ?_⟩
    simp only [walk, List.reverse_append, List.append_assoc]
    rcases List.mem_append.mp he with he | he
    · unfold addFrames at he
      split at he
      · cases he
      · obtain ⟨l, hl, rfl⟩ := List.mem_map.mp he
        exact (hreturned l hl).mono fun m hm _ => List.mem_append_right _ hm
    · exact hentries e he

/-- The messages of a stack trace are defined, its sample last. -/
theorem messages_carries (h : Known base (forget s)) (x : Trace) :
    Carries base (x.messages s) (forget (x.walk s).symbols) := by
  obtain ⟨hwalk, hentries⟩ := walk_carries h (decide (x.trace.numFrames < 0))
    ((readFrames x.trace).zip x.answers)
  refine hwalk.trans ⟨⟨fun e he => hentries e he, trivial⟩, ?_⟩
  exact hwalk.known.mono fun m hm => List.mem_cons_of_mem _ hm

end Symbols

/-! ## The connection keeps what is announced -/

section Connection

variable {base ms : List Message} {c : Connection} {m : Message} {o : Outcome}

/-- While the connection is there, every announcement that was sent is written. -/
structure Tracks (base : List Message) (c : Connection) : Prop where
  kept : c.isConnected = true → ∀ m ∈ base, m.announces = true → m ∈ c.written
  sound : AllDefined c.written

theorem Tracks.send (h : Tracks base c) (hm : Defined base m)
    (ho : c.isConnected = true → m.announces = true → o.ec ≠ 0 → o.stays = false) :
    Tracks (m :: base) (sendWithSize c m o) := by
  unfold sendWithSize
  split
  · rename_i hc
    have hkept := h.kept hc
    by_cases hec : o.ec = 0
    · rw [if_pos hec]
      refine ⟨fun _ m' hm' ha => ?_, hm.mono hkept, h.sound⟩
      rcases List.mem_cons.mp hm' with rfl | hm'
      · exact List.mem_cons_self
      · exact List.mem_cons_of_mem _ (hkept m' hm' ha)
    · rw [if_neg hec]
      refine ⟨fun hstays m' hm' ha => ?_, h.sound⟩
      rcases List.mem_cons.mp hm' with rfl | hm'
      · cases (ho hc ha hec).symm.trans hstays
      · exact hkept m' hm' ha
  · rename_i hc
    exact ⟨fun hc' => absurd hc' hc, h.sound⟩

theorem Tracks.sendAll {outcomes : List Outcome} (h : Tracks base c) (hms : Follows base ms)
    (hlen : outcomes.length = ms.length) (ho : Noticed c (ms.zip outcomes)) :
    Tracks (ms.reverse ++ base) (sendAll c (ms.zip outcomes)) := by
  induction ms generalizing base c outcomes with
  | nil => exact h
  | cons m ms ih =>
    cases outcomes with
    | nil => cases hlen
    | cons o outcomes =>
      rw [List.reverse_cons, List.append_assoc]
      exact ih (h.send hms.1 ho.1) hms.2 (Nat.succ.inj hlen) ho.2

theorem Tracks.mono {base' : List Message} (h : Tracks base c)
    (hsub : ∀ m ∈ base', m.announces = true → m ∈ base) : Tracks base' c :=
  ⟨fun hc m hm ha => h.kept hc m (hsub m hm ha) ha, h.sound⟩

end Connection

/-! ## Runs -/

variable {s t : State}

/-- The messages sent since the connect announce all that the symbol table knows. -/
def Inv (s : State) : Prop := ∃ base, Known base (forget s.symbols) ∧ Tracks base s.connection

theorem known_empty {u : SymbolTable.State} (hf : u.knownFileToIds = ∅)
    (hm : u.knownMethodToIds = ∅) (hc : u.knownAddrToLocations = ∅) (hl : u.currentLocations = []) :
    Known [] u := by
  refine ⟨?_, ?_, ?_, ?_⟩
  · intro f id h
    rw [hf, AList.lookup_empty] at h
    cases h
  · intro n id h
    rw [hm, AList.lookup_empty] at h
    cases h
  · intro pc ls h
    rw [hc, AList.lookup_empty] at h
    cases h
  · rw [hl]
    exact nofun

theorem init_inv : Inv init :=
  ⟨[], known_empty rfl rfl rfl rfl, nofun, trivial⟩

theorem Inv.next {a : Label} (h : Inv s) (hok : Told s a) (hs : step s a = some t) : Inv t := by
  obtain ⟨base, hknown, htracks⟩ := h
  cases a with
  | connect =>
    cases hs
    exact ⟨[], known_empty rfl rfl rfl rfl, nofun, trivial⟩
  | disconnect =>
    cases hs
    exact ⟨base, hknown, nofun, htracks.sound⟩
  | send o =>
    cases hs
    refine ⟨base, hknown, (htracks.send (m := .other) trivial nofun).mono ?_⟩
    exact fun m hm _ => List.mem_cons_of_mem _ hm
  | stackTrace x outcomes =>
    obtain ⟨⟨-, hlen⟩, rfl⟩ := Option.ite_some_none_eq_some.mp hs
    have hcarries := messages_carries hknown x
    exact ⟨_, hcarries.known, htracks.sendAll hcarries.follows hlen hok⟩

/-- **Method ids are defined on the connection that uses them**, and their modules
before them, in a run where no announcement is lost on a connection that goes on. -/
theorem sound_of_told (labels : List Label) (h : Steps step Told init labels) :
    Along step Sound init labels :=
  (along_of_invariant (fun _ _ _ hi hok hs => hi.next hok hs) init_inv h).mono
    fun _ ⟨_, _, htracks⟩ => htracks.sound

/-- A sample of one frame, in a file and a function that are new. -/
def newFrame : Trace where
  trace := ⟨4, List.replicate 4 ⟨true, 16⟩⟩
  answers := [⟨[], [⟨some "a.ml", 7, some "f", none⟩]⟩]
  controller := ⟨10, 0⟩
  signum := Prometheus.Exporter.sigprof
  threadState := 0

theorem newFrame_sound :
    (∃ t, run step init [.connect, .stackTrace newFrame [⟨0, false⟩, ⟨0, false⟩, ⟨0, false⟩]] =
      some t ∧ t.connection.written.length = 3) ∧
    Along step Sound init
      [.connect, .stackTrace newFrame [⟨0, false⟩, ⟨0, false⟩, ⟨0, false⟩]] := by
  refine ⟨⟨_, rfl, rfl⟩, sound_of_told _ (.cons rfl trivial (.cons rfl ?_ trivial))⟩
  exact ⟨fun _ _ h => absurd rfl h, fun _ _ h => absurd rfl h, fun _ _ h => absurd rfl h, trivial⟩

/-- `no_buffer_space`: the method is not announced, its sample is sent all the same. -/
theorem method_unannounced : ¬ Along step Sound init
    [.connect, .stackTrace newFrame [⟨0, false⟩, ⟨105, false⟩, ⟨0, false⟩]] := by
  refine not_along_of_run (List.prefix_refl _) rfl fun h => ?_
  obtain ⟨moduleId, name, hm⟩ := h.1 _ List.mem_cons_self
  cases hm with
  | tail _ hm => cases hm

end Opsian.Writer.Announcements
