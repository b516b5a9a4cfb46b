import Mathlib.Data.List.Infix
import Opsian.Lib.Forest
import Opsian.Lib.History
import Opsian.Symbols.SymbolTable

/-! # The Prometheus exporter

The queue listener counts stack traces in a tree of program counters, and a
scrape of `/metrics` prints the nodes that were seen since the scrape before it
and starts the counts over. What `lookup_locations` answers for a program
counter is a parameter: it keeps its first answer (`SymbolTable.returned_again`),
and nothing clears the symbols here. -/
namespace Opsian.Prometheus.Exporter
open Opsian.Lib Opsian.Lib.History
open Opsian.Symbols.SymbolTable (Location)

/-- A node without its children, which stand in the forest below it. -/
structure ProfileNode where
  locations : List Location
  seenInPhase : Bool
  cpuCount : Int32
  wallclockCount : Int32
  deriving DecidableEq, Repr

namespace ProfileNode

def count (node : ProfileNode) (isCpuSample : Bool) : Int32 :=
  if isCpuSample then node.cpuCount else node.wallclockCount

/-- `count(isCpuSample)++`. -/
def increment (node : ProfileNode) (isCpuSample : Bool) : ProfileNode :=
  if isCpuSample then { node with cpuCount := node.cpuCount + 1 }
  else { node with wallclockCount := node.wallclockCount + 1 }

def reset (node : ProfileNode) : ProfileNode :=
  { node with seenInPhase := false, cpuCount := 0, wallclockCount := 0 }

@[simp] theorem increment_locations (node : ProfileNode) (kind : Bool) :
    (node.increment kind).locations = node.locations := by cases kind <;> rfl

@[simp] theorem increment_seenInPhase (node : ProfileNode) (kind : Bool) :
    (node.increment kind).seenInPhase = node.seenInPhase := by cases kind <;> rfl

end ProfileNode

structure CallFrame where
  isForeign : Bool
  frame : UInt64
  deriving DecidableEq, Repr

structure CallTrace where
  numFrames : Int
  frames : List CallFrame
  deriving DecidableEq, Repr

/-- A printed line: all that stands before its value, up to the end of the
signature, and the value. -/
structure Line where
  series : String
  value : Int32
  deriving DecidableEq, Repr

def Line.text (line : Line) : String :=
  line.series ++ "\"\x7d " ++ toString line.value.toInt ++ "\n"

inductive Reply where
  | notFound
  | metrics (cpu wallclock : List Line)
  deriving DecidableEq, Repr

def prefix200 : String :=
  "HTTP/1.1 200 OK\n" ++
  "Content-Type: text/html; charset=utf-8\n\n" ++
  "# HELP promfiler_cpu_profile CPU stack trace samples\n" ++
  "# TYPE promfiler_cpu_profile gauge\n"

def response404 : String :=
  "HTTP/1.1 404 Not Found\n" ++
  "Content-Type: text/html; charset=utf-8\n\n" ++
  "<html><body><i>Not Found!</i></body></html>"

/-- What is written to the socket. -/
def Reply.text : Reply → String
  | .notFound => response404
  | .metrics cpu wallclock => prefix200 ++ String.join ((cpu ++ wallclock).map Line.text)

structure State where
  root : ProfileNode
  pcToNode : Forest UInt64 ProfileNode
  /-- The reply to the latest request. -/
  reply : Option Reply
  deriving DecidableEq, Repr

/-- `prometheus_queue_listener`. -/
def init : State where
  root := ProfileNode.reset ⟨[], false, 0, 0⟩
  pcToNode := .nil
  reply := none

/-! ## The queue listener -/

section record

variable (locationsOf : UInt64 → List Location)

def numberOfSignalHandlerFrames : Nat := 3

def sigprof : Int := 27

/-- The program counters from the outermost frame in, without the signal handler's. -/
def CallTrace.path (trace : CallTrace) : List UInt64 :=
  ((trace.frames.take trace.numFrames.toNat).drop numberOfSignalHandlerFrames).reverse.map
    CallFrame.frame

def newNode (pc : UInt64) : ProfileNode := ⟨locationsOf pc, false, 0, 0⟩

/-- What the walk does to a node, with the rest of the path below it. -/
def visit (isCpuSample : Bool) (rest : List UInt64) (node : ProfileNode) : ProfileNode :=
  let node := { node with seenInPhase := true }
  if rest = [] then node.increment isCpuSample else node

theorem visit_seenInPhase (kind : Bool) (ks : List UInt64) (node : ProfileNode) :
    (visit kind ks node).seenInPhase = true := by
  unfold visit
  split <;> simp

theorem visit_locations (kind : Bool) (ks : List UInt64) (node : ProfileNode) :
    (visit kind ks node).locations = node.locations := by
  unfold visit
  split <;> simp

/-- A trace with an error is only logged. One without frames is the root's, which
the walk does not mark. -/
def recordStackTrace (s : State) (trace : CallTrace) (signum : Int) : State :=
  let isCpuSample := decide (signum = sigprof)
  if trace.numFrames < 0 then s
  else
    { s with
      root := if trace.path = [] then s.root.increment isCpuSample else s.root
      pcToNode := s.pcToNode.touch (newNode locationsOf) (visit isCpuSample) trace.path }

end record

/-! ## Scrapes -/

def functionNames (locations : List Location) : List String :=
  locations.map fun location => "#" ++ location.functionName

/-- One line for each function, with the functions before it in the signature. -/
def writeLines (count : Int32) : String → List String → List Line
  | _, [] => []
  | commonStr, functionName :: functions =>
    ⟨commonStr ++ functionName, count⟩ :: writeLines count (commonStr ++ functionName) functions

/-- `write_profile_node` for the children of a node, after what it has printed. -/
def writeNodes (isCpuSample : Bool) : Forest UInt64 ProfileNode → String → List Line
  | .nil, _ => []
  | .cons _ node children rest, commonStr =>
    let functions := functionNames node.locations
    (if node.seenInPhase then
      writeLines (node.count isCpuSample) commonStr functions ++
        writeNodes isCpuSample children (functions.foldl (· ++ ·) commonStr)
    else []) ++ writeNodes isCpuSample rest commonStr

/-- `write_profile_node` for the root. -/
def writeRoot (s : State) (rootPrefix : String) (isCpuSample : Bool) : List Line :=
  if s.root.seenInPhase then
    writeLines (s.root.count isCpuSample) rootPrefix ["(root)"] ++
      writeNodes isCpuSample s.pcToNode (rootPrefix ++ "(root)")
  else []

def prefix1 : String := "promfiler_cpu_profile\x7btype=\""

def prefix2 : String := "\",signature=\""

def prefixEnd (segment : String) : String :=
  if segment = "" then prefix2 else "\",segment=\"" ++ segment ++ prefix2

def rootCpuPrefix (segment : String) : String := prefix1 ++ "cpu" ++ prefixEnd segment

def rootWallclockPrefix (segment : String) : String := prefix1 ++ "wallclock" ++ prefixEnd segment

/-- `end_phase_node` for the root, which stays seen from the first phase on. -/
def endPhase (s : State) : State :=
  { s with
    root := { s.root.reset with seenInPhase := true }
    pcToNode := s.pcToNode.map ProfileNode.reset }

def isMetrics (str : String) : Bool :=
  decide ("GET /metrics HTTP/1.1".toList <:+: str.toList)

/-- `do_read`, for what one read has returned. -/
def doRead (segment : String) (s : State) (str : String) : State :=
  if isMetrics str then
    let cpu := writeRoot s (rootCpuPrefix segment) true
    let wallclock := writeRoot s (rootWallclockPrefix segment) false
    { endPhase s with reply := some (.metrics cpu wallclock) }
  else { s with reply := some .notFound }

/-! ## The system -/

inductive Label where
  | record (trace : CallTrace) (signum : Int)
  | read (str : String)
  /-- A read that fails is logged, and there is no reply. -/
  | readError
  deriving DecidableEq, Repr

def maxLength : Nat := 1024

def step (locationsOf : UInt64 → List Location) (segment : String) (s : State) :
    Label → Option State
  | .record trace signum =>
    if trace.numFrames ≤ trace.frames.length then
      some (recordStackTrace locationsOf s trace signum)
    else none
  | .read str => if str.length ≤ maxLength then some (doRead segment s str) else none
  | .readError => some s

/-- The request of a scrape. -/
def getMetrics : Label := .read "GET /metrics HTTP/1.1"

/-! ## The history -/

/-- A recorded trace: its program counters from the root on, and its kind. -/
structure Sample where
  path : List UInt64
  isCpuSample : Bool
  deriving DecidableEq, Repr

/-- What a trace leaves in the tree, if it is not an error. -/
def sampleOf (trace : CallTrace × Int) : Option Sample :=
  if trace.1.numFrames < 0 then none else some ⟨trace.1.path, decide (trace.2 = sigprof)⟩

/-- The phase: the traces recorded since the latest scrape. -/
def note (phase : List Sample) (_ : State) (a : Label) (_ : State) : List Sample :=
  match a with
  | .record trace signum => phase ++ (sampleOf (trace, signum)).toList
  | .read str => if isMetrics str then [] else phase
  | .readError => phase

section

variable (locationsOf : UInt64 → List Location)

/-- What becomes of the tree. -/
def recordSample (s : State) (x : Sample) : State :=
  { s with
    root := if x.path = [] then s.root.increment x.isCpuSample else s.root
    pcToNode := s.pcToNode.touch (newNode locationsOf) (visit x.isCpuSample) x.path }

variable {locationsOf}

theorem recordStackTrace_eq (s : State) (trace : CallTrace × Int) :
    recordStackTrace locationsOf s trace.1 trace.2 =
      (sampleOf trace).elim s (recordSample locationsOf s) := by
  unfold recordStackTrace sampleOf
  split <;> rfl

theorem recordStackTrace_of_nonneg (s : State) {trace : CallTrace} (h : 0 ≤ trace.numFrames)
    (signum : Int) : recordStackTrace locationsOf s trace signum =
      recordSample locationsOf s ⟨trace.path, decide (signum = sigprof)⟩ :=
  if_neg (Int.not_lt.mpr h)

/-- The rule for what the tree keeps of its phase: a sample is recorded, a scrape ends the
phase, and all else leaves the tree alone. -/
theorem next_of_sample {segment : String} {I : State × List Sample → Prop} {s t : State}
    {phase : List Sample} {a : Label} (h : I (s, phase))
    (hsample : ∀ x, I (recordSample locationsOf s x, phase ++ [x]))
    (hscrape : ∀ r, I ({ endPhase s with reply := r }, []))
    (hreply : ∀ r, I ({ s with reply := r }, phase))
    (hs : step locationsOf segment s a = some t) : I (t, note phase s a t) := by
  cases a with
  | record trace signum =>
    obtain ⟨-, rfl⟩ := Option.ite_some_none_eq_some.mp hs
    rw [recordStackTrace_eq s (trace, signum), note]
    cases sampleOf (trace, signum) with
    | none => simpa using h
    | some x => exact hsample x
  | read str =>
    obtain ⟨-, rfl⟩ := Option.ite_some_none_eq_some.mp hs
    simp only [doRead, note]
    split
    · exact hscrape _
    · exact hreply _
  | readError =>
    cases hs
    exact h

end

end Opsian.Prometheus.Exporter
