import Opsian.Lib.CString
import Opsian.Writer.LogWriter

/-! # The start-up options

`parseArguments` walks `OPSIAN_OPTS` with three pointers into it: `key`, the
`value` behind the first '=' from there on and the `next` comma. Both are searched
for up to the end of the string. -/
namespace Opsian.Startup.Arguments
open Opsian.Lib.CString
open Opsian.Writer.LogWriter (maxFrames)

structure ConfigurationOptions where
  logFilePath : List Char
  host : List Char
  port : List Char
  maxFramesToCapture : Int32
  apiKey : List Char
  agentId : List Char
  debugLogPath : List Char
  errorLogPath : List Char
  applicationVersion : List Char
  customCertificateFile : List Char
  onPremHost : Bool
  logCorruption : Bool
  prometheusHost : List Char
  prometheusPorts : List Int32
  prometheusSegment : List Char
  prometheusProcessSampleRate : Int32
  prometheusElapsedSampleRate : Int32
  deriving DecidableEq, Repr

/-- The constructor; the build says whether `ON_PREM_HOST_DEFAULT` is "Y". -/
def ConfigurationOptions.init (onPremHostDefault : Bool) : ConfigurationOptions where
  logFilePath := []
  host := "collector.opsian.com".toList
  port := "50052".toList
  maxFramesToCapture := Int32.ofNat maxFrames
  apiKey := []
  agentId := []
  debugLogPath := []
  errorLogPath := []
  applicationVersion := []
  customCertificateFile := []
  onPremHost := onPremHostDefault
  logCorruption := false
  prometheusHost := []
  prometheusPorts := []
  prometheusSegment := []
  prometheusProcessSampleRate := 100
  prometheusElapsedSampleRate := 100

inductive TextField where
  | logFilePath
  | port
  | host
  | apiKey
  | agentId
  | debugLogPath
  | errorLogPath
  | applicationVersion
  | customCertificateFile
  | prometheusHost
  | prometheusSegment
  deriving DecidableEq, Repr

inductive NumberField where
  | maxFramesToCapture
  | prometheusProcessSampleRate
  | prometheusElapsedSampleRate
  deriving DecidableEq, Repr

inductive FlagField where
  | onPremHost
  | logCorruption
  deriving DecidableEq, Repr

/-- The fields by the way their value is read. -/
inductive Field where
  | text (field : TextField)
  | number (field : NumberField)
  | flag (field : FlagField)
  | prometheusPorts
  deriving DecidableEq, Repr

/-- A branch of the chain assigns its field, or appends to the ports. -/
inductive Setting where
  | text (field : TextField) (value : List Char)
  | number (field : NumberField) (value : Int32)
  | flag (field : FlagField) (value : Bool)
  | prometheusPorts (ports : List Int32)
  deriving DecidableEq, Repr

/-- The names the chain compares `key` with, in its order. -/
def chain : List (List Char × Field) :=
  [("__logPath".toList, .text .logFilePath),
    ("__maxFrames".toList, .number .maxFramesToCapture),
    ("__port".toList, .text .port),
    ("host".toList, .text .host),
    ("apiKey".toList, .text .apiKey),
    ("agentId".toList, .text .agentId),
    ("debugLogPath".toList, .text .debugLogPath),
    ("errorLogPath".toList, .text .errorLogPath),
    ("applicationVersion".toList, .text .applicationVersion),
    ("customCertificateFile".toList, .text .customCertificateFile),
    ("onPremHost".toList, .flag .onPremHost),
    ("prometheusPort".toList, .prometheusPorts),
    ("prometheusHost".toList, .text .prometheusHost),
    ("prometheusSegment".toList, .text .prometheusSegment),
    ("prometheusProcessSampleRate".toList, .number .prometheusProcessSampleRate),
    ("prometheusElapsedSampleRate".toList, .number .prometheusElapsedSampleRate),
    ("__logCorruption".toList, .flag .logCorruption)]

namespace ConfigurationOptions

def setText (c : ConfigurationOptions) (value : List Char) : TextField → ConfigurationOptions
  | .logFilePath => { c with logFilePath := value }
  | .port => { c with port := value }
  | .host => { c with host := value }
  | .apiKey => { c with apiKey := value }
  | .agentId => { c with agentId := value }
  | .debugLogPath => { c with debugLogPath := value }
  | .errorLogPath => { c with errorLogPath := value }
  | .applicationVersion => { c with applicationVersion := value }
  | .customCertificateFile => { c with customCertificateFile := value }
  | .prometheusHost => { c with prometheusHost := value }
  | .prometheusSegment => { c with prometheusSegment := value }

def setNumber (c : ConfigurationOptions) (value : Int32) : NumberField → ConfigurationOptions
  | .maxFramesToCapture => { c with maxFramesToCapture := value }
  | .prometheusProcessSampleRate => { c with prometheusProcessSampleRate := value }
  | .prometheusElapsedSampleRate => { c with prometheusElapsedSampleRate := value }

def setFlag (c : ConfigurationOptions) (value : Bool) : FlagField → ConfigurationOptions
  | .onPremHost => { c with onPremHost := value }
  | .logCorruption => { c with logCorruption := value }

def set (c : ConfigurationOptions) : Setting → ConfigurationOptions
  | .text field value => c.setText value field
  | .number field value => c.setNumber value field
  | .flag field value => c.setFlag value field
  | .prometheusPorts ports => { c with prometheusPorts := c.prometheusPorts ++ ports }

end ConfigurationOptions

/-- `assign` was asked for more than a string can hold. -/
inductive LengthError where
  | lengthError
  deriving DecidableEq, Repr

/-- `assign_range`. A negative difference is a `size_t` beyond all lengths. -/
def assignRange (value : List Char) : Option (List Char) → Except LengthError (List Char)
  | none => .ok value
  | some next =>
    if next.length ≤ value.length then .ok (value.take (value.length - next.length))
    else .error .lengthError

/-- The lines of `std::getline` up to each '|'. Behind the last one an empty rest is none. -/
def getlines (s : List Char) : List (List Char) :=
  let segments := s.splitOn '|'
  if segments.getLast? = some [] then segments.dropLast else segments

def isYes (value : List Char) : Bool := value.head? == some 'y' || value.head? == some 'Y'

def readPorts (allPorts : List Char) : List Int32 := (getlines allPorts).map atoi

/-- One branch of the chain. -/
def readField (value : List Char) (next : Option (List Char)) :
    Field → Except LengthError Setting
  | .text field => (assignRange value next).map (.text field)
  | .number field => .ok (.number field (atoi value))
  | .flag field => .ok (.flag field (isYes value))
  | .prometheusPorts => (assignRange value next).map fun s => .prometheusPorts (readPorts s)

/-- `strstr` finds the name at the key itself; the first branch for which it does is taken. -/
def findOption (key : List Char) : Option Field :=
  (chain.find? fun option => option.1.isPrefixOf key).map Prod.snd

/-- The body of the loop; none is a warning. -/
def readKey (key : List Char) (next : Option (List Char)) : Except LengthError (Option Setting) :=
  match strchr key '=' with
  | none => .ok none
  | some value =>
    match findOption key with
    | none => .ok none
    | some field => (readField value.tail next field).map some

/-- The options as they are left, the settings made in order, and whether an exception
ended the loop. -/
structure Parsed where
  configuration : ConfigurationOptions
  settings : List Setting
  thrown : Bool
  deriving DecidableEq, Repr

/-- A setting is made before the rest is read. -/
def Parsed.after (setting : Option Setting) (p : Parsed) : Parsed :=
  { p with settings := setting.toList ++ p.settings }

def configure (configuration : ConfigurationOptions) (setting : Option Setting) :
    ConfigurationOptions :=
  setting.elim configuration configuration.set

/-- The loop, from `key` on. -/
def parseArguments (key : List Char) (configuration : ConfigurationOptions) : Parsed :=
  match readKey key (strchr key ',') with
  | .error _ => ⟨configuration, [], true⟩
  | .ok setting =>
    match _hnext : strchr key ',' with
    | none => ⟨configure configuration setting, setting.toList, false⟩
    | some next =>
      (parseArguments next.tail (configure configuration setting)).after setting
termination_by key.length
decreasing_by exact length_lt_of_strchr _hnext

end Opsian.Startup.Arguments
