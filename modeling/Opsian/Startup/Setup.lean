import Opsian.Startup.Grammar
import Opsian.Startup.Substitution

/-! # Setting up the configuration

The options are read when the agent starts, and once more in a forked child, over what
the first time has made of them. -/
namespace Opsian.Startup.Setup
open Opsian.Lib.CString Opsian.Startup.Arguments Opsian.Startup.Grammar
  Opsian.Startup.Substitution

/-- The options, and what is set from them in the end. -/
structure Configuration extends ConfigurationOptions where
  prometheusEnabled : Bool
  deriving DecidableEq, Repr

def Configuration.init (onPremHostDefault : Bool) : Configuration :=
  ⟨.init onPremHostDefault, false⟩

/-- What a process knows of itself. -/
structure Process where
  options : List Char
  exeName : List Char
  argv0 : List Char
  pid : Nat
  deriving DecidableEq, Repr

/-- `substitutePath`: the name without its directories, and with no dots. -/
def substitutePath (c : ConfigurationOptions) (name substitutionVariable : List Char) :
    Option ConfigurationOptions := do
  let substitutionValue ←
    substituteOption (name.rtakeWhile (· != '/')) ".".toList "_".toList
  let substitute (value : List Char) : Option (List Char) :=
    substituteOption value substitutionVariable substitutionValue
  let logFilePath ← substitute c.logFilePath
  let errorLogPath ← substitute c.errorLogPath
  let debugLogPath ← substitute c.debugLogPath
  let customCertificateFile ← substitute c.customCertificateFile
  let agentId ← substitute c.agentId
  let prometheusSegment ← substitute c.prometheusSegment
  return { c with
    logFilePath := logFilePath
    errorLogPath := errorLogPath
    debugLogPath := debugLogPath
    customCertificateFile := customCertificateFile
    agentId := agentId
    prometheusSegment := prometheusSegment }

def exeNameVariable : List Char := "£\x7bEXE_NAME\x7d".toList

def argv0Variable : List Char := "£\x7bARGV_0\x7d".toList

def pidVariable : List Char := "£\x7bPID\x7d".toList

def substituteOptions (p : Process) (c : ConfigurationOptions) : Option ConfigurationOptions := do
  let c ← substitutePath c p.exeName exeNameVariable
  let c ← substitutePath c p.argv0 argv0Variable
  substitutePath c (toString p.pid).toList pidVariable

/-- `setup_configuration`, which does not return where the parser throws. -/
def setupConfiguration (p : Process) (c : Configuration) : Option Configuration :=
  let parsed := parseArguments p.options c.toConfigurationOptions
  if parsed.thrown then none
  else (substituteOptions p parsed.configuration).map fun options =>
    ⟨options, !options.prometheusPorts.isEmpty⟩

/-- What `child_fork` does finds the configuration as it is. -/
def Idempotent (p : Process) (onPremHostDefault : Bool) : Prop :=
  ∀ c, setupConfiguration p (.init onPremHostDefault) = some c → setupConfiguration p c = some c

/-- A range would end before it begins. -/
def Throws (options : List Char) : Prop :=
  ∃ segments segment later, options.splitOn ',' = segments ++ segment :: later ∧
    (∃ field, findOption segment = some field ∧ IsRange field) ∧ '=' ∉ segment ∧
    ∃ s ∈ later, '=' ∈ s

/-- No port is listed. -/
def Portless (options : List Char) : Prop :=
  ∀ segment ∈ options.splitOn ',', ∀ text, findOption segment = some .prometheusPorts →
    strchr segment '=' = some ('=' :: text) → text = []

/-! ## Fields -/

def fieldOf : Setting → Field
  | .text field _ => .text field
  | .number field _ => .number field
  | .flag field _ => .flag field
  | .prometheusPorts _ => .prometheusPorts

def portsOf : Setting → List Int32
  | .prometheusPorts ports => ports
  | _ => []

def textOf (c : ConfigurationOptions) : TextField → List Char
  | .logFilePath => c.logFilePath
  | .port => c.port
  | .host => c.host
  | .apiKey => c.apiKey
  | .agentId => c.agentId
  | .debugLogPath => c.debugLogPath
  | .errorLogPath => c.errorLogPath
  | .applicationVersion => c.applicationVersion
  | .customCertificateFile => c.customCertificateFile
  | .prometheusHost => c.prometheusHost
  | .prometheusSegment => c.prometheusSegment

def numberOf (c : ConfigurationOptions) : NumberField → Int32
  | .maxFramesToCapture => c.maxFramesToCapture
  | .prometheusProcessSampleRate => c.prometheusProcessSampleRate
  | .prometheusElapsedSampleRate => c.prometheusElapsedSampleRate

def flagOf (c : ConfigurationOptions) : FlagField → Bool
  | .onPremHost => c.onPremHost
  | .logCorruption => c.logCorruption

/-- The setting that would leave a field as it is. -/
def get (c : ConfigurationOptions) : Field → Setting
  | .text field => .text field (textOf c field)
  | .number field => .number field (numberOf c field)
  | .flag field => .flag field (flagOf c field)
  | .prometheusPorts => .prometheusPorts c.prometheusPorts

variable {c c' : ConfigurationOptions} {x : Setting} {field : Field}

theorem eq_of_get (h : ∀ field, get c field = get c' field) : c = c' := by
  have htext (field : TextField) : textOf c field = textOf c' field :=
    Setting.text.inj (h (.text field)) |>.2
  have hnumber (field : NumberField) : numberOf c field = numberOf c' field :=
    Setting.number.inj (h (.number field)) |>.2
  have hflag (field : FlagField) : flagOf c field = flagOf c' field :=
    Setting.flag.inj (h (.flag field)) |>.2
  have hports : c.prometheusPorts = c'.prometheusPorts :=
    Setting.prometheusPorts.inj (h .prometheusPorts)
  obtain ⟨⟩ := c
  obtain ⟨⟩ := c'
  rw [ConfigurationOptions.mk.injEq]
  exact ⟨htext .logFilePath, htext .host, htext .port, hnumber .maxFramesToCapture, htext .apiKey,
    htext .agentId, htext .debugLogPath, htext .errorLogPath, htext .applicationVersion,
    htext .customCertificateFile, hflag .onPremHost, hflag .logCorruption, htext .prometheusHost,
    hports, htext .prometheusSegment, hnumber .prometheusProcessSampleRate,
    hnumber .prometheusElapsedSampleRate⟩

theorem get_set_of_ne (h : fieldOf x ≠ field) : get (c.set x) field = get c field := by
  cases x with
  | text f value =>
    cases field with
    | text g =>
      have hne : f ≠ g := fun he => h (congrArg Field.text he)
      cases f <;> cases g <;> first | rfl | exact absurd rfl hne
    | _ => cases f <;> rfl
  | number f value =>
    cases field with
    | number g =>
      have hne : f ≠ g := fun he => h (congrArg Field.number he)
      cases f <;> cases g <;> first | rfl | exact absurd rfl hne
    | _ => cases f <;> rfl
  | flag f value =>
    cases field with
    | flag g =>
      have hne : f ≠ g := fun he => h (congrArg Field.flag he)
      cases f <;> cases g <;> first | rfl | exact absurd rfl hne
    | _ => cases f <;> rfl
  | prometheusPorts ports =>
    cases field with
    | prometheusPorts => exact absurd rfl h
    | _ => rfl

theorem get_set_self (h : fieldOf x ≠ .prometheusPorts) : get (c.set x) (fieldOf x) = x := by
  cases x with
  | text f value => cases f <;> rfl
  | number f value => cases f <;> rfl
  | flag f value => cases f <;> rfl
  | prometheusPorts ports => exact absurd rfl h

theorem set_ports (c : ConfigurationOptions) (x : Setting) :
    (c.set x).prometheusPorts = c.prometheusPorts ++ portsOf x := by
  cases x with
  | text f value => cases f <;> exact (List.append_nil _).symm
  | number f value => cases f <;> exact (List.append_nil _).symm
  | flag f value => cases f <;> exact (List.append_nil _).symm
  | prometheusPorts ports => rfl

/-! ## Settings in turn -/

theorem get_foldl_of_not_mem {xs : List Setting} (h : field ∉ xs.map fieldOf)
    (c : ConfigurationOptions) : get (xs.foldl .set c) field = get c field := by
  induction xs generalizing c with
  | nil => rfl
  | cons x xs ih =>
    obtain ⟨hx, hxs⟩ := not_or.mp (mt List.mem_cons.mpr h)
    rw [List.foldl_cons, ih hxs, get_set_of_ne (Ne.symm hx)]

/-- What is set does not depend on what was there before. -/
theorem get_foldl_congr {xs : List Setting} (hfield : field ≠ .prometheusPorts)
    (h : field ∉ xs.map fieldOf → get c field = get c' field) :
    get (xs.foldl .set c) field = get (xs.foldl .set c') field := by
  induction xs generalizing c c' with
  | nil => exact h List.not_mem_nil
  | cons x xs ih =>
    refine ih fun hxs => ?_
    by_cases hx : fieldOf x = field
    · subst hx
      rw [get_set_self hfield, get_set_self hfield]
    · rw [get_set_of_ne hx, get_set_of_ne hx]
      refine h fun hmem => ?_
      rcases List.mem_cons.mp hmem with he | hmem
      · exact hx he.symm
      · exact hxs hmem

theorem foldl_ports (xs : List Setting) (c : ConfigurationOptions) :
    (xs.foldl .set c).prometheusPorts = c.prometheusPorts ++ xs.flatMap portsOf := by
  induction xs generalizing c with
  | nil => exact (List.append_nil _).symm
  | cons x xs ih =>
    rw [List.foldl_cons, ih, set_ports, List.flatMap_cons, List.append_assoc]

/-! ## The parser -/

theorem parseArguments_configuration (key : List Char) (c : ConfigurationOptions) :
    (parseArguments key c).configuration = (parseArguments key c).settings.foldl .set c := by
  induction key using key_induction generalizing c with
  | last key hkey =>
    rw [parseArguments_last hkey]
    cases segmentSetting key <;> rfl
  | segment segment rest hsegment ih =>
    cases hread : readKey (segment ++ ',' :: rest) (some (',' :: rest)) with
    | error e =>
      rw [parseArguments_error hsegment hread]
      rfl
    | ok setting =>
      rw [parseArguments_ok hsegment hread]
      refine (ih _).trans ?_
      cases setting <;> rfl

/-- What is assigned is in the string alone. -/
theorem parseArguments_congr (key : List Char) (c c' : ConfigurationOptions) :
    (parseArguments key c).settings = (parseArguments key c').settings ∧
      (parseArguments key c).thrown = (parseArguments key c').thrown := by
  induction key using key_induction generalizing c c' with
  | last key hkey =>
    rw [parseArguments_last hkey, parseArguments_last hkey]
    exact ⟨rfl, rfl⟩
  | segment segment rest hsegment ih =>
    cases hread : readKey (segment ++ ',' :: rest) (some (',' :: rest)) with
    | error e =>
      rw [parseArguments_error hsegment hread, parseArguments_error hsegment hread]
      exact ⟨rfl, rfl⟩
    | ok setting =>
      rw [parseArguments_ok hsegment hread, parseArguments_ok hsegment hread]
      obtain ⟨hsettings, hthrown⟩ := ih (configure c setting) (configure c' setting)
      exact ⟨congrArg (setting.toList ++ ·) hsettings, hthrown⟩

/-! ## The substitution -/

/-- A change to the texts that may name a file or a segment. -/
def mapPaths (f : List Char → List Char) (c : ConfigurationOptions) : ConfigurationOptions :=
  { c with
    logFilePath := f c.logFilePath
    errorLogPath := f c.errorLogPath
    debugLogPath := f c.debugLogPath
    customCertificateFile := f c.customCertificateFile
    agentId := f c.agentId
    prometheusSegment := f c.prometheusSegment }

def pathValue (name : List Char) : List Char :=
  replaceAll ".".toList "_".toList (name.rtakeWhile (· != '/'))

theorem substitutePath_eq {substitutionVariable : List Char} (h : substitutionVariable ≠ [])
    (c : ConfigurationOptions) (name : List Char) :
    substitutePath c name substitutionVariable =
      some (mapPaths (replaceAll substitutionVariable (pathValue name)) c) := by
  have hdots : substituteOption (name.rtakeWhile (· != '/')) ".".toList "_".toList =
      some (pathValue name) := substituteOption_eq (by decide) _ _
  simp only [substitutePath, hdots, substituteOption_eq h]
  rfl

/-- What becomes of a text. -/
def substituted (p : Process) (value : List Char) : List Char :=
  replaceAll pidVariable (pathValue (toString p.pid).toList)
    (replaceAll argv0Variable (pathValue p.argv0)
      (replaceAll exeNameVariable (pathValue p.exeName) value))

theorem substituteOptions_eq (p : Process) (c : ConfigurationOptions) :
    substituteOptions p c = some (mapPaths (substituted p) c) := by
  have hexe : exeNameVariable ≠ [] := List.cons_ne_nil _ _
  have hargv : argv0Variable ≠ [] := List.cons_ne_nil _ _
  have hpid : pidVariable ≠ [] := List.cons_ne_nil _ _
  simp only [substituteOptions, substitutePath_eq hexe, substitutePath_eq hargv,
    substitutePath_eq hpid]
  rfl

theorem substituted_nil (p : Process) : substituted p [] = [] := by
  unfold substituted
  rw [replaceAll_nil (by decide), replaceAll_nil (by decide), replaceAll_nil (by decide)]

theorem mapPaths_init {f : List Char → List Char} (hf : f [] = []) (onPremHostDefault : Bool) :
    mapPaths f (.init onPremHostDefault) = .init onPremHostDefault := by
  simp only [mapPaths, ConfigurationOptions.init, hf]

theorem get_mapPaths_congr (f : List Char → List Char) (h : get c field = get c' field) :
    get (mapPaths f c) field = get (mapPaths f c') field := by
  cases field with
  | text field =>
    have htext := Setting.text.inj h |>.2
    cases field <;> first
      | exact h
      | exact congrArg (fun value => Setting.text _ (f value)) htext
  | _ => exact h

/-! ## Twice -/

/-- The parser and the substitution, where nothing is thrown. -/
def apply (p : Process) (xs : List Setting) (c : ConfigurationOptions) : ConfigurationOptions :=
  mapPaths (substituted p) (xs.foldl .set c)

theorem ports_apply (p : Process) (xs : List Setting) (c : ConfigurationOptions) :
    (apply p xs c).prometheusPorts = c.prometheusPorts ++ xs.flatMap portsOf :=
  foldl_ports xs c

/-- A field that is set is set again; any other has its default, in which there is nothing
to substitute. -/
theorem get_apply_apply {xs : List Setting} {onPremHostDefault : Bool} (p : Process)
    (hfield : field ≠ .prometheusPorts) :
    get (apply p xs (apply p xs (.init onPremHostDefault))) field =
      get (apply p xs (.init onPremHostDefault)) field := by
  refine get_mapPaths_congr _ (get_foldl_congr hfield fun hxs => ?_)
  have hinit := get_mapPaths_congr (substituted p) (get_foldl_of_not_mem hxs
    (.init onPremHostDefault))
  rwa [mapPaths_init (substituted_nil p)] at hinit

theorem apply_apply_iff (p : Process) (xs : List Setting) (onPremHostDefault : Bool) :
    apply p xs (apply p xs (.init onPremHostDefault)) = apply p xs (.init onPremHostDefault) ↔
      xs.flatMap portsOf = [] := by
  constructor
  · intro h
    have hports := congrArg ConfigurationOptions.prometheusPorts h
    rw [ports_apply] at hports
    exact List.append_right_eq_self.mp hports
  · intro h
    refine eq_of_get fun field => ?_
    by_cases hfield : field = .prometheusPorts
    · subst hfield
      refine congrArg Setting.prometheusPorts ?_
      rw [ports_apply, h, List.append_nil]
    · exact get_apply_apply p hfield

/-! ## What is thrown -/

theorem throws_last {key : List Char} (h : ',' ∉ key) : ¬ Throws key := by
  rintro ⟨segments, segment, later, hsplit, -, -, s, hs, -⟩
  rw [List.splitOn_eq_singleton h] at hsplit
  have hlength := congrArg List.length hsplit
  have hpos := List.length_pos_of_mem hs
  simp only [List.length_append, List.length_cons, List.length_nil] at hlength
  omega

theorem throws_segment {segment : List Char} (h : ',' ∉ segment) (rest : List Char) :
    Throws (segment ++ ',' :: rest) ↔
      ((∃ field, findOption segment = some field ∧ IsRange field) ∧ '=' ∉ segment ∧
        '=' ∈ rest) ∨ Throws rest := by
  have hrest : (∃ s ∈ rest.splitOn ',', '=' ∈ s) ↔ '=' ∈ rest := by
    simpa using not_congr (forall_mem_splitOn rest)
  unfold Throws
  rw [splitOn_comma h]
  constructor
  · rintro ⟨segments, segment', later, hsplit, hfield, hs, hlater⟩
    cases segments with
    | nil =>
      obtain ⟨rfl, rfl⟩ := List.cons.inj hsplit
      exact .inl ⟨hfield, hs, hrest.mp hlater⟩
    | cons first segments =>
      exact .inr ⟨segments, segment', later, (List.cons.inj hsplit).2, hfield, hs, hlater⟩
  · rintro (⟨hfield, hs, hmem⟩ | ⟨segments, segment', later, hsplit, hlater⟩)
    · exact ⟨[], segment, rest.splitOn ',', rfl, hfield, hs, hrest.mpr hmem⟩
    · exact ⟨segment :: segments, segment', later, congrArg (segment :: ·) hsplit, hlater⟩

/-- A key is read as its segment, or stands before another's '='. -/
theorem readKey_cases (segment rest : List Char) :
    readKey (segment ++ ',' :: rest) (some (',' :: rest)) = .ok (segmentSetting segment) ∨
      '=' ∉ segment ∧ '=' ∈ rest ∧ ∃ field, findOption segment = some field := by
  by_cases hsep : (findOption segment).isSome = true → '=' ∉ segment → '=' ∉ rest
  · exact .inl (readKey_separated hsep)
  · obtain ⟨hfind, hs, hrest⟩ : (findOption segment).isSome = true ∧ '=' ∉ segment ∧
        '=' ∈ rest := by simpa using hsep
    exact .inr ⟨hs, hrest, Option.isSome_iff_exists.mp hfind⟩

theorem thrown_iff (key : List Char) (c : ConfigurationOptions) :
    (parseArguments key c).thrown = true ↔ Throws key := by
  induction key using key_induction generalizing c with
  | last key hkey =>
    rw [parseArguments_last hkey]
    exact iff_of_false Bool.false_ne_true (throws_last hkey)
  | segment segment rest hsegment ih =>
    rw [throws_segment hsegment]
    rcases readKey_cases segment rest with hread | ⟨hs, hrest, field, hfield⟩
    · rw [parseArguments_ok hsegment hread]
      refine (ih _).trans (iff_or_self.mpr fun hthrow => ?_)
      obtain ⟨⟨field, hfield, hrange⟩, hs, hrest⟩ := hthrow
      rw [readKey_range hs hrest hfield hrange] at hread
      cases hread
    · by_cases hrange : IsRange field
      · rw [parseArguments_error hsegment (readKey_range hs hrest hfield hrange)]
        exact iff_of_true rfl (.inl ⟨⟨field, hfield, hrange⟩, hs, hrest⟩)
      · obtain ⟨value, hread⟩ := readKey_single hs hrest hfield hrange
        rw [parseArguments_ok hsegment hread]
        refine (ih _).trans (iff_or_self.mpr ?_)
        rintro ⟨⟨field', hfield', hrange'⟩, -, -⟩
        rw [hfield] at hfield'
        exact absurd (Option.some.inj hfield' ▸ hrange') hrange

/-! ## What ports there are -/

theorem getlines_eq_nil {s : List Char} : getlines s = [] ↔ s = [] := by
  constructor
  · intro h
    unfold getlines at h
    simp only at h
    have hjoin : ['|'].intercalate (s.splitOn '|') = s := List.intercalate_splitOn '|'
    split at h
    · next hlast =>
      cases hsplit : s.splitOn '|' with
      | nil => rw [hsplit] at hjoin; exact hjoin.symm
      | cons first later =>
        rw [hsplit] at h hlast hjoin
        cases later with
        | nil =>
          obtain rfl : first = [] := by simpa using hlast
          exact hjoin.symm
        | cons second later => cases h
    · rw [h] at hjoin
      exact hjoin.symm
  · rintro rfl
    rfl

theorem readPorts_eq_nil {text : List Char} : readPorts text = [] ↔ text = [] :=
  List.map_eq_nil_iff.trans getlines_eq_nil

theorem segment_ports (segment : List Char) :
    (segmentSetting segment).toList.flatMap portsOf = [] ↔
      ∀ text, findOption segment = some .prometheusPorts →
        strchr segment '=' = some ('=' :: text) → text = [] := by
  cases hchr : strchr segment '=' with
  | none => simp [segmentSetting, hchr]
  | some value =>
    obtain ⟨a, text, ha, hseg, rfl⟩ := exists_of_strchr hchr
    cases hfind : findOption segment with
    | none => simp [segmentSetting, hchr, hfind]
    | some field =>
      cases field with
      | prometheusPorts =>
        simp [segmentSetting, hchr, hfind, fieldSetting, portsOf, readPorts_eq_nil]
      | _ => simp [segmentSetting, hchr, hfind, fieldSetting, portsOf]

theorem portless_segment {segment : List Char} (h : ',' ∉ segment) (rest : List Char) :
    Portless (segment ++ ',' :: rest) ↔
      (segmentSetting segment).toList.flatMap portsOf = [] ∧ Portless rest := by
  unfold Portless
  rw [splitOn_comma h, List.forall_mem_cons, segment_ports]

theorem ports_settings (key : List Char) (c : ConfigurationOptions)
    (hthrown : (parseArguments key c).thrown = false) :
    (parseArguments key c).settings.flatMap portsOf = [] ↔ Portless key := by
  induction key using key_induction generalizing c with
  | last key hkey =>
    rw [parseArguments_last hkey, Portless, List.splitOn_eq_singleton hkey,
      List.forall_mem_singleton, segment_ports]
  | segment segment rest hsegment ih =>
    rw [portless_segment hsegment]
    rcases readKey_cases segment rest with hread | ⟨hs, hrest, field, hfield⟩
    · rw [parseArguments_ok hsegment hread] at hthrown ⊢
      simp only [Parsed.after, List.flatMap_append, List.append_eq_nil_iff]
      exact and_congr_right fun _ => ih _ hthrown
    · by_cases hrange : IsRange field
      · rw [parseArguments_error hsegment (readKey_range hs hrest hfield hrange)] at hthrown
        cases hthrown
      · obtain ⟨value, hread⟩ := readKey_single hs hrest hfield hrange
        have hports : portsOf (fieldSetting value field) = [] := by
          cases field with
          | prometheusPorts => exact absurd trivial hrange
          | _ => rfl
        rw [parseArguments_ok hsegment hread] at hthrown ⊢
        rw [segmentSetting_of_not_mem hs]
        simp only [Parsed.after, Option.toList_some, Option.toList_none, List.flatMap_append,
          List.flatMap_singleton, List.flatMap_nil, hports, List.nil_append, true_and]
        exact ih _ hthrown

/-! ## Setting up again -/

theorem setupConfiguration_eq (p : Process) (c : Configuration) :
    setupConfiguration p c =
      if (parseArguments p.options c.toConfigurationOptions).thrown then none
      else
        let options := apply p (parseArguments p.options c.toConfigurationOptions).settings
          c.toConfigurationOptions
        some ⟨options, !options.prometheusPorts.isEmpty⟩ := by
  unfold setupConfiguration
  simp only [substituteOptions_eq, Option.map_some, parseArguments_configuration, apply]

/-- **Reading the options again changes nothing** if and only if reading them fails the first
time, or lists no port: ports are added to those that are there. -/
theorem idempotent_iff (p : Process) (onPremHostDefault : Bool) :
    Idempotent p onPremHostDefault ↔ Throws p.options ∨ Portless p.options := by
  unfold Idempotent
  let c₀ : Configuration := .init onPremHostDefault
  by_cases hthrow : Throws p.options
  · refine iff_of_true (fun c hc => ?_) (.inl hthrow)
    rw [setupConfiguration_eq, if_pos ((thrown_iff _ _).mpr hthrow)] at hc
    cases hc
  · have hthrown (c : ConfigurationOptions) : ¬ (parseArguments p.options c).thrown = true :=
      mt (thrown_iff _ _).mp hthrow
    have hsettings (c : ConfigurationOptions) : (parseArguments p.options c).settings =
        (parseArguments p.options c₀.toConfigurationOptions).settings :=
      (parseArguments_congr _ _ _).1
    simp only [setupConfiguration_eq, if_neg (hthrown _), hsettings]
    rw [or_iff_right hthrow, ← ports_settings _ _ (Bool.eq_false_of_not_eq_true (hthrown
      c₀.toConfigurationOptions)), ← apply_apply_iff p _ onPremHostDefault]
    constructor
    · intro h
      exact congrArg Configuration.toConfigurationOptions (Option.some.inj (h _ rfl))
    · intro h c hc
      obtain rfl := Option.some.inj hc
      exact congrArg (fun options : ConfigurationOptions =>
        some (⟨options, !options.prometheusPorts.isEmpty⟩ : Configuration)) h

/-- A port is listed twice after the second time. -/
theorem port_twice : ¬ Idempotent ⟨"prometheusPort=9100".toList, [], [], 1⟩ false := by
  intro h
  have hsetting : segmentSetting "prometheusPort=9100".toList = some (.prometheusPorts [9100]) :=
    rfl
  have hparse (c : ConfigurationOptions) : parseArguments "prometheusPort=9100".toList c =
      ⟨c.set (.prometheusPorts [9100]), [.prometheusPorts [9100]], false⟩ := by
    rw [parseArguments_last (by decide), hsetting]
    rfl
  simp only [Idempotent, setupConfiguration_eq, hparse] at h
  have hports := congrArg (fun c => c.prometheusPorts.length) (Option.some.inj (h _ rfl))
  simp only [ports_apply, List.flatMap_singleton, List.length_append] at hports
  exact absurd hports (by decide)

end Opsian.Startup.Setup
