import Mathlib.Data.List.Find
import Opsian.Startup.Arguments

/-! # What the options mean

A string of options is a list of segments between commas. Each of them stands on
its own: a name, and a value behind the first '='. -/
namespace Opsian.Startup.Grammar
open Opsian.Lib.CString Opsian.Startup.Arguments

/-- The setting that a field's text stands for. -/
def fieldSetting (text : List Char) : Field → Setting
  | .text field => .text field text
  | .number field => .number field (atoi text)
  | .flag field => .flag field (isYes text)
  | .prometheusPorts => .prometheusPorts (readPorts text)

/-- The text behind the first '=' goes to the first option whose name begins the segment. -/
def segmentSetting (segment : List Char) : Option Setting :=
  (strchr segment '=').bind fun value => (findOption segment).map (fieldSetting value.tail)

/-- The segments in turn, none of which can fail. -/
def process (options : List Char) (configuration : ConfigurationOptions) : Parsed where
  configuration := (options.splitOn ',').foldl
    (fun c segment => configure c (segmentSetting segment)) configuration
  settings := (options.splitOn ',').filterMap segmentSetting
  thrown := false

/-- An option whose value is a range up to the next comma. -/
def IsRange : Field → Prop
  | .text _ | .prometheusPorts => True
  | .number _ | .flag _ => False

/-- No segment that an option's name begins, but that has no '=' itself, stands before one
that has. -/
def Separated (options : List Char) : Prop :=
  (options.splitOn ',').Pairwise fun segment later =>
    (findOption segment).isSome = true → '=' ∉ segment → '=' ∉ later

instance (options : List Char) : Decidable (Separated options) :=
  inferInstanceAs (Decidable (List.Pairwise _ _))

variable {segment rest : List Char} {configuration : ConfigurationOptions}

/-! ## One key -/

/-- A key is the last segment, or a segment, a comma and the rest. -/
theorem key_induction {P : List Char → Prop} (last : ∀ key, ',' ∉ key → P key)
    (segment : ∀ segment rest, ',' ∉ segment → P rest → P (segment ++ ',' :: rest))
    (key : List Char) : P key := by
  induction hn : key.length using Nat.strongRecOn generalizing key with
  | ind n ih =>
    by_cases h : ',' ∈ key
    · obtain ⟨a, rest, ha, rfl, -⟩ := strchr_of_mem h
      refine segment a rest ha (ih rest.length ?_ rest rfl)
      rw [← hn, List.length_append, List.length_cons]
      omega
    · exact last key h

theorem strchr_comma (h : ',' ∉ segment) (rest : List Char) :
    strchr (segment ++ ',' :: rest) ',' = some (',' :: rest) := by
  rw [strchr_append_of_not_mem h, strchr_cons_self]

theorem splitOn_comma (h : ',' ∉ segment) (rest : List Char) :
    (segment ++ ',' :: rest).splitOn ',' = segment :: rest.splitOn ',' := by
  rw [List.splitOn_append_cons_self, List.splitOn_eq_singleton h]
  rfl

theorem comma_not_mem_names : ∀ option ∈ chain, ',' ∉ option.1 := by decide

theorem isPrefixOf_append {name : List Char} (hname : ',' ∉ name) (segment rest : List Char) :
    name.isPrefixOf (segment ++ ',' :: rest) = name.isPrefixOf segment := by
  induction name generalizing segment with
  | nil => rfl
  | cons c name ih =>
    obtain ⟨hc, hn⟩ := not_or.mp (mt List.mem_cons.mpr hname)
    cases segment with
    | nil => simp [List.isPrefixOf, Ne.symm hc]
    | cons d segment => simp [List.isPrefixOf, ih hn segment]

/-- No name reaches beyond its segment. -/
theorem findOption_append (segment rest : List Char) :
    findOption (segment ++ ',' :: rest) = findOption segment := by
  unfold findOption
  rw [List.find?_congr fun option ho => isPrefixOf_append (comma_not_mem_names option ho) _ _]

theorem assignRange_append (value rest : List Char) :
    assignRange (value ++ ',' :: rest) (some (',' :: rest)) = .ok value := by
  unfold assignRange
  have hle : (',' :: rest).length ≤ (value ++ ',' :: rest).length := by
    rw [List.length_append]
    omega
  have hlength : (value ++ ',' :: rest).length - (',' :: rest).length = value.length := by
    rw [List.length_append]
    omega
  simp only [if_pos hle, hlength, List.take_left]

/-- The size of a range that begins behind its end. -/
theorem assignRange_behind {value next : List Char} (h : value.length < next.length) :
    assignRange value (some next) = .error .lengthError :=
  if_neg (Nat.not_le.mpr h)

theorem isYes_append (value rest : List Char) : isYes (value ++ ',' :: rest) = isYes value := by
  cases value with
  | nil => rfl
  | cons c value => rfl

theorem readField_append (value rest : List Char) (field : Field) :
    readField (value ++ ',' :: rest) (some (',' :: rest)) field =
      .ok (fieldSetting value field) := by
  cases field with
  | text field => rw [readField, assignRange_append]; rfl
  | number field =>
    rw [readField, atoi_append_cons (by decide) (by decide) (by decide) (by decide)]
    rfl
  | flag field => rw [readField, isYes_append]; rfl
  | prometheusPorts => rw [readField, assignRange_append]; rfl

theorem readField_none (value : List Char) (field : Field) :
    readField value none field = .ok (fieldSetting value field) := by
  cases field <;> rfl

/-- A segment with a '=', or with none behind it either, is read as it stands. -/
theorem readKey_last (key : List Char) : readKey key none = .ok (segmentSetting key) := by
  unfold readKey segmentSetting
  cases strchr key '=' with
  | none => rfl
  | some value =>
    cases findOption key with
    | none => rfl
    | some field => simp only [readField_none]; rfl

theorem readKey_segment (h : '=' ∈ segment ∨ '=' ∉ rest ∨ findOption segment = none) :
    readKey (segment ++ ',' :: rest) (some (',' :: rest)) = .ok (segmentSetting segment) := by
  unfold readKey segmentSetting
  rw [findOption_append]
  by_cases hs : '=' ∈ segment
  · obtain ⟨a, b, ha, rfl, hchr⟩ := strchr_of_mem hs
    rw [List.append_assoc, strchr_append_of_not_mem ha, List.cons_append, strchr_cons_self, hchr]
    cases findOption (a ++ '=' :: b) with
    | none => rfl
    | some field => simp only [List.tail_cons, readField_append]; rfl
  · rw [strchr_append_of_not_mem hs, strchr_eq_none.mpr hs]
    rcases h.resolve_left hs with hrest | hfind
    · have hnone : strchr (',' :: rest) '=' = none := strchr_eq_none.mpr (by simp [hrest])
      rw [hnone]
      rfl
    · rw [hfind]
      cases strchr (',' :: rest) '=' <;> rfl

/-- Otherwise the value lies behind the comma. -/
theorem readKey_behind {field : Field} (hs : '=' ∉ segment) (hrest : '=' ∈ rest)
    (hfield : findOption segment = some field) :
    ∃ value : List Char, value.length < (',' :: rest).length ∧
      readKey (segment ++ ',' :: rest) (some (',' :: rest)) =
        (readField value (some (',' :: rest)) field).map some := by
  obtain ⟨a, b, ha, he, hchr⟩ := strchr_of_mem (List.mem_cons_of_mem ',' hrest)
  refine ⟨b, ?_, ?_⟩
  · rw [he, List.length_append, List.length_cons]
    omega
  · unfold readKey
    rw [findOption_append, hfield, strchr_append_of_not_mem hs, hchr]
    rfl

/-- A range that ends at the comma is negative then. -/
theorem readKey_range {field : Field} (hs : '=' ∉ segment) (hrest : '=' ∈ rest)
    (hfield : findOption segment = some field) (hrange : IsRange field) :
    readKey (segment ++ ',' :: rest) (some (',' :: rest)) = .error .lengthError := by
  obtain ⟨value, hbehind, hread⟩ := readKey_behind hs hrest hfield
  rw [hread]
  cases field with
  | text field =>
    simp only [readField, assignRange_behind hbehind]
    rfl
  | prometheusPorts =>
    simp only [readField, assignRange_behind hbehind]
    rfl
  | _ => cases hrange

/-- Any other option is set to what is not its own. -/
theorem readKey_single {field : Field} (hs : '=' ∉ segment) (hrest : '=' ∈ rest)
    (hfield : findOption segment = some field) (hrange : ¬ IsRange field) :
    ∃ value, readKey (segment ++ ',' :: rest) (some (',' :: rest)) =
      .ok (some (fieldSetting value field)) := by
  obtain ⟨value, -, hread⟩ := readKey_behind hs hrest hfield
  refine ⟨value, hread.trans ?_⟩
  cases field with
  | number field => rfl
  | flag field => rfl
  | _ => exact absurd trivial hrange

theorem readKey_stray (hs : '=' ∉ segment) (hrest : '=' ∈ rest)
    (hfind : (findOption segment).isSome = true) :
    (∃ e, readKey (segment ++ ',' :: rest) (some (',' :: rest)) = .error e) ∨
      ∃ setting, readKey (segment ++ ',' :: rest) (some (',' :: rest)) = .ok (some setting) := by
  obtain ⟨field, hfield⟩ := Option.isSome_iff_exists.mp hfind
  by_cases hrange : IsRange field
  · exact .inl ⟨_, readKey_range hs hrest hfield hrange⟩
  · obtain ⟨value, hread⟩ := readKey_single hs hrest hfield hrange
    exact .inr ⟨_, hread⟩

/-! ## The whole string -/

theorem parseArguments_last {key : List Char} (h : ',' ∉ key)
    (configuration : ConfigurationOptions) :
    parseArguments key configuration =
      ⟨configure configuration (segmentSetting key), (segmentSetting key).toList, false⟩ := by
  rw [parseArguments, strchr_eq_none.mpr h, readKey_last]

theorem parseArguments_error {e : LengthError} (h : ',' ∉ segment)
    (he : readKey (segment ++ ',' :: rest) (some (',' :: rest)) = .error e)
    (configuration : ConfigurationOptions) :
    parseArguments (segment ++ ',' :: rest) configuration = ⟨configuration, [], true⟩ := by
  rw [parseArguments, strchr_comma h, he]

theorem parseArguments_ok {setting : Option Setting} (h : ',' ∉ segment)
    (hs : readKey (segment ++ ',' :: rest) (some (',' :: rest)) = .ok setting)
    (configuration : ConfigurationOptions) :
    parseArguments (segment ++ ',' :: rest) configuration =
      (parseArguments rest (configure configuration setting)).after setting := by
  rw [parseArguments, strchr_comma h, hs]
  rfl

theorem process_last {key : List Char} (h : ',' ∉ key) (configuration : ConfigurationOptions) :
    process key configuration =
      ⟨configure configuration (segmentSetting key), (segmentSetting key).toList, false⟩ := by
  unfold process
  rw [List.splitOn_eq_singleton h]
  cases hs : segmentSetting key <;> simp [hs]

theorem process_segment (h : ',' ∉ segment) (rest : List Char)
    (configuration : ConfigurationOptions) :
    process (segment ++ ',' :: rest) configuration =
      (process rest (configure configuration (segmentSetting segment))).after
        (segmentSetting segment) := by
  unfold process Parsed.after
  rw [splitOn_comma h]
  cases hs : segmentSetting segment <;> simp [hs]

theorem readKey_separated
    (h : (findOption segment).isSome = true → '=' ∉ segment → '=' ∉ rest) :
    readKey (segment ++ ',' :: rest) (some (',' :: rest)) = .ok (segmentSetting segment) := by
  refine readKey_segment ?_
  by_cases hs : '=' ∈ segment
  · exact .inl hs
  · cases hfind : findOption segment with
    | none => exact .inr (.inr rfl)
    | some field => exact .inr (.inl (h (by rw [hfind]; rfl) hs))

theorem segmentSetting_of_not_mem (hs : '=' ∉ segment) : segmentSetting segment = none := by
  rw [segmentSetting, strchr_eq_none.mpr hs]
  rfl

/-- Where nothing is thrown, no setting is missing. -/
theorem settings_length_le (key : List Char) (configuration configuration' : ConfigurationOptions)
    (h : (parseArguments key configuration).thrown = false) :
    (process key configuration').settings.length ≤
      (parseArguments key configuration).settings.length := by
  induction key using key_induction generalizing configuration configuration' with
  | last key hkey => rw [parseArguments_last hkey, process_last hkey]
  | segment segment rest hsegment ih =>
    rw [process_segment hsegment]
    by_cases hsep : (findOption segment).isSome = true → '=' ∉ segment → '=' ∉ rest
    · rw [parseArguments_ok hsegment (readKey_separated hsep)] at h ⊢
      simp only [Parsed.after, List.length_append]
      exact Nat.add_le_add_left (ih _ _ h) _
    · obtain ⟨hfind, hs, hrest⟩ : (findOption segment).isSome = true ∧ '=' ∉ segment ∧
          '=' ∈ rest := by simpa using hsep
      rw [segmentSetting_of_not_mem hs]
      rcases readKey_stray hs hrest hfind with ⟨e, hread⟩ | ⟨setting, hread⟩
      · rw [parseArguments_error hsegment hread] at h
        cases h
      · rw [parseArguments_ok hsegment hread] at h ⊢
        exact Nat.le_succ_of_le (ih _ _ h)

/-- A '=' in the rest is one in a segment of it. -/
theorem forall_mem_splitOn (rest : List Char) :
    (∀ later ∈ rest.splitOn ',', '=' ∉ later) ↔ '=' ∉ rest := by
  induction rest using key_induction with
  | last key hkey => simp [List.splitOn_eq_singleton hkey]
  | segment segment rest hsegment ih =>
    rw [splitOn_comma hsegment, List.forall_mem_cons, ih]
    simp

theorem separated_segment (h : ',' ∉ segment) (rest : List Char) :
    Separated (segment ++ ',' :: rest) ↔
      ((findOption segment).isSome = true → '=' ∉ segment → '=' ∉ rest) ∧ Separated rest := by
  unfold Separated
  rw [splitOn_comma h, List.pairwise_cons]
  refine and_congr_left fun _ => ?_
  rw [← forall_mem_splitOn rest]
  constructor
  · intro hl hf hs later hm
    exact hl later hm hf hs
  · intro hl later hm hf hs
    exact hl hf hs later hm

theorem Parsed.after_inj {setting : Option Setting} {p q : Parsed}
    (h : p.after setting = q.after setting) : p = q := by
  obtain ⟨c, l, t⟩ := p
  obtain ⟨c', l', t'⟩ := q
  simpa [Parsed.after] using h

/-- **The options are read by their grammar**, to the end and with no range of a negative
length, if and only if no option's name stands alone before a segment with a '='. -/
theorem parseArguments_eq_process_iff (options : List Char)
    (configuration : ConfigurationOptions) :
    parseArguments options configuration = process options configuration ↔
      Separated options := by
  induction options using key_induction generalizing configuration with
  | last key hkey =>
    rw [parseArguments_last hkey, process_last hkey, Separated, List.splitOn_eq_singleton hkey]
    simp
  | segment segment rest hsegment ih =>
    rw [separated_segment hsegment, process_segment hsegment]
    by_cases hsep : (findOption segment).isSome = true → '=' ∉ segment → '=' ∉ rest
    · rw [parseArguments_ok hsegment (readKey_separated hsep), ← ih]
      constructor
      · intro h
        exact ⟨hsep, Parsed.after_inj h⟩
      · rintro ⟨-, h⟩
        rw [h]
    · refine iff_of_false (fun h => ?_) fun h => hsep h.1
      obtain ⟨hfind, hs, hrest⟩ : (findOption segment).isSome = true ∧ '=' ∉ segment ∧
          '=' ∈ rest := by simpa using hsep
      rw [segmentSetting_of_not_mem hs] at h
      rcases readKey_stray hs hrest hfind with ⟨e, hread⟩ | ⟨setting, hread⟩
      · rw [parseArguments_error hsegment hread] at h
        exact absurd (congrArg Parsed.thrown h) Bool.true_eq_false.mp
      · -- The stray setting is one too many.
        rw [parseArguments_ok hsegment hread] at h
        have hthrown : (parseArguments rest (configure configuration (some setting))).thrown =
            false := congrArg Parsed.thrown h
        have hlength := congrArg (fun p => p.settings.length) h
        have hle := settings_length_le rest _ (configure configuration none) hthrown
        simp only [Parsed.after, List.length_append, Option.toList_some, Option.toList_none,
          List.length_singleton, List.length_nil] at hlength
        omega

/-- A host without a value, and the '=' of the next option before which its range would end. -/
theorem range_behind_comma : parseArguments "host,apiKey=k".toList (.init false) ≠
    process "host,apiKey=k".toList (.init false) := by
  have hread :
      readKey ("host".toList ++ ',' :: "apiKey=k".toList) (some (',' :: "apiKey=k".toList)) =
        .error .lengthError := rfl
  intro h
  have hthrown := (congrArg Parsed.thrown h).symm.trans
    (congrArg Parsed.thrown (parseArguments_error (by decide) hread (.init false)))
  cases hthrown

end Opsian.Startup.Grammar
