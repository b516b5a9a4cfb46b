import Opsian.Lib.Utf8

/-! # The text format of samples

One line of the Prometheus text format, with a value that is a whole number:

    name{label="value",label="value"} value timestamp

In a label's value `\`, `"` and the line feed are escaped, and all else must be UTF-8. -/
namespace Opsian.Lib.TextFormat
open Opsian.Lib.Utf8

structure Sample where
  name : List Char
  labels : List (List Char × List Char)
  value : Int
  timestamp : Option Int
  deriving DecidableEq, Repr

/-! ## Tokens -/

def isBlank (c : Char) : Bool := c == ' ' || c == '\t'

def skipBlanks (s : List Char) : List Char := s.dropWhile isBlank

/-- The text behind blanks and a delimiter. -/
def expect (c : Char) (s : List Char) : Option (List Char) :=
  match skipBlanks s with
  | [] => none
  | d :: rest => if d = c then some rest else none

def isLabelStart (c : Char) : Bool := c.isAlpha || c == '_'

def isLabelChar (c : Char) : Bool := isLabelStart c || c.isDigit

def isMetricStart (c : Char) : Bool := isLabelStart c || c == ':'

def isMetricChar (c : Char) : Bool := isLabelChar c || c == ':'

/-- A name, and what is behind it. -/
def readName (isStart isChar : Char → Bool) (s : List Char) : Option (List Char × List Char) :=
  if (s.head?.any isStart) then some (s.takeWhile isChar, s.dropWhile isChar) else none

def readNat (s : List Char) : Option Nat :=
  if s ≠ [] ∧ s.all Char.isDigit then some (Nat.ofDigitChars 10 s 0) else none

def readInt : List Char → Option Int
  | '-' :: s => (readNat s).map fun n : Nat => -(n : Int)
  | s => (readNat s).map Int.ofNat

def isToken (c : Char) : Bool := !isBlank c && c != '\n'

/-! ## Labels -/

/-- What stands behind a backslash. -/
def escaped (c : Char) : Option Char :=
  if c = '\\' then some '\\'
  else if c = '"' then some '"'
  else if c = 'n' then some '\n'
  else none

/-- The value of a label, behind its opening quote, and what is behind the closing one. -/
def labelValue : List Char → Option (List Char × List Char)
  | [] => none
  | [c] => if c = '"' then some ([], []) else none
  | c :: d :: s =>
    if c = '"' then some ([], d :: s)
    else if c = '\n' then none
    else if c = '\\' then
      (escaped d).bind fun e => (labelValue s).map fun x => (e :: x.1, x.2)
    else (labelValue (d :: s)).map fun x => (c :: x.1, x.2)

def readLabel (s : List Char) : Option ((List Char × List Char) × List Char) := do
  let name ← readName isLabelStart isLabelChar (skipBlanks s)
  let s ← expect '=' name.2
  let s ← expect '"' s
  let value ← labelValue s
  if validUtf8 value.1 then some ((name.1, value.1), value.2) else none

/-- What is behind a label: a comma and more of them, or the closing brace. -/
def moreLabels (read : List Char → Option (List (List Char × List Char) × List Char))
    (s : List Char) : Option (List (List Char × List Char) × List Char) :=
  match expect ',' s with
  | some s => read s
  | none => (expect '\x7d' s).map fun s => ([], s)

/-- The labels behind the opening brace, at most so many, and what is behind the closing one. -/
def readLabels : Nat → List Char → Option (List (List Char × List Char) × List Char)
  | 0, _ => none
  | n + 1, s =>
    match expect '\x7d' s with
    | some s => some ([], s)
    | none => do
      let label ← readLabel s
      let more ← moreLabels (readLabels n) label.2
      return (label.1 :: more.1, more.2)

/-- The value and the timestamp, up to the end of the line. -/
def readValue (s : List Char) : Option (Int × Option Int) := do
  let s := skipBlanks s
  let value ← readInt (s.takeWhile isToken)
  let s := skipBlanks (s.dropWhile isToken)
  if s = ['\n'] then return (value, none)
  let timestamp ← readInt (s.takeWhile isToken)
  if skipBlanks (s.dropWhile isToken) = ['\n'] then return (value, some timestamp) else none

def readSample (s : List Char) : Option Sample := do
  let name ← readName isMetricStart isMetricChar (skipBlanks s)
  let labels ←
    match expect '\x7b' name.2 with
    | some s => readLabels (s.length + 1) s
    | none => some ([], name.2)
  let value ← readValue labels.2
  return ⟨name.1, labels.1, value.1, value.2⟩

variable {c d : Char} {s rest v w : List Char}

/-! ## Reading tokens -/

theorem skipBlanks_cons (h : isBlank c = false) (s : List Char) :
    skipBlanks (c :: s) = c :: s := by
  simp [skipBlanks, h]

theorem expect_cons (h : isBlank c = false) (s : List Char) : expect c (c :: s) = some s := by
  rw [expect, skipBlanks_cons h]
  exact if_pos rfl

theorem expect_of_ne (h : isBlank d = false) (hne : d ≠ c) (s : List Char) :
    expect c (d :: s) = none := by
  rw [expect, skipBlanks_cons h]
  exact if_neg hne

/-- What may be read as a name, and is not empty. -/
def IsName (isStart isChar : Char → Bool) (name : List Char) : Prop :=
  (name.head?.any isStart) = true ∧ ∀ c ∈ name, isChar c = true

theorem readName_append {isStart isChar : Char → Bool} {name : List Char}
    (h : IsName isStart isChar name) (hc : isChar c = false) (rest : List Char) :
    readName isStart isChar (name ++ c :: rest) = some (name, c :: rest) := by
  have hhead : (name ++ c :: rest).head?.any isStart = true := by
    cases name with
    | nil => exact absurd h.1 (by simp)
    | cons d name => exact h.1
  rw [readName, if_pos hhead, List.takeWhile_append_of_pos h.2, List.dropWhile_append_of_pos h.2]
  simp [hc]

theorem readNat_toDigits (n : Nat) : readNat (Nat.toDigits 10 n) = some n := by
  rw [readNat, if_pos, Nat.ofDigitChars_ten_toDigits]
  refine ⟨Nat.toDigits_ne_nil, List.all_eq_true.mpr fun c hc => ?_⟩
  exact Nat.isDigit_of_mem_toDigits (by decide) (by decide) hc

/-- The digits of a number, behind a minus sign if there is one. -/
theorem toList_toString (i : Int) :
    (toString i).toList =
      if 0 ≤ i then Nat.toDigits 10 i.toNat else '-' :: Nat.toDigits 10 (-i).toNat := by
  rw [Int.toString_eq_repr, Int.repr_eq_if]
  split
  · simp [Nat.repr_eq_ofList_toDigits]
  · simp [Nat.repr_eq_ofList_toDigits]

theorem readInt_toString (i : Int) : readInt (toString i).toList = some i := by
  rw [toList_toString]
  by_cases hi : 0 ≤ i
  · rw [if_pos hi]
    have hread := readNat_toDigits i.toNat
    unfold readInt
    split
    · next s hs =>
      have hdigit := Nat.isDigit_of_mem_toDigits (b := 10) (n := i.toNat) (c := '-')
        (by decide) (by decide) (by rw [hs]; exact List.mem_cons_self)
      exact absurd hdigit (by decide)
    · rw [hread, Option.map_some]
      exact congrArg some (Int.toNat_of_nonneg hi)
  · rw [if_neg hi, readInt, readNat_toDigits, Option.map_some]
    congr 1
    omega

theorem isToken_of_mem_toString {i : Int} (h : c ∈ (toString i).toList) : isToken c = true := by
  have hdigit {n : Nat} (hc : c ∈ Nat.toDigits 10 n) : isToken c = true := by
    have hd := Nat.isDigit_of_mem_toDigits (by decide) (by decide) hc
    have hblank : c ≠ ' ' ∧ c ≠ '\t' ∧ c ≠ '\n' := by
      refine ⟨?_, ?_, ?_⟩ <;>
      · rintro rfl
        exact absurd hd (by decide)
    simp [isToken, isBlank, hblank]
  rw [toList_toString] at h
  split at h
  · exact hdigit h
  · rcases List.mem_cons.mp h with rfl | h
    · rfl
    · exact hdigit h

/-- A value at the end of the line. -/
theorem readValue_toString (i : Int) :
    readValue (' ' :: ((toString i).toList ++ ['\n'])) = some (i, none) := by
  have hskip :
      skipBlanks (' ' :: ((toString i).toList ++ ['\n'])) = (toString i).toList ++ ['\n'] := by
    cases hi : (toString i).toList with
    | nil => rfl
    | cons c s =>
      have hc := isToken_of_mem_toString (i := i) (c := c) (by rw [hi]; exact List.mem_cons_self)
      have hblank : isBlank c = false := by
        simp only [isToken, Bool.and_eq_true, Bool.not_eq_true'] at hc
        exact hc.1
      exact skipBlanks_cons hblank _
  have htoken : ∀ c ∈ (toString i).toList, isToken c = true := fun c => isToken_of_mem_toString
  have htake : ((toString i).toList ++ ['\n']).takeWhile isToken = (toString i).toList := by
    rw [List.takeWhile_append_of_pos htoken]
    exact List.append_nil _
  have hdrop : ((toString i).toList ++ ['\n']).dropWhile isToken = ['\n'] := by
    rw [List.dropWhile_append_of_pos htoken]
    rfl
  unfold readValue
  simp only [hskip, htake, hdrop, readInt_toString]
  rfl

/-! ## Reading a label -/

/-- What is written as it is. -/
structure Plain (v : List Char) : Prop where
  unescaped : ∀ c ∈ v, c ≠ '\\' ∧ c ≠ '\"' ∧ c ≠ '\n'
  utf8 : validUtf8 v = true

theorem labelValue_cons_of_plain (hslash : c ≠ '\\') (hquote : c ≠ '\"') (hfeed : c ≠ '\n')
    (s : List Char) :
    labelValue (c :: s) = (labelValue s).map fun x => (c :: x.1, x.2) := by
  cases s with
  | nil => simp [labelValue, hquote]
  | cons d s => simp [labelValue, hslash, hquote, hfeed]

theorem labelValue_quote (s : List Char) : labelValue ('\"' :: s) = some ([], s) := by
  cases s <;> rfl

/-- The first character, if it is no backslash, ends the value or stands for itself. -/
theorem labelValue_cons_cases {after : List Char} (hslash : c ≠ '\\')
    (h : labelValue (c :: s) = some (w, after)) :
    (c = '\"' ∧ w = [] ∧ after = s) ∨
      (c ≠ '\"' ∧ c ≠ '\n' ∧ ∃ tail, w = c :: tail ∧ labelValue s = some (tail, after)) := by
  by_cases hquote : c = '\"'
  · subst hquote
    rw [labelValue_quote] at h
    obtain ⟨rfl, rfl⟩ := Prod.mk.inj (Option.some.inj h)
    exact .inl ⟨rfl, rfl, rfl⟩
  · by_cases hfeed : c = '\n'
    · subst hfeed
      cases s with
      | nil => cases h
      | cons d s => simp [labelValue] at h
    · rw [labelValue_cons_of_plain hslash hquote hfeed] at h
      obtain ⟨x, hx, heq⟩ := Option.map_eq_some_iff.mp h
      obtain ⟨rfl, rfl⟩ := Prod.mk.inj heq
      exact .inr ⟨hquote, hfeed, x.1, rfl, hx⟩

theorem labelValue_slash (d : Char) (s : List Char) :
    labelValue ('\\' :: d :: s) =
      (escaped d).bind fun e => (labelValue s).map fun x => (e :: x.1, x.2) := by
  simp [labelValue]

theorem labelValue_of_plain (h : ∀ c ∈ v, c ≠ '\\' ∧ c ≠ '\"' ∧ c ≠ '\n') (rest : List Char) :
    labelValue (v ++ '\"' :: rest) = some (v, rest) := by
  induction v with
  | nil => exact labelValue_quote rest
  | cons c v ih =>
    obtain ⟨⟨hslash, hquote, hfeed⟩, hv⟩ := List.forall_mem_cons.mp h
    rw [List.cons_append, labelValue_cons_of_plain hslash hquote hfeed, ih hv]
    rfl

theorem eq_slash_of_escaped (h : escaped d = some '\\') : d = '\\' := by
  unfold escaped at h
  split at h
  · assumption
  · split at h
    · cases Option.some.inj h
    · split at h
      · cases Option.some.inj h
      · cases h

/-- What is read behind a backslash that stands for itself. -/
theorem labelValue_slash_slash {after : List Char}
    (h : labelValue ('\\' :: d :: s) = some ('\\' :: w, after)) :
    d = '\\' ∧ labelValue s = some (w, after) := by
  rw [labelValue_slash] at h
  obtain ⟨e, he, h⟩ := Option.bind_eq_some_iff.mp h
  obtain ⟨x, hx, heq⟩ := Option.map_eq_some_iff.mp h
  obtain ⟨hcons, rfl⟩ := Prod.mk.inj heq
  obtain ⟨rfl, rfl⟩ := List.cons.inj hcons
  exact ⟨eq_slash_of_escaped he, hx⟩

/-- A backslash that is read has swallowed another one: what is still to be read grows in
backslashes, while the text gets shorter. -/
theorem labelValue_ne_slashes (hv : v ≠ []) (hall : ∀ c ∈ v, c = '\\') (s rest after : List Char) :
    labelValue (s ++ '\"' :: rest) ≠ some (v ++ s, after) := by
  induction hn : s.length using Nat.strongRecOn generalizing s v with
  | ind n ih =>
    intro h
    obtain ⟨c, v, rfl⟩ := List.exists_cons_of_ne_nil hv
    obtain ⟨rfl, hv'⟩ := List.forall_mem_cons.mp hall
    cases s with
    | nil =>
      rw [List.nil_append, labelValue_quote] at h
      cases congrArg Prod.fst (Option.some.inj h)
    | cons c s =>
      by_cases hslash : c = '\\'
      · subst hslash
        cases s with
        | nil =>
          obtain ⟨hd, -⟩ := labelValue_slash_slash h
          exact absurd hd (by decide)
        | cons d s =>
          obtain ⟨rfl, hrest⟩ := labelValue_slash_slash h
          have hgrown : labelValue (s ++ '\"' :: rest) =
              some ((v ++ ['\\', '\\']) ++ s, after) := by
            rw [List.append_assoc]
            exact hrest
          refine ih s.length ?_ (by simp) ?_ s rfl hgrown
          · rw [← hn, List.length_cons, List.length_cons]
            omega
          · intro c hc
            rcases List.mem_append.mp hc with hc | hc
            · exact hv' c hc
            · simpa using hc
      · rcases labelValue_cons_cases hslash h with ⟨-, hnil, -⟩ | ⟨-, -, w, hw, -⟩
        · cases hnil
        · exact hslash (List.cons.inj hw).1.symm

/-- A value is read back exactly if nothing in it needs to be escaped. -/
theorem labelValue_iff {after : List Char} :
    labelValue (v ++ '\"' :: rest) = some (v, after) ↔
      (∀ c ∈ v, c ≠ '\\' ∧ c ≠ '\"' ∧ c ≠ '\n') ∧ after = rest := by
  constructor
  · intro h
    induction v with
    | nil =>
      rw [List.nil_append, labelValue_quote] at h
      exact ⟨nofun, (congrArg Prod.snd (Option.some.inj h)).symm⟩
    | cons c v ih =>
      by_cases hslash : c = '\\'
      · subst hslash
        cases v with
        | nil =>
          obtain ⟨hd, -⟩ := labelValue_slash_slash h
          exact absurd hd (by decide)
        | cons d v =>
          obtain ⟨rfl, hrest⟩ := labelValue_slash_slash h
          exact absurd hrest (labelValue_ne_slashes (v := ['\\']) (by simp) (by simp) v rest after)
      · rcases labelValue_cons_cases hslash h with ⟨-, hnil, -⟩ | ⟨hquote, hfeed, w, hw, htail⟩
        · cases hnil
        · obtain ⟨-, rfl⟩ := List.cons.inj hw
          obtain ⟨hplain, rfl⟩ := ih htail
          exact ⟨List.forall_mem_cons.mpr ⟨⟨hslash, hquote, hfeed⟩, hplain⟩, rfl⟩
  · rintro ⟨hplain, rfl⟩
    exact labelValue_of_plain hplain after

/-! ## Reading a line -/

variable {name after : List Char} {ls : List (List Char × List Char)} {n : Nat}

/-- No name begins with a blank or a delimiter. -/
theorem exists_of_isName {isStart isChar : Char → Bool} (h : IsName isStart isChar name) :
    ∃ c s, name = c :: s ∧ isStart c = true := by
  cases name with
  | nil => exact absurd h.1 (by simp)
  | cons c s => exact ⟨c, s, rfl, h.1⟩

theorem not_blank_of_isMetricStart (h : isMetricStart c = true) : isBlank c = false := by
  have hne : c ≠ ' ' ∧ c ≠ '\t' := by
    constructor <;>
    · rintro rfl
      exact absurd h (by decide)
  simp [isBlank, hne]

theorem isMetricStart_of_isLabelStart (h : isLabelStart c = true) : isMetricStart c = true := by
  simp [isMetricStart, h]

theorem readLabel_iff (hname : IsName isLabelStart isLabelChar name) :
    readLabel (name ++ '=' :: '\"' :: (v ++ '\"' :: rest)) = some ((name, v), after) ↔
      Plain v ∧ after = rest := by
  obtain ⟨c, cs, hcs, hc⟩ := exists_of_isName hname
  have hskip (s : List Char) : skipBlanks (name ++ s) = name ++ s := by
    rw [hcs]
    exact skipBlanks_cons (not_blank_of_isMetricStart (isMetricStart_of_isLabelStart hc)) _
  have hread : readLabel (name ++ '=' :: '\"' :: (v ++ '\"' :: rest)) =
      (labelValue (v ++ '\"' :: rest)).bind fun x =>
        if validUtf8 x.1 then some ((name, x.1), x.2) else none := by
    unfold readLabel
    rw [hskip, readName_append hname (by decide)]
    rfl
  rw [hread]
  constructor
  · intro h
    obtain ⟨x, hx, h⟩ := Option.bind_eq_some_iff.mp h
    obtain ⟨hutf8, heq⟩ := Option.ite_none_right_eq_some.mp h
    obtain ⟨hlabel, rfl⟩ := Prod.mk.inj (Option.some.inj heq)
    obtain ⟨-, rfl⟩ := Prod.mk.inj hlabel
    obtain ⟨hplain, hrest⟩ := labelValue_iff.mp hx
    exact ⟨⟨hplain, hutf8⟩, hrest⟩
  · rintro ⟨hplain, rfl⟩
    rw [labelValue_of_plain hplain.unescaped, Option.bind_some, if_pos hplain.utf8]

theorem readLabels_iff (hname : IsName isLabelStart isLabelChar name) :
    readLabels (n + 1) (name ++ '=' :: '\"' :: (v ++ '\"' :: rest)) =
        some ((name, v) :: ls, after) ↔
      Plain v ∧ moreLabels (readLabels n) rest = some (ls, after) := by
  obtain ⟨c, cs, hcs, hc⟩ := exists_of_isName hname
  have hbrace (s : List Char) : expect '\x7d' (name ++ s) = none := by
    rw [hcs]
    refine expect_of_ne (not_blank_of_isMetricStart (isMetricStart_of_isLabelStart hc)) ?_ _
    rintro rfl
    exact absurd hc (by decide)
  have hread : readLabels (n + 1) (name ++ '=' :: '\"' :: (v ++ '\"' :: rest)) =
      (readLabel (name ++ '=' :: '\"' :: (v ++ '\"' :: rest))).bind fun label =>
        (moreLabels (readLabels n) label.2).bind fun more => some (label.1 :: more.1, more.2) := by
    rw [readLabels, hbrace]
    rfl
  rw [hread]
  constructor
  · intro h
    obtain ⟨label, hlabel, h⟩ := Option.bind_eq_some_iff.mp h
    obtain ⟨more, hmore, h⟩ := Option.bind_eq_some_iff.mp h
    obtain ⟨hcons, rfl⟩ := Prod.mk.inj (Option.some.inj h)
    obtain ⟨hfirst, rfl⟩ := List.cons.inj hcons
    have hlabel' : label = ((name, v), label.2) := Prod.ext hfirst rfl
    rw [hlabel'] at hlabel
    obtain ⟨hplain, hrest⟩ := (readLabel_iff hname).mp hlabel
    exact ⟨hplain, hrest ▸ hmore⟩
  · rintro ⟨hplain, hmore⟩
    rw [(readLabel_iff hname).mpr ⟨hplain, rfl⟩, Option.bind_some, hmore]
    rfl

theorem moreLabels_comma (n : Nat) (s : List Char) :
    moreLabels (readLabels n) (',' :: s) = readLabels n s := by
  rw [moreLabels, expect_cons (by decide)]

theorem moreLabels_brace (n : Nat) (s : List Char) :
    moreLabels (readLabels n) ('\x7d' :: s) = some ([], s) := by
  rw [moreLabels, expect_of_ne (by decide) (by decide), expect_cons (by decide)]
  rfl

theorem readSample_iff (hname : IsName isMetricStart isMetricChar name) {value : Int} :
    readSample (name ++ '\x7b' :: s) = some ⟨name, ls, value, none⟩ ↔
      ∃ after, readLabels (s.length + 1) s = some (ls, after) ∧
        readValue after = some (value, none) := by
  obtain ⟨c, cs, hcs, hc⟩ := exists_of_isName hname
  have hskip (s : List Char) : skipBlanks (name ++ s) = name ++ s := by
    rw [hcs]
    exact skipBlanks_cons (not_blank_of_isMetricStart hc) _
  have hread : readSample (name ++ '\x7b' :: s) =
      (readLabels (s.length + 1) s).bind fun labels => (readValue labels.2).bind fun value =>
        some ⟨name, labels.1, value.1, value.2⟩ := by
    unfold readSample
    rw [hskip, readName_append hname (by decide)]
    rfl
  rw [hread]
  constructor
  · intro h
    obtain ⟨labels, hlabels, h⟩ := Option.bind_eq_some_iff.mp h
    obtain ⟨x, hx, h⟩ := Option.bind_eq_some_iff.mp h
    obtain ⟨-, rfl, rfl, hnone⟩ := Sample.mk.inj (Option.some.inj h)
    exact ⟨labels.2, hlabels, hx.trans (congrArg some (Prod.ext rfl hnone))⟩
  · rintro ⟨after, hlabels, hvalue⟩
    rw [hlabels, Option.bind_some, hvalue]
    rfl

end Opsian.Lib.TextFormat
