import Mathlib.Data.List.Nodup
import Opsian.Lib.Utf8
import Opsian.Lib.Varint

/-! # The wire format of protocol buffers

A message is a sequence of fields, each with a key of its number and the kind of its
value. A schema says how the members of a message are written as fields and read back:
a member at its default is not written, a repeated one is written once for each element.
The reader is strict, it takes no field that the schema does not have, and no string that is
not UTF-8. The writer takes all strings. -/
namespace Opsian.Lib.WireFormat
open Opsian.Lib.Utf8

variable {α : Type u} {σ : Type v}

/-! ## Reading one after another -/

/-- `fuel` only has to reach the last byte. -/
def readAll (read : List UInt8 → Option (α × List UInt8)) :
    Nat → List UInt8 → Option (List α)
  | _, [] => some []
  | 0, _ :: _ => none
  | fuel + 1, b :: bytes =>
    (read (b :: bytes)).bind fun x => (readAll read fuel x.2).map (x.1 :: ·)

/-- A reader that stops where the writer did reads a whole sequence back. -/
theorem readAll_flatMap {read : List UInt8 → Option (α × List UInt8)} {write : α → List UInt8}
    {as : List α} (hread : ∀ a ∈ as, ∀ rest, read (write a ++ rest) = some (a, rest))
    (hwrite : ∀ a ∈ as, write a ≠ []) {fuel : Nat} (hfuel : (as.flatMap write).length ≤ fuel) :
    readAll read fuel (as.flatMap write) = some as := by
  induction as generalizing fuel with
  | nil => cases fuel <;> rfl
  | cons a as ih =>
    have hfirst := hread a List.mem_cons_self (as.flatMap write)
    obtain ⟨b, bytes, hbytes⟩ := List.exists_cons_of_ne_nil (hwrite a List.mem_cons_self)
    rw [List.flatMap_cons, hbytes, List.cons_append] at hfuel
    rw [hbytes, List.cons_append] at hfirst
    obtain ⟨fuel, rfl⟩ : ∃ n, fuel = n + 1 := by
      cases fuel with
      | zero => cases hfuel
      | succ fuel => exact ⟨fuel, rfl⟩
    rw [List.length_cons, List.length_append] at hfuel
    have hrest : readAll read fuel (as.flatMap write) = some as :=
      ih (fun a' ha' => hread a' (List.mem_cons_of_mem a ha'))
        (fun a' ha' => hwrite a' (List.mem_cons_of_mem a ha')) (by omega)
    rw [List.flatMap_cons, hbytes, List.cons_append, readAll, hfirst, Option.bind_some, hrest]
    rfl

theorem mapM_eq_ite {β : Type w} {f : α → Option β} {g : α → β} {accepted : α → Bool}
    {as : List α} (h : ∀ a ∈ as, f a = if accepted a then some (g a) else none) :
    as.mapM f = if as.all accepted then some (as.map g) else none := by
  induction as with
  | nil => rfl
  | cons a as ih =>
    rw [List.mapM_cons, h a List.mem_cons_self,
      ih fun a' ha' => h a' (List.mem_cons_of_mem a ha'), List.all_cons]
    cases accepted a with
    | false => rfl
    | true => cases as.all accepted <;> rfl

theorem mapM_eq_some {β : Type w} {f : α → Option β} {g : α → β} {as : List α}
    (h : ∀ a ∈ as, f a = some (g a)) : as.mapM f = some (as.map g) := by
  induction as with
  | nil => rfl
  | cons a as ih =>
    rw [List.mapM_cons, h a List.mem_cons_self,
      ih fun a' ha' => h a' (List.mem_cons_of_mem a ha')]
    rfl

/-- A number at the start of the bytes, and what is left behind it. -/
def readVarint (bytes : List UInt8) : Option (Nat × List UInt8) :=
  (Varint.decode bytes).map fun x => (x.1, bytes.drop x.2)

theorem readVarint_encode (n : Nat) (rest : List UInt8) :
    readVarint (Varint.encode n ++ rest) = some (n, rest) := by
  rw [readVarint, Varint.decode_encode_append, Option.map_some, List.drop_left]

/-! ## Delimited bytes -/

/-- The length, then the bytes. -/
def delimit (bytes : List UInt8) : List UInt8 := Varint.encode bytes.length ++ bytes

def readDelimited (bytes : List UInt8) : Option (List UInt8 × List UInt8) :=
  (readVarint bytes).bind fun x =>
    if x.1 ≤ x.2.length then some (x.2.take x.1, x.2.drop x.1) else none

theorem readDelimited_delimit (bytes rest : List UInt8) :
    readDelimited (delimit bytes ++ rest) = some (bytes, rest) := by
  rw [readDelimited, delimit, List.append_assoc, readVarint_encode, Option.bind_some,
    if_pos (by rw [List.length_append]; exact Nat.le_add_right _ _), List.take_left,
    List.drop_left]

theorem delimit_ne_nil (bytes : List UInt8) : delimit bytes ≠ [] := by
  intro h
  have hpos := Varint.length_encode_pos bytes.length
  rw [(List.append_eq_nil_iff.mp h).1] at hpos
  cases hpos

theorem readAll_delimit (bodies : List (List UInt8)) :
    readAll readDelimited (bodies.flatMap delimit).length (bodies.flatMap delimit) =
      some bodies :=
  readAll_flatMap (fun b _ => readDelimited_delimit b) (fun b _ => delimit_ne_nil b)
    (Nat.le_refl _)

/-! ## Fields -/

/-- What stands behind a key; values of a fixed width are left out. -/
inductive Value where
  | varint (n : UInt64)
  | lengthDelimited (bytes : List UInt8)
  deriving DecidableEq, Repr

namespace Value

def wireType : Value → Nat
  | .varint _ => 0
  | .lengthDelimited _ => 2

def write : Value → List UInt8
  | .varint n => Varint.encode n.toNat
  | .lengthDelimited bytes => delimit bytes

end Value

structure Field where
  number : Nat
  value : Value
  deriving DecidableEq, Repr

def Field.write (f : Field) : List UInt8 :=
  Varint.encode (8 * f.number + f.value.wireType) ++ f.value.write

def readValue (wireType : Nat) (bytes : List UInt8) : Option (Value × List UInt8) :=
  match wireType with
  | 0 => (readVarint bytes).bind fun x =>
    if x.1 < 2 ^ 64 then some (.varint (UInt64.ofNat x.1), x.2) else none
  | 2 => (readDelimited bytes).map fun x => (.lengthDelimited x.1, x.2)
  | _ => none

def readField (bytes : List UInt8) : Option (Field × List UInt8) :=
  (readVarint bytes).bind fun key =>
    (readValue (key.1 % 8) key.2).map fun x => (⟨key.1 / 8, x.1⟩, x.2)

def writeFields (fs : List Field) : List UInt8 := fs.flatMap Field.write

def readFields (bytes : List UInt8) : Option (List Field) :=
  readAll readField bytes.length bytes

theorem Value.wireType_lt (v : Value) : v.wireType < 8 := by
  cases v with
  | varint => exact Nat.zero_lt_succ _
  | lengthDelimited =>
    show 2 < 8
    decide

theorem readValue_write (v : Value) (rest : List UInt8) :
    readValue v.wireType (v.write ++ rest) = some (v, rest) := by
  cases v with
  | varint n =>
    show (readVarint (Varint.encode n.toNat ++ rest)).bind _ = _
    rw [readVarint_encode, Option.bind_some, if_pos n.toNat_lt, UInt64.ofNat_toNat]
  | lengthDelimited bytes =>
    show (readDelimited (delimit bytes ++ rest)).map _ = _
    rw [readDelimited_delimit]
    rfl

theorem readField_write (f : Field) (rest : List UInt8) :
    readField (f.write ++ rest) = some (f, rest) := by
  have hkind := f.value.wireType_lt
  rw [readField, Field.write, List.append_assoc, readVarint_encode, Option.bind_some]
  have hmod : (8 * f.number + f.value.wireType) % 8 = f.value.wireType := by omega
  have hdiv : (8 * f.number + f.value.wireType) / 8 = f.number := by omega
  simp only [hmod, hdiv, readValue_write]
  rfl

theorem Field.write_ne_nil (f : Field) : f.write ≠ [] := by
  intro h
  have hpos := Varint.length_encode_pos (8 * f.number + f.value.wireType)
  rw [(List.append_eq_nil_iff.mp h).1] at hpos
  cases hpos

theorem readFields_writeFields (fs : List Field) : readFields (writeFields fs) = some fs :=
  readAll_flatMap (fun f _ => readField_write f) (fun f _ => f.write_ne_nil) (Nat.le_refl _)

/-! ## Schemas -/

/-- How a type is written as the value of a field. What is `valid` is of the type that the
field has; the reader takes it back where it is `accepted`, and refuses it elsewhere. -/
structure Codec (α : Type u) where
  valid : α → Prop
  accepted : α → Bool
  toValue : α → Value
  ofValue : Value → Option α
  ofValue_toValue : ∀ a, valid a → ofValue (toValue a) = if accepted a then some a else none

/-- A member of the messages `σ`. Where it is still fresh, reading what is written for it
copies it, or fails. -/
structure Member (σ : Type v) where
  numbers : List Nat
  valid : σ → Prop
  accepted : σ → Bool
  write : σ → List Field
  read : σ → Field → Option σ
  fresh : σ → Prop
  copy : σ → σ → σ
  owns : ∀ m, ∀ f ∈ write m, f.number ∈ numbers
  reads : ∀ m s, valid m → fresh s →
    (write m).foldlM read s = if accepted m then some (copy m s) else none

namespace Member

/-- It is not written at its default. -/
def singular [DecidableEq α] (c : Codec α) (default : α) (number : Nat) (get : σ → α)
    (set : σ → α → σ) (hset : ∀ s, set s (get s) = s) : Member σ where
  numbers := [number]
  valid m := c.valid (get m)
  accepted m := c.accepted (get m) || decide (get m = default)
  write m := if get m = default then [] else [⟨number, c.toValue (get m)⟩]
  read s f := (c.ofValue f.value).map (set s)
  fresh s := get s = default
  copy m s := set s (get m)
  owns m f hf := by
    split at hf
    · cases hf
    · rw [List.mem_singleton.mp hf]
      exact List.mem_singleton_self _
  reads m s hvalid hfresh := by
    split
    · rename_i hdefault
      rw [List.foldlM_nil, hdefault, ← hfresh, hset, decide_eq_true rfl, Bool.or_true]
      rfl
    · rename_i hset
      rw [decide_eq_false hset, Bool.or_false, List.foldlM_cons, c.ofValue_toValue _ hvalid]
      cases c.accepted (get m) <;> rfl

/-- It is written even at its default, where it is there. -/
def optional (c : Codec α) (number : Nat) (get : σ → Option α) (set : σ → Option α → σ)
    (hset : ∀ s, set s (get s) = s) : Member σ where
  numbers := [number]
  valid m := ∀ a ∈ get m, c.valid a
  accepted m := (get m).all c.accepted
  write m := (get m).toList.map fun a => ⟨number, c.toValue a⟩
  read s f := (c.ofValue f.value).map fun a => set s (some a)
  fresh s := get s = none
  copy m s := set s (get m)
  owns m f hf := by
    obtain ⟨a, -, rfl⟩ := List.mem_map.mp hf
    exact List.mem_singleton_self _
  reads m s hvalid hfresh := by
    cases h : get m with
    | none =>
      have hcopy : set s none = s := by rw [← hfresh, hset]
      rw [hcopy]
      rfl
    | some a =>
      rw [Option.toList_some, List.map_cons, List.foldlM_cons, c.ofValue_toValue a (hvalid a h),
        Option.all_some]
      cases c.accepted a <;> rfl

/-- It is written once for each element. -/
def repeated (c : Codec α) (number : Nat) (get : σ → List α) (set : σ → List α → σ)
    (hget : ∀ s l, get (set s l) = l) (hset : ∀ s, set s (get s) = s)
    (hset_set : ∀ s l l', set (set s l) l' = set s l') : Member σ where
  numbers := [number]
  valid m := ∀ a ∈ get m, c.valid a
  accepted m := (get m).all c.accepted
  write m := (get m).map fun a => ⟨number, c.toValue a⟩
  read s f := (c.ofValue f.value).map fun a => set s (get s ++ [a])
  fresh s := get s = []
  copy m s := set s (get m)
  owns m f hf := by
    obtain ⟨a, -, rfl⟩ := List.mem_map.mp hf
    exact List.mem_singleton_self _
  reads m s hvalid hfresh := by
    -- The elements behind those that were read already.
    have hread (l : List α) (hl : ∀ a ∈ l, c.valid a) (s : σ) :
        (l.map fun a => Field.mk number (c.toValue a)).foldlM
          (fun s f => (c.ofValue f.value).map fun a => set s (get s ++ [a])) s =
            if l.all c.accepted then some (set s (get s ++ l)) else none := by
      induction l generalizing s with
      | nil =>
        rw [List.append_nil, hset]
        rfl
      | cons a l ih =>
        have hrest := ih (fun b hb => hl b (List.mem_cons_of_mem a hb)) (set s (get s ++ [a]))
        rw [hget, hset_set, List.append_assoc] at hrest
        rw [List.map_cons, List.foldlM_cons, c.ofValue_toValue a (hl a List.mem_cons_self),
          List.all_cons]
        cases c.accepted a with
        | false => rfl
        | true => exact hrest
    rw [hread _ hvalid, hfresh]
    rfl

end Member

/-- The members in turn are fresh when they are read, and make the whole message. -/
def Ready : List (Member σ) → σ → σ → Prop
  | [], m, s => s = m
  | c :: cs, m, s => c.fresh s ∧ Ready cs m (c.copy m s)

structure Message (σ : Type v) where
  empty : σ
  members : List (Member σ)
  nodup : (members.flatMap Member.numbers).Nodup
  ready : ∀ m, Ready members m empty

namespace Message

variable (M : Message σ)

def Valid (m : σ) : Prop := M.members.Forall fun c => c.valid m

def accepted (m : σ) : Bool := M.members.all fun c => c.accepted m

def fields (m : σ) : List Field := M.members.flatMap fun c => c.write m

def encode (m : σ) : List UInt8 := writeFields (M.fields m)

/-- The member that the field belongs to reads it. -/
def readMember (s : σ) (f : Field) : Option σ :=
  (M.members.find? fun c => decide (f.number ∈ c.numbers)).bind fun c => c.read s f

/-- The fields are read into a message that is there already. -/
def mergeFrom (s : σ) (bytes : List UInt8) : Option σ :=
  (readFields bytes).bind fun fs => fs.foldlM M.readMember s

def decode (bytes : List UInt8) : Option σ := M.mergeFrom M.empty bytes

variable {M}

theorem find_owner {cs : List (Member σ)} (hnodup : (cs.flatMap Member.numbers).Nodup)
    {c : Member σ} (hc : c ∈ cs) {n : Nat} (hn : n ∈ c.numbers) :
    cs.find? (fun c => decide (n ∈ c.numbers)) = some c := by
  induction cs with
  | nil => cases hc
  | cons d cs ih =>
    rw [List.flatMap_cons, List.nodup_append] at hnodup
    obtain ⟨-, hrest, hapart⟩ := hnodup
    rcases List.mem_cons.mp hc with rfl | hc
    · exact List.find?_cons_of_pos (decide_eq_true hn)
    · have hnot : n ∉ d.numbers := fun hd =>
        hapart n hd n (List.mem_flatMap.mpr ⟨c, hc, hn⟩) rfl
      rw [List.find?_cons_of_neg (by rw [decide_eq_true_eq]; exact hnot)]
      exact ih hrest hc

theorem foldlM_congr {τ : Type w} {read read' : σ → τ → Option σ} {l : List τ}
    (h : ∀ x ∈ l, ∀ s, read s x = read' s x) (s : σ) : l.foldlM read s = l.foldlM read' s := by
  induction l generalizing s with
  | nil => rfl
  | cons x l ih =>
    rw [List.foldlM_cons, List.foldlM_cons, h x List.mem_cons_self]
    exact bind_congr fun t => ih (fun y hy => h y (List.mem_cons_of_mem x hy)) t

/-- What is written for a member is read by it. -/
theorem foldlM_readMember {c : Member σ} (hc : c ∈ M.members) {m s : σ} (hvalid : c.valid m)
    (hfresh : c.fresh s) : (c.write m).foldlM M.readMember s =
      if c.accepted m then some (c.copy m s) else none := by
  rw [← c.reads m s hvalid hfresh]
  refine foldlM_congr (fun f hf s => ?_) s
  rw [readMember, find_owner M.nodup hc (c.owns m f hf), Option.bind_some]

theorem foldlM_ready {cs : List (Member σ)} (hcs : ∀ c ∈ cs, c ∈ M.members) {m s : σ}
    (hvalid : M.Valid m) (h : Ready cs m s) :
    (cs.flatMap fun c => c.write m).foldlM M.readMember s =
      if cs.all fun c => c.accepted m then some m else none := by
  induction cs generalizing s with
  | nil =>
    cases h
    rfl
  | cons c cs ih =>
    obtain ⟨hfresh, hready⟩ := h
    have hc := hcs c List.mem_cons_self
    have hvalidc := List.forall_iff_forall_mem.mp hvalid c hc
    rw [List.flatMap_cons, List.foldlM_append, foldlM_readMember hc hvalidc hfresh,
      List.all_cons]
    cases c.accepted m with
    | false => rfl
    | true => exact ih (fun d hd => hcs d (List.mem_cons_of_mem c hd)) hready

/-- **A message is read back as it was written**, unless there is a string in it that the
reader refuses. -/
theorem decode_encode {m : σ} (h : M.Valid m) :
    M.decode (M.encode m) = if M.accepted m then some m else none := by
  rw [decode, mergeFrom, encode, readFields_writeFields, Option.bind_some]
  exact foldlM_ready (fun c hc => hc) h (M.ready m)

variable (M)

/-- The message as the value of a field of another one. -/
def codec : Codec σ where
  valid := M.Valid
  accepted := M.accepted
  toValue m := .lengthDelimited (M.encode m)
  ofValue
    | .lengthDelimited bytes => M.decode bytes
    | .varint _ => none
  ofValue_toValue _ h := decode_encode h

end Message

/-! ## Scalars -/

namespace Codec

/-- A type whose elements have numbers. -/
def number (toNumber : α → UInt64) (ofNumber : UInt64 → Option α)
    (h : ∀ a, ofNumber (toNumber a) = some a) : Codec α where
  valid _ := True
  accepted _ := true
  toValue a := .varint (toNumber a)
  ofValue
    | .varint n => ofNumber n
    | .lengthDelimited _ => none
  ofValue_toValue a _ := h a

def uint64 : Codec UInt64 := number id some fun _ => rfl

def uint32 : Codec UInt32 :=
  number UInt32.toUInt64 (fun n => some n.toUInt32) fun n => by simp

def int64 : Codec Int64 :=
  number Int64.toUInt64 (fun n => some n.toInt64) fun n => by simp

/-- A negative number is written as one of 64 bits. -/
def int32 : Codec Int32 :=
  number (fun n => n.toInt64.toUInt64) (fun n => some n.toInt64.toInt32) fun n => by simp

def bool : Codec Bool :=
  number (fun b => if b then 1 else 0) (fun n => some (n != 0)) fun b => by cases b <;> rfl

/-- The writer takes all bytes, and the reader only those of UTF-8. -/
def string : Codec String where
  valid _ := True
  accepted s := validUtf8 s.toList
  toValue s := .lengthDelimited (s.toList.map byteOf)
  ofValue
    | .lengthDelimited bytes =>
      if validUtf8 (bytes.map charOf) then some (String.ofList (bytes.map charOf)) else none
    | .varint _ => none
  ofValue_toValue s _ := by
    show (if validUtf8 ((s.toList.map byteOf).map charOf) then _ else none) = _
    rw [validUtf8_bytes]
    by_cases hvalid : validUtf8 s.toList = true
    · rw [if_pos hvalid, if_pos hvalid, chars_of_bytes hvalid, String.ofList_toList]
    · rw [if_neg hvalid, if_neg hvalid]

end Codec

end Opsian.Lib.WireFormat
