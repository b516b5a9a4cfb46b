import Mathlib.Data.List.TakeWhile
import Opsian.Protocol.Handler

/-! # What the read chain makes of delimited messages

The collector writes its messages back to back, each as a varint of its length
and then its bytes. The chain always takes five header bytes first, so a frame
shorter than that swallows the start of the next one and wraps the length of
the read behind it, and a frame longer than the buffer is written past its end.
Up to the first such frame the bodies are parsed one by one, and none behind it. -/
namespace Opsian.Protocol.Framing
open Opsian.Lib Opsian.Protocol.Handler

/-- A message body whose length a varint32 can carry. -/
structure Message where
  body : List UInt8
  length_lt : body.length < 2 ^ 32

/-- The delimited form: the length, then the body. -/
def Message.frame (m : Message) : List UInt8 := Varint.encode m.body.length ++ m.body

def frames (ms : List Message) : List UInt8 := ms.flatMap Message.frame

/-- The frame covers the header bytes and fits the buffer. -/
def Message.Framed (m : Message) : Prop :=
  maxHeaderSize ≤ m.frame.length ∧ m.frame.length ≤ maxBufferSize

instance (m : Message) : Decidable m.Framed := inferInstanceAs (Decidable (_ ∧ _))

section Chain
variable (parse : List UInt8 → Option CollectorEnvelope)

/-- Completes the outstanding read from the stream as long as the stream holds
the bytes it waits for. -/
def pump : Nat → State → List UInt8 → State
  | 0, s, _ => s
  | fuel + 1, s, stream =>
    match s.pending with
    | none => s
    | some r =>
      if r.len ≤ stream.length then
        match step parse s (.complete (.ok (stream.take r.len)) false) with
        | some t => pump fuel t (stream.drop r.len)
        | none => s
      else s

/-- A handler that has just started its chain on a fresh connection. -/
def connected : State := attemptRead { init with connected := true }

/-- The bodies given to `ParseFromArray` when `stream` is all the peer sends.
Every two completions take at least one byte, so the fuel is never what ends it. -/
def handed (stream : List UInt8) : List (List UInt8) :=
  (pump parse (2 * stream.length + 2) connected stream).parses.map Parse.bytes

end Chain

variable {parse : List UInt8 → Option CollectorEnvelope}

/-- A chain that waits for a header. -/
structure Ready (s : State) : Prop where
  pending : s.pending = some ⟨0, maxHeaderSize, .onReadHeader⟩
  connected : s.connected = true
  overrun : s.overrun = false

theorem connected_ready : Ready connected := ⟨rfl, rfl, rfl⟩

/-! ## The header -/

theorem Message.length_frame (m : Message) :
    m.frame.length = (Varint.encode m.body.length).length + m.body.length := by
  simp [Message.frame]

theorem Message.length_encode_le (m : Message) :
    (Varint.encode m.body.length).length ≤ maxHeaderSize :=
  Varint.length_encode_le 4 _ (Nat.lt_trans m.length_lt (by decide))

theorem Message.toNat_size (m : Message) : (UInt32.ofNat m.body.length).toNat = m.body.length := by
  have := m.length_lt
  rw [UInt32.toNat_ofNat']; omega

/-- The five header bytes hold the whole length, whatever frame they end in. -/
theorem readVarint32_header (m : Message) (rest : List UInt8) :
    readVarint32 ((m.frame ++ rest).take maxHeaderSize) =
      some (UInt32.ofNat m.body.length, (Varint.encode m.body.length).length) := by
  have hk := m.length_encode_le
  have htake : ((m.frame ++ rest).take maxHeaderSize).take maxVarintBytes =
      Varint.encode m.body.length ++
        (m.body ++ rest).take (maxHeaderSize - (Varint.encode m.body.length).length) := by
    rw [List.take_take, show min maxVarintBytes maxHeaderSize = maxHeaderSize from rfl,
      Message.frame, List.append_assoc, List.take_append, List.take_of_length_le hk]
  rw [readVarint32, htake, Varint.decode_encode_append]
  rfl

/-- Proof-side name of the state behind a header that was read from `m`. -/
def afterHeader (s : State) (m : Message) (header : List UInt8)
    (h : 0 + header.length ≤ maxBufferSize) : State :=
  let offset := (Varint.encode m.body.length).length
  let size := UInt32.ofNat m.body.length
  { s with
    buffer := s.buffer.write 0 header h
    received := 0 + header.length
    size := size
    offset := offset
    pending := some ⟨maxHeaderSize, (remaining size offset).toNat, .onReadBody⟩ }

variable (parse) in
/-- A header of a message: the chain asks for the rest of the frame. -/
theorem step_header {s : State} (hs : Ready s) (m : Message) (rest : List UInt8)
    (hlen : maxHeaderSize ≤ (m.frame ++ rest).length) :
    ∃ h, step parse s (.complete (.ok ((m.frame ++ rest).take maxHeaderSize)) false) =
      some (afterHeader s m ((m.frame ++ rest).take maxHeaderSize) h) := by
  let header := (m.frame ++ rest).take maxHeaderSize
  have hheader : header.length = maxHeaderSize := by
    rw [List.length_take]; omega
  have hroom : 0 + header.length ≤ maxBufferSize := by rw [hheader]; decide
  refine ⟨hroom, ?_⟩
  have hslice : (s.buffer.write 0 header hroom).slice 0 maxHeaderSize = header := by
    rw [← hheader]; exact Buffer.slice_write_prefix hroom
  have hread : readVarint32 header = _ := readVarint32_header m rest
  simp only [step, hs.pending, hs.overrun, complete, handle, onReadHeader, true_and]
  rw [if_pos hheader, dif_pos hroom, hslice, hread]
  simp only [hs.connected, hs.overrun, if_true, afterHeader]

/-! ## The pump -/

theorem pump_step {s t : State} {r : Read} {stream : List UInt8} (hp : s.pending = some r)
    (hl : r.len ≤ stream.length)
    (ht : step parse s (.complete (.ok (stream.take r.len)) false) = some t) (fuel : Nat) :
    pump parse (fuel + 1) s stream = pump parse fuel t (stream.drop r.len) := by
  simp only [pump, hp, hl, if_true, ht]

theorem pump_blocked {s : State} {r : Read} {stream : List UInt8} (hp : s.pending = some r)
    (hl : stream.length < r.len) (fuel : Nat) : pump parse fuel s stream = s := by
  cases fuel with
  | zero => rfl
  | succ fuel => simp only [pump, hp, show ¬ r.len ≤ stream.length by omega, if_false]

theorem pump_idle {s : State} {stream : List UInt8} (hp : s.pending = none) (fuel : Nat) :
    pump parse fuel s stream = s := by
  cases fuel <;> simp only [pump, hp]

/-! ## One frame -/

/-- Two writes side by side leave their bytes side by side, wherever they are cut. -/
theorem slice_write_write {b : Buffer} {x y front body : List UInt8} {n : Nat}
    (hn : x.length = n) (hx : 0 + x.length ≤ maxBufferSize) (hy : n + y.length ≤ maxBufferSize)
    (hxy : x ++ y = front ++ body) :
    ((b.write 0 x hx).write n y hy).slice front.length body.length = body := by
  have hbytes : ((b.write 0 x hx).write n y hy).bytes =
      front ++ (body ++ b.bytes.drop (n + y.length)) := by
    subst hn
    simp only [Buffer.write, List.take_zero, List.nil_append, Nat.zero_add, List.take_left,
      List.drop_append, List.drop_eq_nil_of_le (Nat.le_add_right x.length y.length),
      List.drop_drop, hxy, List.append_assoc]
    congr 3
    omega
  rw [Buffer.slice, hbytes, List.drop_left, List.take_left]

variable (parse) in
/-- A body that fits the buffer is parsed, and the chain starts again. -/
theorem step_body {s : State} {bytes : List UInt8}
    (hp : s.pending = some ⟨maxHeaderSize, bytes.length, .onReadBody⟩)
    (hc : s.connected = true) (ho : s.overrun = false)
    (h : maxHeaderSize + bytes.length ≤ maxBufferSize) :
    ∃ t, step parse s (.complete (.ok bytes) false) = some t ∧ Ready t ∧
      t.parses = s.parses ++ [⟨s.offset, s.size, maxHeaderSize + bytes.length,
        (s.buffer.write maxHeaderSize bytes h).slice s.offset s.size.toNat⟩] := by
  refine ⟨complete parse s ⟨maxHeaderSize, bytes.length, .onReadBody⟩ false (.ok bytes), ?_, ?_⟩
  · simp only [step, hp, ho, and_self, if_true]
  · simp only [complete, dif_pos h, handle, onReadBody, hc, Bool.not_false, Bool.and_true]
    exact ⟨⟨rfl, rfl, ho⟩, rfl⟩

variable (parse) in
/-- A frame that covers the header and fits the buffer is parsed whole, and the
chain waits for the next header at the byte behind it. -/
theorem pump_framed {s : State} (hs : Ready s) (m : Message) (hm : m.Framed)
    (rest : List UInt8) :
    ∃ t, Ready t ∧ t.parses.map Parse.bytes = s.parses.map Parse.bytes ++ [m.body] ∧
      ∀ fuel, pump parse (fuel + 2) s (m.frame ++ rest) = pump parse fuel t rest := by
  obtain ⟨hlow, hhigh⟩ := hm
  have hk := m.length_encode_le
  have hlen := m.length_frame
  have htot : maxHeaderSize ≤ (m.frame ++ rest).length := by simp; omega
  have hfirst : (m.frame ++ rest).take maxHeaderSize = m.frame.take maxHeaderSize :=
    List.take_append_of_le_length hlow
  have hrem : (remaining (UInt32.ofNat m.body.length) (Varint.encode m.body.length).length).toNat =
      (m.frame.drop maxHeaderSize).length := by
    rw [remaining_toNat hk, m.toNat_size, if_pos (by omega), List.length_drop, hlen]
  have hsecond : ((m.frame ++ rest).drop maxHeaderSize).take (m.frame.drop maxHeaderSize).length =
      m.frame.drop maxHeaderSize := by
    rw [List.drop_append_of_le_length hlow, List.take_left]
  have hthird : ((m.frame ++ rest).drop maxHeaderSize).drop (m.frame.drop maxHeaderSize).length =
      rest := by
    rw [List.drop_append_of_le_length hlow, List.drop_left]
  obtain ⟨hroom, hheader⟩ := step_header parse hs m rest htot
  have hbodyRoom : maxHeaderSize + (m.frame.drop maxHeaderSize).length ≤ maxBufferSize := by
    rw [List.length_drop]; omega
  have hpending : (afterHeader s m _ hroom).pending =
      some ⟨maxHeaderSize, (m.frame.drop maxHeaderSize).length, .onReadBody⟩ := by
    simp only [afterHeader, hrem]
  obtain ⟨t, hbody, ht, hparses⟩ :=
    step_body parse hpending hs.connected hs.overrun hbodyRoom
  refine ⟨t, ht, ?_, fun fuel => ?_⟩
  · have hbytes : (m.frame ++ rest).take maxHeaderSize ++ m.frame.drop maxHeaderSize =
        Varint.encode m.body.length ++ m.body := by
      rw [hfirst, List.take_append_drop]; rfl
    have hcount : ((m.frame ++ rest).take maxHeaderSize).length = maxHeaderSize := by
      rw [List.length_take]; omega
    rw [hparses, List.map_append, List.map_singleton]
    simp only [afterHeader]
    rw [m.toNat_size, slice_write_write hcount hroom hbodyRoom hbytes]
  · have hleft : (m.frame.drop maxHeaderSize).length ≤
        ((m.frame ++ rest).drop maxHeaderSize).length := by
      rw [List.drop_append_of_le_length hlow, List.length_append]; omega
    rw [pump_step hs.pending htot hheader,
      pump_step hpending hleft (by rw [hsecond]; exact hbody), hthird]

/-- A read that leaves the buffer is the last thing the chain does: it waits for
ever, or its bytes do not fit. -/
theorem pump_outside {s : State} {r : Read} (hp : s.pending = some r) (ho : s.overrun = false)
    (hr : ¬ r.dst + r.len ≤ maxBufferSize) (fuel : Nat) (stream : List UInt8) :
    (pump parse fuel s stream).parses = s.parses := by
  cases fuel with
  | zero => rfl
  | succ fuel =>
    by_cases hl : r.len ≤ stream.length
    · have hcount : (stream.take r.len).length = r.len := by rw [List.length_take]; omega
      have hstep : step parse s (.complete (.ok (stream.take r.len)) false) =
          some { s with pending := none, overrun := true } := by
        simp only [step, hp, ho, hcount, and_self, if_true, complete, hr, dite_false]
      rw [pump_step hp hl hstep, pump_idle rfl]
    · rw [pump_blocked hp (by omega)]

/-- A frame that does not is never parsed: the header is not complete, or the
read for its rest waits for ever or leaves the buffer. -/
theorem pump_unframed {s : State} (hs : Ready s) (m : Message) (hm : ¬ m.Framed)
    (rest : List UInt8) (fuel : Nat) :
    (pump parse fuel s (m.frame ++ rest)).parses = s.parses := by
  by_cases htot : maxHeaderSize ≤ (m.frame ++ rest).length
  · obtain ⟨hroom, hheader⟩ := step_header parse hs m rest htot
    have hleaves : ¬ maxHeaderSize + (remaining (UInt32.ofNat m.body.length)
        (Varint.encode m.body.length).length).toNat ≤ maxBufferSize := by
      rw [remaining_fits m.length_encode_le, m.toNat_size, ← m.length_frame]
      exact hm
    cases fuel with
    | zero => rfl
    | succ fuel =>
      rw [pump_step hs.pending htot hheader]
      exact pump_outside (s := afterHeader s m _ hroom) rfl hs.overrun hleaves fuel _
  · rw [pump_blocked hs.pending (Nat.lt_of_not_le htot)]

/-! ## A whole stream -/

/-- From a waiting chain: the bodies up to the first frame that does not fit. -/
theorem pump_frames {s : State} (hs : Ready s) (ms : List Message) (fuel : Nat)
    (hf : 2 * ms.length ≤ fuel) :
    (pump parse fuel s (frames ms)).parses.map Parse.bytes =
      s.parses.map Parse.bytes ++ (ms.takeWhile fun m => m.Framed).map Message.body := by
  induction ms generalizing s fuel with
  | nil =>
    rw [pump_blocked hs.pending (by simp [frames, maxHeaderSize])]
    simp
  | cons m ms ih =>
    have hcons : frames (m :: ms) = m.frame ++ frames ms := rfl
    rw [hcons]
    by_cases hm : m.Framed
    · obtain ⟨t, ht, hparses, hpump⟩ := pump_framed parse hs m hm (frames ms)
      simp only [List.length_cons] at hf
      obtain ⟨fuel, rfl⟩ : ∃ k, fuel = k + 2 := ⟨fuel - 2, by omega⟩
      rw [hpump, ih ht fuel (by omega), hparses, List.takeWhile_cons_of_pos (by simpa using hm),
        List.map_cons, List.append_assoc, List.singleton_append]
    · rw [pump_unframed hs m hm, List.takeWhile_cons_of_neg (by simpa using hm)]
      simp

theorem length_le_frames (ms : List Message) : ms.length ≤ (frames ms).length := by
  induction ms with
  | nil => exact Nat.zero_le _
  | cons m ms ih =>
    have hm := m.length_frame
    have hpos := Varint.length_encode_pos m.body.length
    have hcons : frames (m :: ms) = m.frame ++ frames ms := rfl
    rw [hcons, List.length_cons, List.length_append]
    omega

/-- The bodies handed to the parser are those up to the first frame that is
shorter than the header or longer than the buffer, for any larger fuel too. -/
theorem handed_frames (ms : List Message) :
    handed parse (frames ms) = (ms.takeWhile fun m => m.Framed).map Message.body := by
  have hlen := length_le_frames ms
  rw [handed, pump_frames connected_ready ms _ (by omega)]
  rfl

theorem takeWhile_length_eq_iff {α : Type} (p : α → Bool) (l : List α) :
    (l.takeWhile p).length = l.length ↔ ∀ a ∈ l, p a = true := by
  rw [← List.takeWhile_eq_self_iff]
  exact ⟨fun h => List.Sublist.eq_of_length (List.takeWhile_sublist p) h, fun h => by rw [h]⟩

/-- **The framing round trip.** The chain hands over exactly the bodies of the
messages, in order, if and only if every frame covers the five header bytes and
fits the buffer. -/
theorem handed_iff_framed (parse : List UInt8 → Option CollectorEnvelope) (ms : List Message) :
    handed parse (frames ms) = ms.map Message.body ↔ ∀ m ∈ ms, m.Framed := by
  rw [handed_frames]
  constructor
  · intro h
    have hl := congrArg List.length h
    rw [List.length_map, List.length_map, takeWhile_length_eq_iff] at hl
    exact fun m hm => by simpa using hl m hm
  · intro h
    rw [List.takeWhile_eq_self_iff.mpr fun m hm => by simpa using h m hm]

/-- The envelope of `Terminate{}`, and the one of an empty `Heartbeat`. -/
def terminateMessage : Message := ⟨[0x0A, 0x00], by decide⟩

def heartbeatMessage : Message := ⟨[0x32, 0x00], by decide⟩

/-- What the bodies of the two parse to. -/
def parseShort (body : List UInt8) : Option CollectorEnvelope :=
  if body = terminateMessage.body then some .terminate
  else if body = heartbeatMessage.body then some (.heartbeat 0)
  else none

/-- A `Terminate` followed by a heartbeat: neither is handed over. The header
read of the first takes two bytes of the second. -/
theorem terminate_lost :
    ¬ handed parseShort (frames [terminateMessage, heartbeatMessage]) =
      [terminateMessage, heartbeatMessage].map Message.body := by
  rw [handed_frames]
  decide

end Opsian.Protocol.Framing
