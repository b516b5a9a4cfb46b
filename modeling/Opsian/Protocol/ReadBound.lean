import Opsian.Lib.Runs
import Opsian.Protocol.Handler

/-! # Where the read chain writes and what it parses

The length in a header is the peer's. What a parse reads was always received,
whatever the length is, because a wrapped difference only asks for more. What
a read writes stays in the buffer exactly as long as every header announces a
frame that covers the header bytes and fits the buffer. -/
namespace Opsian.Protocol.ReadBound
open Opsian.Lib.Runs Opsian.Protocol.Handler

/-- Every outstanding read writes inside the buffer, and every parse read only
bytes received for its message. -/
structure Bounded (s : State) : Prop where
  write : ∀ r, s.pending = some r → r.dst + r.len ≤ maxBufferSize
  parse : ∀ p ∈ s.parses, p.offset + p.size.toNat ≤ p.received

/-- The header bytes that complete on a connection announce a frame of at least
five and at most 1024 bytes, or no length at all. -/
def HeaderFits (s : State) : Event → Prop
  | .complete (.ok bytes) _ =>
    s.connected = true → s.pending = some ⟨0, maxHeaderSize, .onReadHeader⟩ →
      ∀ size position, readVarint32 bytes = some (size, position) →
        maxHeaderSize ≤ position + size.toNat ∧ position + size.toNat ≤ maxBufferSize
  | _ => True

/-! ## The two reads -/

/-- The reads the chain makes, and what a body read leaves for the parse. -/
inductive Chain (s : State) : Read → Prop where
  | header : Chain s ⟨0, maxHeaderSize, .onReadHeader⟩
  | body (len : Nat) (h : s.offset + s.size.toNat ≤ maxHeaderSize + len) :
      Chain s ⟨maxHeaderSize, len, .onReadBody⟩

structure Shape (s : State) : Prop where
  pending : ∀ r, s.pending = some r → Chain s r
  parses : ∀ p ∈ s.parses, p.offset + p.size.toNat ≤ p.received

variable {parse : List UInt8 → Option CollectorEnvelope} {s t : State} {e : Event}

theorem init_shape : Shape init := by
  constructor
  · intro r hr; cases hr
  · intro p hp; cases hp

theorem Shape.of_idle (hidle : s.pending = none)
    (h : ∀ p ∈ s.parses, p.offset + p.size.toNat ≤ p.received) : Shape s := by
  refine ⟨fun r hr => ?_, h⟩
  rw [hidle] at hr; cases hr

theorem attemptRead_pending {r : Read} (h : (attemptRead s).pending = some r) :
    s.pending = some r ∨ r = ⟨0, maxHeaderSize, .onReadHeader⟩ := by
  unfold attemptRead at h
  split at h
  · cases h; exact .inr rfl
  · exact .inl h

theorem attemptRead_parses (s : State) : (attemptRead s).parses = s.parses := by
  unfold attemptRead
  split <;> rfl

/-- A chain that starts again has no body read yet. -/
theorem attemptRead_shape (hp : ∀ r, s.pending = some r → r = ⟨0, maxHeaderSize, .onReadHeader⟩)
    (h : ∀ p ∈ s.parses, p.offset + p.size.toNat ≤ p.received) : Shape (attemptRead s) := by
  constructor
  · intro r hr
    rcases attemptRead_pending hr with hr | rfl
    · rw [hp r hr]; exact .header
    · exact .header
  · rw [attemptRead_parses]; exact h

/-- A wrapped length asks for more bytes than the message has, never for fewer. -/
theorem le_remaining {size : UInt32} {position : Nat} (hp : position ≤ maxHeaderSize) :
    position + size.toNat ≤ maxHeaderSize + (remaining size position).toNat := by
  have hm : maxHeaderSize = 5 := rfl
  rw [remaining_toNat hp]
  split <;> omega

theorem header_position_le {b : Buffer} {size : UInt32} {position : Nat}
    (h : readVarint32 (b.slice 0 maxHeaderSize) = some (size, position)) :
    position ≤ maxHeaderSize := by
  have hb := readVarint32_bounds h
  rw [length_slice b (by decide)] at hb
  exact hb.2

theorem onReadHeader_shape (h : Shape s) (hidle : s.pending = none) (ec : Option Error) :
    Shape (onReadHeader s ec) := by
  cases ec with
  | some e => exact h
  | none =>
    simp only [onReadHeader]
    split
    · rename_i size position hread
      split
      · refine ⟨fun r hr => ?_, h.parses⟩
        cases hr
        exact .body _ (le_remaining (header_position_le hread))
      · exact .of_idle hidle h.parses
    · exact attemptRead_shape (fun r hr => by rw [hidle] at hr; cases hr) h.parses

theorem onReadBody_shape (h : Shape s) (hidle : s.pending = none) (closes : Bool)
    {ec : Option Error} (hin : ec = none → s.offset + s.size.toNat ≤ s.received) :
    Shape (onReadBody parse s closes ec) := by
  cases ec with
  | some e => exact attemptRead_shape (fun r hr => by rw [hidle] at hr; cases hr) h.parses
  | none =>
    refine attemptRead_shape (fun r hr => by rw [hidle] at hr; cases hr) fun p hp => ?_
    rcases List.mem_append.mp hp with hp | hp
    · exact h.parses p hp
    · rw [List.mem_singleton.mp hp]; exact hin rfl

/-- The handler bound to a read finds the bytes the read waited for. -/
theorem handle_shape (h : Shape s) (hidle : s.pending = none) {r : Read} (hr : Chain s r)
    (closes : Bool) {ec : Option Error} (hin : ec = none → s.received = r.dst + r.len) :
    Shape (handle parse s closes ec r.completion) := by
  cases hr with
  | header => exact onReadHeader_shape h hidle ec
  | body len hbody =>
    refine onReadBody_shape h hidle closes fun hec => ?_
    rw [hin hec]; exact hbody

theorem Chain.congr {r : Read} (h : Chain s r) (ho : t.offset = s.offset) (hz : t.size = s.size) :
    Chain t r := by
  cases h with
  | header => exact .header
  | body len hbody => exact .body len (by rw [ho, hz]; exact hbody)

theorem complete_shape (h : Shape s) {r : Read} (hr : Chain s r) (closes : Bool)
    {bytes : List UInt8} (hl : bytes.length = r.len) :
    Shape (complete parse s r closes (.ok bytes)) := by
  simp only [complete]
  split
  · rename_i hroom
    have hidle : Shape { s with
        pending := none
        buffer := s.buffer.write r.dst bytes hroom
        received := r.dst + bytes.length } := .of_idle rfl h.parses
    exact handle_shape hidle rfl (hr.congr rfl rfl) closes fun _ => by rw [hl]
  · exact .of_idle rfl h.parses

theorem step_shape (h : Shape s) (hs : step parse s e = some t) : Shape t := by
  obtain ⟨rfl, hidle, rfl⟩ | ⟨rfl, rfl⟩ | ⟨r, error, closes, rfl, hp, rfl⟩ |
    ⟨r, bytes, closes, rfl, hp, hl, rfl⟩ := step_cases hs
  · exact attemptRead_shape (fun r hr => by rw [hidle] at hr; cases hr) h.parses
  · exact ⟨fun r hr => (h.pending r hr).congr rfl rfl, h.parses⟩
  · have hidle : Shape { s with pending := none } := .of_idle rfl h.parses
    exact handle_shape hidle rfl ((h.pending r hp).congr rfl rfl) closes fun hec => by cases hec
  · exact complete_shape h (h.pending r hp) closes hl

/-- A parse never reads past what was received, on any run. -/
theorem run_shape (parse : List UInt8 → Option CollectorEnvelope) (events : List Event) :
    Along (step parse) Shape init events :=
  along_of_step (fun _ _ _ h hs => step_shape h hs) init_shape events

/-! ## The write side -/

/-- The outstanding read writes inside the buffer. -/
def Fits (s : State) : Prop := ∀ r, s.pending = some r → r.dst + r.len ≤ maxBufferSize

theorem fits_of_idle (h : s.pending = none) : Fits s := by
  intro r hr; rw [h] at hr; cases hr

theorem header_fits : (0 : Nat) + maxHeaderSize ≤ maxBufferSize := by decide

theorem attemptRead_fits (h : Fits s) : Fits (attemptRead s) := by
  intro r hr
  rcases attemptRead_pending hr with hr | rfl
  · exact h r hr
  · exact header_fits

theorem fits_some {r : Read} (h : s.pending = some r) :
    Fits s ↔ r.dst + r.len ≤ maxBufferSize := by
  constructor
  · intro hf; exact hf r h
  · intro hf r' hr'
    rw [h] at hr'; cases hr'
    exact hf

/-- The read for the rest of a message fits exactly when the frame does. -/
theorem onReadHeader_fits_iff (hidle : s.pending = none) :
    Fits (onReadHeader s none) ↔
      (s.connected = true → ∀ size position,
        readVarint32 (s.buffer.slice 0 maxHeaderSize) = some (size, position) →
          maxHeaderSize ≤ position + size.toNat ∧ position + size.toNat ≤ maxBufferSize) := by
  cases hread : readVarint32 (s.buffer.slice 0 maxHeaderSize) with
  | none =>
    simp only [onReadHeader, hread]
    constructor
    · intro _ _ size position hsome; cases hsome
    · intro _; exact attemptRead_fits (fits_of_idle hidle)
  | some header =>
    obtain ⟨size, position⟩ := header
    have hiff : maxHeaderSize + (remaining size position).toNat ≤ maxBufferSize ↔ _ :=
      remaining_fits (header_position_le hread)
    by_cases hc : s.connected = true
    · simp only [onReadHeader, hread, hc, if_true]
      rw [fits_some rfl, hiff]
      constructor
      · intro h _ size' position' hsome
        cases hsome; exact h
      · intro h; exact h trivial size position rfl
    · simp only [onReadHeader, hread, hc]
      exact ⟨fun _ h => absurd h (by simp), fun _ => fits_of_idle hidle⟩

theorem onReadBody_fits (hidle : s.pending = none) (closes : Bool) (ec : Option Error) :
    Fits (onReadBody parse s closes ec) := by
  cases ec with
  | some e => exact attemptRead_fits (fits_of_idle hidle)
  | none => exact attemptRead_fits (fits_of_idle hidle)

/-- A header that completes decides alone whether the next read fits. -/
theorem complete_header_fits_iff {bytes : List UInt8} (closes : Bool)
    (hl : bytes.length = maxHeaderSize) :
    Fits (complete parse s ⟨0, maxHeaderSize, .onReadHeader⟩ closes (.ok bytes)) ↔
      (s.connected = true → ∀ size position, readVarint32 bytes = some (size, position) →
        maxHeaderSize ≤ position + size.toNat ∧ position + size.toNat ≤ maxBufferSize) := by
  have hroom : 0 + bytes.length ≤ maxBufferSize := by rw [hl]; exact header_fits
  have hslice : (s.buffer.write 0 bytes hroom).slice 0 maxHeaderSize = bytes := by
    rw [← hl]; exact Buffer.slice_write_prefix hroom
  simp only [complete, dif_pos hroom, handle]
  rw [onReadHeader_fits_iff rfl, hslice]

/-- What the chain asks for next fits, whatever else happens. -/
theorem complete_body_fits {len : Nat} (closes : Bool) (bytes : List UInt8) :
    Fits (complete parse s ⟨maxHeaderSize, len, .onReadBody⟩ closes (.ok bytes)) := by
  simp only [complete]
  split
  · exact onReadBody_fits rfl closes none
  · exact fits_of_idle rfl

/-- The step lemma: from a read that fits, the next one fits if and only if the
header does. -/
theorem step_fits_iff (h : Shape s) (hf : Fits s) (hs : step parse s e = some t) :
    Fits t ↔ HeaderFits s e := by
  obtain ⟨rfl, hidle, rfl⟩ | ⟨rfl, rfl⟩ | ⟨r, error, closes, rfl, hp, rfl⟩ |
    ⟨r, bytes, closes, rfl, hp, hl, rfl⟩ := step_cases hs
  · exact ⟨fun _ => trivial, fun _ => attemptRead_fits (fits_of_idle hidle)⟩
  · exact ⟨fun _ => trivial, fun _ => hf⟩
  · refine ⟨fun _ => trivial, fun _ => ?_⟩
    cases h.pending r hp with
    | header => exact fits_of_idle rfl
    | body len hbody => exact onReadBody_fits rfl closes _
  · cases h.pending r hp with
    | header =>
      rw [complete_header_fits_iff closes hl, HeaderFits]
      exact ⟨fun h hc _ => h hc, fun h hc => h hc hp⟩
    | body len hbody =>
      refine ⟨fun _ _ hheader => ?_, fun _ => complete_body_fits closes bytes⟩
      rw [hp] at hheader; cases hheader

theorem init_fits : Fits init := fits_of_idle rfl

/-- **The read bound.** On a run of the handler against any peer, every read
stays in the buffer and every parse in the bytes received, if and only if every
header that completes announces a frame of five to 1024 bytes. -/
theorem bounded_iff_headers (parse : List UInt8 → Option CollectorEnvelope)
    (events : List Event) :
    Along (step parse) Bounded init events ↔ Steps (step parse) HeaderFits init events := by
  refine along_iff_steps (I := fun s => Shape s ∧ Fits s) ?_ ?_ ?_ ⟨init_shape, init_fits⟩
  · rintro s e t ⟨hshape, hfits⟩ hok hs
    exact ⟨step_shape hshape hs, (step_fits_iff hshape hfits hs).mpr hok⟩
  · rintro s ⟨hshape, hfits⟩
    exact ⟨hfits, hshape.parses⟩
  · rintro s e t ⟨hshape, hfits⟩ _ hs hb
    exact (step_fits_iff hshape hfits hs).mp hb.write

/-- The header of a two byte message makes the handler ask for 2 ^ 32 - 2 bytes. -/
theorem short_header_unbounded :
    ¬ Along (step fun _ => none) Bounded init
      [.connect, .complete (.ok [0x02, 0x0A, 0x00, 0x02, 0x0A]) false] := by
  rintro ⟨-, h⟩
  obtain ⟨-, h⟩ := h _ rfl
  have hwrite := (h _ rfl).write _ rfl
  exact absurd hwrite (by decide)

end Opsian.Protocol.ReadBound
