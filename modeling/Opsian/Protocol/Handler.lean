import Opsian.Lib.Varint

/-! # The read chain of the protocol handler

`attemptRead` asks the connection for five header bytes, `onReadHeader` reads
the message length from them and asks for the rest, `onReadBody` parses what
arrived and starts again. A read is recorded when it is requested and runs its
handler when it completes; the connection, the other handlers and the peer
decide only when that is, with which result and on which bytes. -/
namespace Opsian.Protocol.Handler
open Opsian.Lib

def maxHeaderSize : Nat := 5

def maxBufferSize : Nat := 1024

/-- A varint is read from at most ten bytes. -/
def maxVarintBytes : Nat := 10

/-- `buffer(MAX_BUFFER_SIZE)`: a vector that is never resized. -/
structure Buffer where
  bytes : List UInt8
  length_eq : bytes.length = maxBufferSize

/-- `data` laid over the buffer from `dst` on; a write that leaves the vector has no value. -/
def Buffer.write (b : Buffer) (dst : Nat) (data : List UInt8)
    (h : dst + data.length ≤ maxBufferSize) : Buffer where
  bytes := b.bytes.take dst ++ data ++ b.bytes.drop (dst + data.length)
  length_eq := by
    have := b.length_eq
    simp only [List.length_append, List.length_take, List.length_drop]
    omega

/-- `len` bytes from `buffer.data() + off`. -/
def Buffer.slice (b : Buffer) (off len : Nat) : List UInt8 := (b.bytes.drop off).take len

def Buffer.zero : Buffer := ⟨List.replicate maxBufferSize 0, List.length_replicate⟩

/-- `CodedInputStream::ReadVarint32`: the low 32 bits of a varint and the
position behind it. The array and the slow path of the source agree on it. -/
def readVarint32 (bytes : List UInt8) : Option (UInt32 × Nat) :=
  (Varint.decode (bytes.take maxVarintBytes)).map fun r => (UInt32.ofNat r.1, r.2)

/-! ## Messages -/

structure SampleRate where
  processTimeStackSampleRateMillis : UInt64
  elapsedTimeStackSampleRateMillis : UInt64
  switchProcessTimeProfilingOn : Bool
  switchElapsedTimeProfilingOn : Bool
  threadStateOn : Bool
  switchMemoryProfilingOn : Bool
  memoryProfilingPushRateMillis : UInt64
  switchMemoryProfilingStacktraceOn : Bool
  memoryProfilingStackSampleRateSamples : UInt32
  switchMetricsOn : Bool
  metricsSampleRateMillis : UInt64
  metricsPrefixes : List String
  deriving DecidableEq, Repr

/-- The cases of `upstream_message_type`. -/
inductive CollectorEnvelope where
  | terminate
  | sampleRate (rate : SampleRate)
  | heartbeat (time : UInt64)
  | notSet
  deriving DecidableEq, Repr

/-- The calls of `CollectorMessageListener`. -/
inductive ListenerCall where
  | onTerminate
  | onSampleRate (rate : SampleRate)
  | onHeartbeat
  deriving DecidableEq, Repr

/-- The switch of `onReadBody`; an unset case is only logged. -/
def dispatch : CollectorEnvelope → Option ListenerCall
  | .terminate => some .onTerminate
  | .sampleRate rate => some (.onSampleRate rate)
  | .heartbeat _ => some .onHeartbeat
  | .notSet => none

/-! ## The handler -/

/-- The completion handler bound to a read. -/
inductive Completion where
  | onReadHeader
  | onReadBody
  deriving DecidableEq, Repr

/-- An `async_read` into `buffer.data() + dst` that waits for `len` bytes. -/
structure Read where
  dst : Nat
  len : Nat
  completion : Completion
  deriving DecidableEq, Repr

/-- A call of `ParseFromArray(buffer.data() + offset, size)`: its arguments, the
bytes it reads, and how many bytes of the buffer the current message has filled. -/
structure Parse where
  offset : Nat
  size : UInt32
  received : Nat
  bytes : List UInt8
  deriving DecidableEq, Repr

inductive Error where
  | eof
  | operationAborted
  | other (value : Nat)
  deriving DecidableEq, Repr

/-- The fields of `ProtocolHandler`, `network_.isConnected()`, the read that is
outstanding, and what the handler has done so far. -/
structure State where
  buffer : Buffer
  size : UInt32
  offset : Nat
  connected : Bool
  pending : Option Read
  received : Nat
  parses : List Parse
  calls : List ListenerCall
  /-- A completed read wrote outside the buffer: nothing is known from there on. -/
  overrun : Bool

def init : State where
  buffer := .zero
  size := 0
  offset := 0
  connected := false
  pending := none
  received := 0
  parses := []
  calls := []
  overrun := false

/-- The events the chain reacts to. -/
inductive Event where
  /-- `Profiler::onSocketConnected` on a fresh connection. -/
  | connect
  /-- `Network::closeSocket`. -/
  | close
  /-- The outstanding read completes; `closes` tells whether the socket was
  closed by the handlers that ran inside the listener call. -/
  | complete (result : Except Error (List UInt8)) (closes : Bool)

section Chain
variable (parse : List UInt8 → Option CollectorEnvelope)

def attemptRead (s : State) : State :=
  if s.connected then { s with pending := some ⟨0, maxHeaderSize, .onReadHeader⟩ } else s

/-- The length of what is still to be read. `size` is an `unsigned int`, so the
`int` is converted and the difference wraps; its comparison with `< 0` in the
source is never true. -/
def remaining (size : UInt32) (offset : Nat) : UInt32 :=
  size - UInt32.ofNat (maxHeaderSize - offset)

def onReadHeader (s : State) : Option Error → State
  | some _ => s
  | none =>
    match readVarint32 (s.buffer.slice 0 maxHeaderSize) with
    | some (size, position) =>
      let s := { s with size := size, offset := position }
      let body : Read := ⟨maxHeaderSize, (remaining s.size s.offset).toNat, .onReadBody⟩
      if s.connected then { s with pending := some body } else s
    | none => attemptRead { s with size := 0xFFFFFFFF }

def onReadBody (s : State) (closes : Bool) : Option Error → State
  | some _ => attemptRead s
  | none =>
    let bytes := s.buffer.slice s.offset s.size.toNat
    attemptRead { s with
      parses := s.parses ++ [⟨s.offset, s.size, s.received, bytes⟩]
      calls := s.calls ++ ((parse bytes).bind dispatch).toList
      connected := s.connected && !closes }

/-- Runs the handler bound to a read whose result has been stored. -/
def handle (s : State) (closes : Bool) (ec : Option Error) : Completion → State
  | .onReadHeader => onReadHeader s ec
  | .onReadBody => onReadBody parse s closes ec

/-- The bytes of a completed read reach the buffer, if it has room for them. What
a failed read leaves there is overwritten before a handler looks at it. -/
def complete (s : State) (r : Read) (closes : Bool) : Except Error (List UInt8) → State
  | .error e => handle parse { s with pending := none } closes (some e) r.completion
  | .ok bytes =>
    if h : r.dst + bytes.length ≤ maxBufferSize then
      handle parse { s with
        pending := none
        buffer := s.buffer.write r.dst bytes h
        received := r.dst + bytes.length } closes none r.completion
    else { s with pending := none, overrun := true }

/-- One event. A connection starts its chain when no read of an earlier one is
left: `Network::close` drains them before it deletes the socket. A read that
succeeds delivers the number of bytes it asked for. -/
def step (s : State) : Event → Option State
  | .connect =>
    if s.overrun = false ∧ s.connected = false ∧ s.pending = none then
      some (attemptRead { s with connected := true })
    else none
  | .close => if s.overrun = false then some { s with connected := false } else none
  | .complete result closes =>
    match s.pending, result with
    | none, _ => none
    | some r, .error e =>
      if s.overrun = false then some (complete parse s r closes (.error e)) else none
    | some r, .ok bytes =>
      if s.overrun = false ∧ bytes.length = r.len then some (complete parse s r closes (.ok bytes))
      else none

end Chain

/-! ## What the handlers leave alone -/

variable {parse : List UInt8 → Option CollectorEnvelope} {s : State}

/-- What one event can do: the connection changes, or the outstanding read
completes with as many bytes as it asked for. -/
theorem step_cases {t : State} {e : Event} (h : step parse s e = some t) :
    (e = .connect ∧ s.pending = none ∧ t = attemptRead { s with connected := true }) ∨
    (e = .close ∧ t = { s with connected := false }) ∨
    (∃ r error closes, e = .complete (.error error) closes ∧ s.pending = some r ∧
      t = handle parse { s with pending := none } closes (some error) r.completion) ∨
    (∃ r bytes closes, e = .complete (.ok bytes) closes ∧ s.pending = some r ∧
      bytes.length = r.len ∧ t = complete parse s r closes (.ok bytes)) := by
  cases e with
  | connect =>
    simp only [step] at h
    split at h
    · rename_i hc
      exact .inl ⟨rfl, hc.2.2, (Option.some.inj h).symm⟩
    · cases h
  | close =>
    simp only [step] at h
    split at h
    · exact .inr (.inl ⟨rfl, (Option.some.inj h).symm⟩)
    · cases h
  | complete result closes =>
    cases hp : s.pending with
    | none => simp only [step, hp] at h; cases h
    | some r =>
      cases result with
      | error error =>
        simp only [step, hp] at h
        split at h
        · exact .inr (.inr (.inl ⟨r, error, closes, rfl, rfl, (Option.some.inj h).symm⟩))
        · cases h
      | ok bytes =>
        simp only [step, hp] at h
        split at h
        · rename_i hl
          exact .inr (.inr (.inr ⟨r, bytes, closes, rfl, rfl, hl.2, (Option.some.inj h).symm⟩))
        · cases h

theorem Buffer.slice_write_prefix {b : Buffer} {data : List UInt8}
    (h : 0 + data.length ≤ maxBufferSize) : (b.write 0 data h).slice 0 data.length = data := by
  simp [Buffer.write, Buffer.slice]

theorem length_slice (b : Buffer) {off len : Nat} (h : off + len ≤ maxBufferSize) :
    (b.slice off len).length = len := by
  have := b.length_eq
  simp only [Buffer.slice, List.length_take, List.length_drop]
  omega

theorem readVarint32_bounds {bytes : List UInt8} {size : UInt32} {position : Nat}
    (h : readVarint32 bytes = some (size, position)) :
    1 ≤ position ∧ position ≤ bytes.length := by
  obtain ⟨⟨v, k⟩, hv, he⟩ := Option.map_eq_some_iff.mp h
  cases he
  have hb := Varint.decode_bounds hv
  have hl : (bytes.take maxVarintBytes).length ≤ bytes.length := by
    rw [List.length_take]; omega
  exact ⟨hb.1, Nat.le_trans hb.2 hl⟩

/-- The wrapped difference: right when the message reaches past the header
bytes, and close to `2 ^ 32` when it ends inside them. -/
theorem remaining_toNat {size : UInt32} {position : Nat} (hp : position ≤ maxHeaderSize) :
    (remaining size position).toNat =
      if maxHeaderSize ≤ position + size.toNat then position + size.toNat - maxHeaderSize
      else 2 ^ 32 + size.toNat + position - maxHeaderSize := by
  have hs := size.toNat_lt
  have hm : maxHeaderSize = 5 := rfl
  have hk : (UInt32.ofNat (maxHeaderSize - position)).toNat = maxHeaderSize - position := by
    rw [UInt32.toNat_ofNat']; omega
  rw [remaining, UInt32.toNat_sub, hk]
  split <;> omega

/-- The bound the handler does not check: the read fits the buffer exactly when
the frame is no shorter than the header bytes and no longer than the buffer. -/
theorem remaining_fits {size : UInt32} {position : Nat} (hp : position ≤ maxHeaderSize) :
    maxHeaderSize + (remaining size position).toNat ≤ maxBufferSize ↔
      maxHeaderSize ≤ position + size.toNat ∧ position + size.toNat ≤ maxBufferSize := by
  have hm : maxHeaderSize = 5 := rfl
  have hb : maxBufferSize = 1024 := rfl
  rw [remaining_toNat hp]
  split <;> omega

end Opsian.Protocol.Handler
