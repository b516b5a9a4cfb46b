import Opsian.Protocol.Framing
import Opsian.Writer.Encoding

/-! # What the agent hears of its collector

A command that has nothing to say is written in two bytes, and with its length it is shorter than
the header that the chain takes first. So the agent hears the commands up to the first one that
says nothing or is too long, and never a `Terminate`. -/
namespace Opsian.Protocol.Commands
open Opsian.Lib Opsian.Lib.WireFormat Opsian.Protocol.Handler Opsian.Protocol.Framing
open Opsian.Writer.Encoding (heartbeat)

/-! ## The schema -/

def terminate : WireFormat.Message Unit where
  empty := ()
  members := []
  nodup := List.nodup_nil
  ready _ := rfl

def sampleRate : WireFormat.Message SampleRate where
  empty := ⟨0, 0, false, false, false, false, 0, false, 0, false, 0, []⟩
  members := [
    .singular .uint64 0 1 (·.processTimeStackSampleRateMillis)
      (fun s a => { s with processTimeStackSampleRateMillis := a }) fun _ => rfl,
    .singular .uint64 0 2 (·.elapsedTimeStackSampleRateMillis)
      (fun s a => { s with elapsedTimeStackSampleRateMillis := a }) fun _ => rfl,
    .singular .bool false 3 (·.switchProcessTimeProfilingOn)
      (fun s a => { s with switchProcessTimeProfilingOn := a }) fun _ => rfl,
    .singular .bool false 4 (·.switchElapsedTimeProfilingOn)
      (fun s a => { s with switchElapsedTimeProfilingOn := a }) fun _ => rfl,
    .singular .bool false 5 (·.threadStateOn) (fun s a => { s with threadStateOn := a })
      fun _ => rfl,
    .singular .bool false 6 (·.switchMemoryProfilingOn)
      (fun s a => { s with switchMemoryProfilingOn := a }) fun _ => rfl,
    .singular .uint64 0 7 (·.memoryProfilingPushRateMillis)
      (fun s a => { s with memoryProfilingPushRateMillis := a }) fun _ => rfl,
    .singular .bool false 8 (·.switchMemoryProfilingStacktraceOn)
      (fun s a => { s with switchMemoryProfilingStacktraceOn := a }) fun _ => rfl,
    .singular .uint32 0 9 (·.memoryProfilingStackSampleRateSamples)
      (fun s a => { s with memoryProfilingStackSampleRateSamples := a }) fun _ => rfl,
    .singular .bool false 10 (·.switchMetricsOn) (fun s a => { s with switchMetricsOn := a })
      fun _ => rfl,
    .singular .uint64 0 11 (·.metricsSampleRateMillis)
      (fun s a => { s with metricsSampleRateMillis := a }) fun _ => rfl,
    .repeated .string 12 (·.metricsPrefixes) (fun s a => { s with metricsPrefixes := a })
      (fun _ _ => rfl) (fun _ => rfl) fun _ _ _ => rfl]
  nodup := by decide
  ready _ := by simp only [WireFormat.Ready, Member.singular, Member.repeated]; trivial

/-- The `oneof` of a `CollectorEnvelope`. -/
def upstreamFields : CollectorEnvelope → List Field
  | .notSet => []
  | .terminate => [⟨1, terminate.codec.toValue ()⟩]
  | .sampleRate rate => [⟨2, sampleRate.codec.toValue rate⟩]
  | .heartbeat time => [⟨6, heartbeat.codec.toValue time⟩]

def serialize (c : CollectorEnvelope) : List UInt8 := writeFields (upstreamFields c)

/-- Whether all strings of the envelope are UTF-8. -/
def accepted : CollectorEnvelope → Bool
  | .sampleRate rate => sampleRate.accepted rate
  | .notSet | .terminate | .heartbeat _ => true

/-! ## Commands -/

/-- No message of 2 GiB is serialized. -/
structure Command where
  envelope : CollectorEnvelope
  length_lt : (serialize envelope).length < 2 ^ 31

def Command.message (c : Command) : Framing.Message :=
  ⟨serialize c.envelope, Nat.lt_trans c.length_lt (by decide)⟩

/-- All that the command has to say is at its default. -/
def IsMute : CollectorEnvelope → Prop
  | .notSet | .terminate => True
  | .sampleRate rate => rate = sampleRate.empty
  | .heartbeat time => time = 0

instance : DecidablePred IsMute
  | .notSet | .terminate => .isTrue trivial
  | .sampleRate rate => inferInstanceAs (Decidable (rate = sampleRate.empty))
  | .heartbeat time => inferInstanceAs (Decidable (time = 0))

def Command.Heard (c : Command) : Prop :=
  ¬ IsMute c.envelope ∧ (serialize c.envelope).length + 2 ≤ maxBufferSize

instance (c : Command) : Decidable c.Heard := inferInstanceAs (Decidable (_ ∧ _))

/-! ## Reading back -/

/-- The listener has been called for what was parsed. -/
def Spoken (parse : List UInt8 → Option CollectorEnvelope) (s : State) : Prop :=
  s.calls = (s.parses.map Parse.bytes).flatMap fun bytes => ((parse bytes).bind dispatch).toList

variable {parse : List UInt8 → Option CollectorEnvelope} {s t : State}

theorem Spoken.of_same (h : Spoken parse s) (hcalls : t.calls = s.calls)
    (hparses : t.parses = s.parses) : Spoken parse t := by
  rw [Spoken, hcalls, hparses]
  exact h

theorem attemptRead_same (s : State) :
    (attemptRead s).calls = s.calls ∧ (attemptRead s).parses = s.parses := by
  unfold attemptRead
  split
  · exact ⟨rfl, rfl⟩
  · exact ⟨rfl, rfl⟩

theorem Spoken.attemptRead (h : Spoken parse s) : Spoken parse (attemptRead s) :=
  h.of_same (attemptRead_same s).1 (attemptRead_same s).2

theorem Spoken.onReadHeader (h : Spoken parse s) (ec : Option Error) :
    Spoken parse (onReadHeader s ec) := by
  cases ec with
  | some error => exact h
  | none =>
    simp only [Handler.onReadHeader]
    cases readVarint32 (s.buffer.slice 0 maxHeaderSize) with
    | none => exact Spoken.attemptRead (h.of_same rfl rfl)
    | some header =>
      by_cases hconnected : s.connected = true
      · simp only [if_pos hconnected]
        exact h.of_same rfl rfl
      · simp only [if_neg hconnected]
        exact h.of_same rfl rfl

theorem Spoken.onReadBody (h : Spoken parse s) (closes : Bool) (ec : Option Error) :
    Spoken parse (onReadBody parse s closes ec) := by
  unfold Handler.onReadBody
  split
  · exact h.attemptRead
  · refine Spoken.attemptRead ?_
    rw [Spoken, List.map_append, List.flatMap_append, ← h]
    exact congrArg _ (List.append_nil _).symm

theorem Spoken.handle (h : Spoken parse s) (closes : Bool) (ec : Option Error)
    (completion : Completion) : Spoken parse (handle parse s closes ec completion) := by
  cases completion with
  | onReadHeader => exact h.onReadHeader ec
  | onReadBody => exact h.onReadBody closes ec

theorem Spoken.step (h : Spoken parse s) {e : Event} (hs : step parse s e = some t) :
    Spoken parse t := by
  rcases step_cases hs with ⟨-, -, rfl⟩ | ⟨-, rfl⟩ | ⟨r, error, closes, -, -, rfl⟩ |
    ⟨r, bytes, closes, -, -, -, rfl⟩
  · exact Spoken.attemptRead (h.of_same rfl rfl)
  · exact h.of_same rfl rfl
  · have hdone : Spoken parse { s with pending := none } := h.of_same rfl rfl
    exact hdone.handle closes (some error) r.completion
  · by_cases hroom : r.dst + bytes.length ≤ maxBufferSize
    · have hdone : Spoken parse { s with
          pending := none
          buffer := s.buffer.write r.dst bytes hroom
          received := r.dst + bytes.length } := h.of_same rfl rfl
      simp only [complete, dif_pos hroom]
      exact hdone.handle closes none r.completion
    · simp only [complete, dif_neg hroom]
      exact h.of_same rfl rfl

theorem Spoken.pump (h : Spoken parse s) (fuel : Nat) (stream : List UInt8) :
    Spoken parse (pump parse fuel s stream) := by
  induction fuel generalizing s stream with
  | zero => exact h
  | succ fuel ih =>
    unfold Framing.pump
    split
    · exact h
    · split
      · split
        · rename_i t ht
          exact ih (h.step ht) _
        · exact h
      · exact h

end Opsian.Protocol.Commands
