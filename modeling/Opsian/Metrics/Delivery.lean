import Opsian.Metrics.Naming

/-! # From the main queue to the connection

The processor thread connects, runs the handlers of the network and pops the
main queue while the controller is connected. A send waits for its write inside
the event loop, so other handlers run before it returns: the switches of a
`SampleRate`, a receive timeout, a socket that is closed. What the metrics
thread left in the queue stays there over a reconnection. -/
namespace Opsian.Metrics.Delivery
open Opsian.Lib Opsian.Lib.Runs Opsian.Metrics.Listener Opsian.Metrics.Naming

inductive ControllerState where
  | disconnected
  | socketConnected
  | sentHello
  | connected
  deriving DecidableEq, Repr

/-- `MAX_POLLS` of `Processor::run`. -/
def maxPolls : Nat := 10

/-- The metrics machine with the main queue, the controller, the connection and
the processor's place. -/
structure System where
  metrics : Loop.State
  state : ControllerState
  metricsOn : Bool
  isConnected : Bool
  /-- In `sendHello`, between the connection and `onSentHello`. -/
  sendingHello : Bool
  /-- The pops left in the current batch. -/
  polls : Nat
  /-- The first record of the queue is being written. -/
  sending : Bool
  /-- The records whose write has succeeded on the latest connection. -/
  wire : List Record

def init : System where
  metrics := Loop.init
  state := .disconnected
  metricsOn := false
  isConnected := false
  sendingHello := false
  polls := 0
  sending := false
  wire := []

inductive Label where
  /-- A step of the metrics thread. -/
  | thread (a : Loop.Action)
  /-- `onMetricsExit`. -/
  | exit
  /-- Any thread pushes a notification. -/
  | pushNotification (ok : Bool) (category : Nat) (payload : String) (value : Int)
  /-- `Network::connect` succeeds. -/
  | connect
  | onSentHello
  | onSampleRate (switchMetricsOn : Bool)
  | onDisconnect
  /-- A timeout closes the socket and nothing else. -/
  | closeSocket
  | startBatch
  | pop
  | endBatch
  /-- The write of a record returns. `closes` tells an error code that
  `sendWithSize` takes for a lost connection. -/
  | written (ok closes : Bool)
  deriving DecidableEq, Repr

/-- `Metrics::disable` waits for the mutex, so there is no step while the
metrics thread holds it. -/
def onDisconnect (x : System) : Option System :=
  if x.metricsOn && x.metrics.running && x.metrics.pc.locked then none
  else some { x with
    metrics := if x.metricsOn && x.metrics.running then Loop.disable x.metrics else x.metrics
    state := .disconnected
    metricsOn := false
    isConnected := false }

def onSampleRate (x : System) (switchMetricsOn : Bool) : System :=
  { x with
    metrics := if switchMetricsOn then Loop.enable x.metrics else Loop.disable x.metrics
    metricsOn := switchMetricsOn
    state := if x.state = .sentHello then .connected else x.state }

/-- The main lane of `CircularQueue::pop`: the record goes to the listener, which
sends it, or drops it where there is no connection. -/
def pop (x : System) : System :=
  match x.metrics.queue with
  | [] => { x with polls := x.polls - 1 }
  | _ :: rest =>
    if x.isConnected then { x with sending := true }
    else { x with polls := x.polls - 1, metrics := { x.metrics with queue := rest } }

/-- The end of `sendWithSize` and `commitRead`. -/
def written (x : System) (ok closes : Bool) : Option System :=
  match x.metrics.queue with
  | [] => none
  | r :: rest =>
    let done := { x with
      metrics := { x.metrics with queue := rest }
      polls := x.polls - 1
      sending := false
      wire := if ok then x.wire ++ [r] else x.wire }
    if !ok && closes then onDisconnect done else some done

/-- The processor is at the top of its loop. -/
def System.atTop (x : System) : Bool := x.polls == 0 && !x.sending && !x.sendingHello

def step (x : System) : Label → Option System
  | .thread a => (Loop.threadStep x.metrics x.metrics.pc a).map fun m => { x with metrics := m }
  | .exit => some { x with metrics := { x.metrics with running := false } }
  | .pushNotification ok category payload value =>
    some { x with metrics := x.metrics.push ok (.notification category payload value) }
  | .connect =>
    if x.state = .disconnected ∧ x.atTop then
      some { x with
        state := .socketConnected
        isConnected := true
        sendingHello := true
        wire := [] }
    else none
  | .onSentHello =>
    if x.sendingHello then some { x with state := .sentHello, sendingHello := false } else none
  | .onSampleRate on => if x.metrics.pc.locked then none else some (onSampleRate x on)
  | .onDisconnect => onDisconnect x
  | .closeSocket => some { x with isConnected := false }
  | .startBatch =>
    if x.state = .connected ∧ x.atTop then some { x with polls := maxPolls } else none
  | .pop => if x.polls ≠ 0 ∧ !x.sending then some (pop x) else none
  | .endBatch =>
    if !x.sending ∧ x.metrics.queue = [] then some { x with polls := 0 } else none
  | .written ok closes => if x.sending then written x ok closes else none

/-! ## When nothing goes unnamed -/

/-- What has to be true of a step for the samples behind it to be named: a new
connection finds a queue that names its own samples and announces the ids in
use, a duration is pushed for a connection that knows its id, and no
`MetricInformation` is lost on a connection that lives on. -/
def Announced (x : System) : Label → Prop
  | .connect => Supplied [] x.metrics
  | .thread a => x.isConnected = true → DurationAnnounced x.wire x.metrics a
  | .written false false => x.isConnected = true →
      ∀ info rest, x.metrics.queue ≠ .metricInformation info :: rest
  | _ => True

structure Inv (x : System) : Prop where
  sound : Sound x.metrics
  written : Named x.wire
  sending : x.sending = true →
    ∃ r rest, x.metrics.queue = r :: rest ∧ Named (x.wire ++ [r])
  supplied : x.isConnected = true → Supplied x.wire x.metrics

variable {x y : System}

theorem init_inv : Inv init where
  sound := init_sound
  written := named_nil
  sending := by intro h; cases h
  supplied := by intro h; cases h

/-! ## The metrics thread and the other producers -/

theorem Inv.thread {m : Loop.State} {a : Loop.Action} (h : Inv x)
    (hok : x.isConnected = true → DurationAnnounced x.wire x.metrics a)
    (he : Loop.Effect x.metrics a m) : Inv { x with metrics := m } where
  sound := h.sound.effect he
  written := h.written
  sending := by
    intro hsend
    obtain ⟨r, rest, hqueue, hnamed⟩ := h.sending hsend
    obtain ⟨rs, hrs⟩ := he.queue
    exact ⟨r, rest ++ rs, by rw [hrs, hqueue, List.cons_append], hnamed⟩
  supplied hc := (h.supplied hc).effect h.sound (hok hc) he

/-- A change that the metrics invariants do not see. -/
theorem Inv.of_eq {m : Loop.State} (h : Inv x) (hpc : m.pc = x.metrics.pc)
    (hmap : m.metricNameToId = x.metrics.metricNameToId)
    (hretry : m.retryEntries = x.metrics.retryEntries) (hqueue : m.queue = x.metrics.queue) :
    Inv { x with metrics := m } where
  sound := h.sound.of_eq hpc hmap hretry
  written := h.written
  sending hsend := by rw [hqueue]; exact h.sending hsend
  supplied hc := (h.supplied hc).of_settled hqueue fun name id ht =>
    ⟨ht.reader, hpc ▸ ht.pushed, hmap ▸ ht.lookup⟩

theorem Inv.pushNotification (h : Inv x) (ok : Bool) (category : Nat) (payload : String)
    (value : Int) :
    Inv { x with metrics := x.metrics.push ok (.notification category payload value) } where
  sound := h.sound.of_eq (by simp) (by simp) (by simp)
  written := h.written
  sending := by
    intro hsend
    obtain ⟨r, rest, hqueue, hnamed⟩ := h.sending hsend
    obtain ⟨rs, hrs⟩ := Loop.push_queue x.metrics ok (.notification category payload value)
    exact ⟨r, rest ++ rs, by rw [hrs, hqueue, List.cons_append], hnamed⟩
  supplied := by
    intro hc
    have hs := h.supplied hc
    refine ⟨named_push ok hs.named fun _ => .of_not_samples nofun, fun name id ht => ?_⟩
    obtain ⟨rs, hrs⟩ := Loop.push_queue x.metrics ok (.notification category payload value)
    have hback : Settled x.metrics name id :=
      ⟨ht.reader, by simpa using ht.pushed, by simpa using ht.lookup⟩
    show Announces (_ ++ (x.metrics.push ok _).queue) id
    rw [hrs, ← List.append_assoc]
    exact (hs.known name id hback).append_right rs

/-! ## The processor -/

theorem Inv.onDisconnect (hs : onDisconnect x = some y) (hsound : Sound x.metrics)
    (hwritten : Named x.wire)
    (hsend : x.sending = true → ∃ r rest, x.metrics.queue = r :: rest ∧ Named (x.wire ++ [r])) :
    Inv y := by
  unfold Delivery.onDisconnect at hs
  split at hs
  · cases hs
  · rename_i hfree
    cases hs
    cases hdis : x.metricsOn && x.metrics.running with
    | false =>
      exact ⟨hsound, hwritten, hsend, fun hc => by cases hc⟩
    | true =>
      have hlock : ¬ x.metrics.pc.locked = true := by simpa [hdis] using hfree
      exact ⟨disable_sound hsound hlock, hwritten, hsend, fun hc => by cases hc⟩

theorem Inv.onSampleRate (h : Inv x) (hlock : ¬ x.metrics.pc.locked = true) (on : Bool) :
    Inv (onSampleRate x on) := by
  cases on with
  | true =>
    exact ⟨enable_sound h.sound, h.written,
      fun hsend => by simpa [Delivery.onSampleRate, Loop.enable_queue] using h.sending hsend,
      fun hc => (h.supplied hc).enable⟩
  | false =>
    exact ⟨disable_sound h.sound hlock, h.written, h.sending,
      fun hc => (h.supplied hc).disable⟩

theorem Inv.pop (h : Inv x) (hsend : x.sending = false) : Inv (pop x) := by
  have hidle : x.sending = true → ∃ r rest, x.metrics.queue = r :: rest ∧
      Named (x.wire ++ [r]) := h.sending
  unfold Delivery.pop
  split
  · exact ⟨h.sound, h.written, hidle, h.supplied⟩
  · rename_i r rest hqueue
    split
    · rename_i hc
      have hnamed := (h.supplied hc).named
      rw [hqueue, List.append_cons] at hnamed
      exact ⟨h.sound, h.written, fun _ => ⟨r, rest, hqueue, hnamed.of_append⟩, h.supplied⟩
    · rename_i hc
      exact ⟨h.sound.of_eq rfl rfl rfl, h.written,
        fun hs => absurd (hsend.symm.trans hs) Bool.false_ne_true, fun hs => absurd hs hc⟩

/-- The first record of the queue moves to the wire, or is lost. -/
theorem written_inv {ok closes : Bool} (h : Inv x) (hsend : x.sending = true)
    (hok : Announced x (.written ok closes)) (hs : written x ok closes = some y) : Inv y := by
  obtain ⟨r, rest, hqueue, hnamed⟩ := h.sending hsend
  simp only [Delivery.written, hqueue] at hs
  have hwire : Named (if ok then x.wire ++ [r] else x.wire) := by
    cases ok with
    | true => exact hnamed
    | false => exact h.written
  split at hs
  · exact .onDisconnect hs (h.sound.of_eq rfl rfl rfl) hwire nofun
  · rename_i hclose
    cases hs
    refine ⟨h.sound.of_eq rfl rfl rfl, hwire, nofun, fun hc => ?_⟩
    have hsup := h.supplied hc
    cases ok with
    | true =>
      have hsame : x.wire ++ [r] ++ rest = x.wire ++ x.metrics.queue := by
        rw [hqueue, List.append_assoc, List.singleton_append]
      refine ⟨hsame ▸ hsup.named, fun name id ht => ?_⟩
      exact hsame ▸ hsup.known name id ⟨ht.reader, ht.pushed, ht.lookup⟩
    | false =>
      cases closes with
      | true => exact absurd rfl hclose
      | false =>
        have hother : ∀ info, r ≠ .metricInformation info := fun info hr =>
          hok hc info rest (by rw [hqueue, hr])
        refine ⟨Named.of_remove hother (hqueue ▸ hsup.named), fun name id ht => ?_⟩
        refine Announces.of_remove hother (hqueue ▸ hsup.known name id ?_)
        exact ⟨ht.reader, ht.pushed, ht.lookup⟩

/-! ## Runs -/

theorem Inv.next {a : Label} (h : Inv x) (hok : Announced x a) (hs : step x a = some y) :
    Inv y := by
  cases a with
  | thread a =>
    obtain ⟨m, hm, rfl⟩ := Option.map_eq_some_iff.mp hs
    exact h.thread hok (Loop.threadStep_effect hm)
  | exit => cases hs; exact h.of_eq rfl rfl rfl rfl
  | pushNotification ok category payload value =>
    cases hs; exact h.pushNotification ok category payload value
  | connect =>
    simp only [step] at hs
    split at hs
    · rename_i htop
      cases hs
      have hidle : x.sending = false := by
        have := htop.2
        simp only [System.atTop, Bool.and_eq_true, Bool.not_eq_true'] at this
        exact this.1.2
      exact ⟨h.sound, named_nil, fun hs => absurd (hidle.symm.trans hs) Bool.false_ne_true,
        fun _ => hok⟩
    · cases hs
  | onSentHello =>
    simp only [step] at hs
    split at hs
    · cases hs; exact ⟨h.sound, h.written, h.sending, h.supplied⟩
    · cases hs
  | onSampleRate on =>
    simp only [step] at hs
    split at hs
    · cases hs
    · rename_i hlock
      cases hs
      exact h.onSampleRate hlock on
  | onDisconnect => exact .onDisconnect hs h.sound h.written h.sending
  | closeSocket => cases hs; exact ⟨h.sound, h.written, h.sending, fun hc => by cases hc⟩
  | startBatch =>
    simp only [step] at hs
    split at hs
    · cases hs; exact ⟨h.sound, h.written, h.sending, h.supplied⟩
    · cases hs
  | pop =>
    simp only [step] at hs
    split at hs
    · rename_i hidle
      cases hs
      exact h.pop (by simpa using hidle.2)
    · cases hs
  | endBatch =>
    simp only [step] at hs
    split at hs
    · cases hs; exact ⟨h.sound, h.written, h.sending, h.supplied⟩
    · cases hs
  | written ok closes =>
    simp only [step] at hs
    split at hs
    · exact written_inv h (by assumption) hok hs
    · cases hs

/-- **No unnamed samples.** On a run whose connections start with a queue that
names its own samples, whose durations are announced on the connection they are
pushed for, and which loses no `MetricInformation` on a connection that lives
on, every sample that is written is named on its connection. -/
theorem named_of_announced (labels : List Label) (h : Steps step Announced init labels) :
    Along step (fun x => Named x.wire) init labels :=
  (along_of_invariant (fun _ _ _ hi hok hs => hi.next hok hs) init_inv h).mono
    fun _ hi => hi.written

/-- Metrics are switched on before the thread's first cycle: the duration metric
is announced, then sampled, and both reach the connection. -/
theorem announced_duration_named :
    Along step (fun x => Named x.wire) init
      [.connect, .onSentHello, .onSampleRate true, .thread .go, .thread .go, .thread .go,
        .thread (.pushed true), .thread .go, .thread .go, .thread (.readersDone false),
        .thread (.send 0 5), .thread (.pushed true), .startBatch, .pop, .written true false,
        .pop, .written true false] := by
  refine named_of_announced _ ?_
  have quiet : ∀ {x : System} {a : Loop.Action}, a ≠ .pushed true → Announced x (.thread a) :=
    fun ha _ he => absurd he ha
  refine .cons rfl ⟨named_nil, fun name id h => nomatch h.lookup⟩ ?_
  refine .cons rfl trivial (.cons rfl trivial ?_)
  refine .cons rfl (quiet nofun) (.cons rfl (quiet nofun) (.cons rfl (quiet nofun) ?_))
  refine .cons rfl (fun _ _ t d h => nomatch h) ?_
  refine .cons rfl (quiet nofun) (.cons rfl (quiet nofun) (.cons rfl (quiet nofun) ?_))
  refine .cons rfl (quiet nofun) ?_
  refine .cons rfl (fun _ _ t d h => ⟨durationInfo, List.mem_singleton_self _, rfl⟩) ?_
  refine .cons rfl trivial (.cons rfl trivial (.cons rfl trivial ?_))
  exact .cons rfl trivial (.cons rfl trivial trivial)

/-- Metrics are never switched on: the thread samples its cycle all the same, and
the first batch on the connection writes a sample nobody has named. -/
theorem duration_unnamed :
    ¬ Along step (fun x => Named x.wire) init
      [.thread .go, .thread .go, .thread .go, .thread (.send 0 5), .thread (.pushed true),
        .connect, .onSentHello, .onSampleRate false, .startBatch, .pop, .written true false] := by
  refine not_along_of_run (List.prefix_refl _) rfl fun h => ?_
  obtain ⟨info, hmem, -⟩ := h [] _ [] rfl 0 _ rfl _ (List.mem_singleton_self _)
  cases hmem

end Opsian.Metrics.Delivery
