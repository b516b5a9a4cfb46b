import Opsian.Writer.Pipeline

/-! # The notifications and their stash

A notification that is recorded without a connection goes to the stash, which the first
`SampleRate` sends. While there is a connection the stash is empty, so the order is kept. -/
namespace Opsian.Writer.Notifications
open Opsian.Queue.CircularQueue (Push)
open Opsian.Writer.Messages
open Opsian.Writer.Pipeline

def notification? : AgentEnvelope → Option Notification
  | .notification m => some m
  | _ => none

/-- The notification that is sent for a record, at once or from the stash. -/
def pushedNotification? : Push → Option Notification
  | .notification category payload value =>
    some ⟨Envelopes.payloadOf payload value, notificationCategory category⟩
  | _ => none

/-- What was recorded has been handed over, in its order, and the rest is in the stash. -/
structure Noted (pushes : List Push) (handed : List AgentEnvelope) (w : Envelopes.State) :
    Prop where
  order : handed.filterMap notification? ++ w.notifications = pushes.filterMap pushedNotification?
  stash : w.isConnected = true → w.notifications = []

variable {pushes : List Push} {handed es : List AgentEnvelope} {s t : Envelopes.State}

theorem noted_nil : Noted [] [] Envelopes.init := ⟨rfl, fun _ => rfl⟩

/-- A step that neither records nor sends one. -/
theorem Noted.other (h : Noted pushes handed s) (hes : es.filterMap notification? = [])
    (hstash : t.notifications = s.notifications)
    (hconnected : t.isConnected = true → s.isConnected = true) : Noted pushes (handed ++ es) t where
  order := by
    rw [List.filterMap_append, hes, List.append_nil, hstash]
    exact h.order
  stash hc := by
    rw [hstash]
    exact h.stash (hconnected hc)

/-- The first `SampleRate` sends the stash. -/
theorem Noted.sendStash (h : Noted pushes handed s) (envelope : AgentEnvelope)
    (ht : t.notifications = []) :
    Noted pushes (handed ++ Envelopes.stashedEnvelopes .reused envelope s.notifications) t where
  order := by
    have hsent : (s.notifications.map AgentEnvelope.notification).filterMap notification? =
        s.notifications := by
      rw [List.filterMap_map]
      exact List.filterMap_some
    rw [Envelopes.stashedEnvelopes_eq, List.filterMap_append, hsent, ht, List.append_nil]
    exact h.order
  stash _ := ht

theorem Noted.recordNotification (h : Noted pushes handed s) (category : Nat)
    (payload : String) (value : Int) :
    Noted (pushes ++ [.notification category payload value])
      (handed ++ (Envelopes.recordNotification .reused s (notificationCategory category) payload
        value).1)
      (Envelopes.recordNotification .reused s (notificationCategory category) payload value).2 := by
  have horder := h.order
  unfold Envelopes.recordNotification
  by_cases hc : s.isConnected = true
  · rw [if_pos hc]
    rw [h.stash hc, List.append_nil] at horder
    refine ⟨?_, fun _ => h.stash hc⟩
    rw [List.filterMap_append, List.filterMap_append, horder]
    show _ ++ s.notifications = _
    rw [h.stash hc, List.append_nil]
    rfl
  · rw [if_neg hc]
    refine ⟨?_, fun hup => absurd hup hc⟩
    rw [List.append_nil, List.filterMap_append, ← horder, List.append_assoc]
    rfl

theorem Noted.step {a : Envelopes.Label} (h : Noted pushes handed s)
    (ha : ∀ category payload value, a ≠ .recordNotification category payload value)
    (hs : Envelopes.step .reused s a = some (es, t)) : Noted pushes (handed ++ es) t := by
  cases a with
  | recordNotification category payload value => exact absurd rfl (ha category payload value)
  | recordStackTrace c =>
    obtain ⟨-, hx⟩ := Envelopes.idle_eq_some.mp hs
    cases hx
    exact h.other rfl rfl id
  | recordMetricInformation | recordMetricSamples | recordConstantMetricsComplete
  | recordAllocation =>
    obtain ⟨-, hx⟩ := Envelopes.idle_eq_some.mp hs
    cases hx
    exact h.other rfl rfl id
  | lookedUp locations =>
    obtain ⟨_, _, _, _, -, hx⟩ := Envelopes.step_lookedUp hs
    cases hx
    exact h.other rfl rfl id
  | endStackTrace =>
    obtain ⟨_, _, -, hx⟩ := Envelopes.step_endStackTrace hs
    cases hx
    exact h.other rfl rfl id
  | onNewFile | onNewFunction | sendHeartbeat | onAgentStatisticsTimer | recordAllocationTable =>
    cases hs
    exact h.other rfl rfl id
  | onDisconnect =>
    cases hs
    exact h.other rfl rfl nofun
  | onSampleRate controller first =>
    cases first with
    | true =>
      cases hs
      exact h.sendStash _ rfl
    | false =>
      cases hs
      exact h.other rfl rfl id

/-- A record that is no notification. -/
theorem noted_snoc {p : Push} (hp : pushedNotification? p = none) :
    Noted (pushes ++ [p]) handed s ↔ Noted pushes handed s := by
  have hpushes : (pushes ++ [p]).filterMap pushedNotification? =
      pushes.filterMap pushedNotification? := by
    rw [List.filterMap_append, List.filterMap_cons_none hp, List.filterMap_nil, List.append_nil]
  exact ⟨fun h => ⟨h.order.trans hpushes, h.stash⟩, fun h => ⟨h.order.trans hpushes.symm, h.stash⟩⟩

/-- The call for a record. -/
theorem Noted.call {maxFrameSize : Nat} {nameAnswer : Envelopes.NameAnswer} {p : Push}
    {a : Envelopes.Label} (h : Noted pushes handed s)
    (ha : listenerCall nameAnswer (Queue.Fifos.record maxFrameSize p) = some a)
    (hs : Envelopes.step .reused s a = some (es, t)) :
    Noted (pushes ++ [p]) (handed ++ es) t := by
  cases p with
  | notification category payload value =>
    cases ha
    obtain ⟨-, hx⟩ := Envelopes.idle_eq_some.mp hs
    have hnoted := h.recordNotification category payload value
    rwa [hx] at hnoted
  | thread => cases ha
  | _ =>
    cases ha
    exact (noted_snoc rfl).mpr (h.step (fun _ _ _ he => by cases he) hs)

end Opsian.Writer.Notifications
