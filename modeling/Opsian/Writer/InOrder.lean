import Opsian.Lib.Runs
import Opsian.Writer.Allocations
import Opsian.Writer.Notifications

/-! # In the order of the pushes

Each lane is a list of finished records and a list of those that wait. The first that waits
may be in the hands of the log writer, which then either has all of it still to hand over, or
has handed it over while its slot is not yet free. -/
namespace Opsian.Writer.InOrder
open Opsian.Globals Opsian.Lib.Runs Opsian.Queue.Fifos
open Opsian.Queue.CircularQueue (Call CallTrace Push)
open Opsian.Prometheus.Exporter (CallFrame)
open Opsian.Symbols.SymbolTable (Location)
open Opsian.Writer.LogWriter (readFrames)
open Opsian.Writer.Messages
open Opsian.Writer.Envelopes (NameAnswer Walk)
open Opsian.Writer.Pipeline Opsian.Writer.Allocations Opsian.Writer.Notifications

variable {maxFrameSize : Nat} {lookups : CallFrame → List Location → Bool} {s t : State}
  {finished waiting : Lane → List Push} {a : Label}

/-- What was popped was accepted first, and has been handed over in that order: each trace as
one sample, but for the one that is walked, each record of the metrics as one message, and each
notification as one message unless it is in the stash. A thread is not handed over. -/
structure HandedOver (maxFrameSize : Nat) (lookups : CallFrame → List Location → Bool) (s : State) :
    Prop where
  inTurn : ∀ l, InTurn maxFrameSize s l
  samples : List.Forall₂ (CarriesPush lookups) ((done s .stack).filter isStackTrace)
    (s.handed.filterMap stackSample?)
  metrics : s.handed.filter isMetric = (done s .main).filterMap metricEnvelope?
  notifications : s.handed.filterMap notification? ++ s.writer.notifications =
    (done s .main).filterMap pushedNotification?

/-- The record for which the listener is called. -/
def inHand (s : State) (waiting : Lane → List Push) (l : Lane) : List Push :=
  if s.place = .calling l then (waiting l).take 1 else []

/-- The record whose call has done all that it hands over, and is still in its slot. -/
def called (s : State) (waiting : Lane → List Push) (l : Lane) : List Push :=
  if s.place = .calling l ∧ s.writer.walk = none then (waiting l).take 1 else []

def WalkingPush (maxFrameSize : Nat) (lookups : CallFrame → List Location → Bool) (p : Push)
    (w : Walk) (m : StackSample) : Prop :=
  match p with
  | .stackTrace ts item signum threadState _ => ∃ nameAnswer, Walking lookups
      ⟨ts, delivered maxFrameSize item, signum, threadState, nameAnswer⟩ w m
  | _ => False

/-- What was handed over is what the records ask for, lane by lane. -/
structure Sent (lookups : CallFrame → List Location → Bool) (ps : Lane → List Push)
    (handed : List AgentEnvelope) (w : Envelopes.State) : Prop where
  samples : List.Forall₂ (CarriesPush lookups) ((ps .stack).filter isStackTrace)
    (handed.filterMap stackSample?)
  metrics : handed.filter isMetric = (ps .main).filterMap metricEnvelope?
  allocations : Tallied (ps .allocation) handed w.allocationsTable
  notifications : Noted (ps .main) handed w

/-- The records of each lane are finished or wait, and the first one that waits may be in
the hands of the log writer. -/
structure Inv (maxFrameSize : Nat) (lookups : CallFrame → List Location → Bool) (s : State)
    (finished waiting : Lane → List Push) : Prop where
  pushed : ∀ l, s.pushed l = finished l ++ waiting l
  fits : ∀ l, ∀ p ∈ waiting l, lane p = l ∧ Fits maxFrameSize p
  refines : Refines maxFrameSize s.queue fun l => (waiting l).map (record maxFrameSize)
  calling : ∀ l, s.place = .calling l → waiting l ≠ []
  walking : ∀ w, s.writer.walk = some w → s.place = .calling .stack ∧
    ∃ p m, (waiting .stack).head? = some p ∧ s.writer.frameAgentEnvelope = .stackSample m ∧
      WalkingPush maxFrameSize lookups p w m
  sent : Sent lookups (fun l => finished l ++ called s waiting l) s.handed s.writer
  popped : ∀ l, s.popped l = (finished l ++ inHand s waiting l).map (record maxFrameSize)

theorem init_inv (maxFrameSize : Nat) (lookups : CallFrame → List Location → Bool)
    (symbol timeTsc : UInt64) :
    Inv maxFrameSize lookups (init maxFrameSize symbol timeTsc) (fun _ => []) fun _ => [] where
  pushed _ := rfl
  fits l p hp := by cases hp
  refines := init_refines maxFrameSize symbol timeTsc
  calling l hl := by cases hl
  walking w hw := by cases hw
  sent := ⟨.nil, rfl, tallied_nil, noted_nil⟩
  popped _ := rfl

/-! ## What is handed over -/

section

variable {ps ps' : Lane → List Push} {handed es : List AgentEnvelope} {w w' : Envelopes.State}

theorem Sent.congr (h : Sent lookups ps handed w) (hps : ∀ l, ps' l = ps l) :
    Sent lookups ps' handed w := by
  rwa [funext hps]

/-- What is beside the records. -/
theorem Sent.beside (h : Sent lookups ps handed w) (hes : Other es)
    (htallied : ∀ pushes, Tallied pushes handed w.allocationsTable →
      Tallied pushes (handed ++ es) w'.allocationsTable)
    (hnoted : ∀ pushes, Noted pushes handed w → Noted pushes (handed ++ es) w') :
    Sent lookups ps (handed ++ es) w' where
  samples := by
    rw [List.filterMap_append, hes.1, List.append_nil]
    exact h.samples
  metrics := by
    rw [List.filter_append, hes.2, List.append_nil]
    exact h.metrics
  allocations := htallied _ h.allocations
  notifications := hnoted _ h.notifications

theorem isStackTrace_of_lane {p : Push} (hlane : lane p ≠ .stack) : isStackTrace p = false := by
  cases p with
  | stackTrace => exact absurd rfl hlane
  | _ => rfl

theorem metricEnvelope?_of_lane {p : Push} (hlane : lane p ≠ .main) : metricEnvelope? p = none := by
  cases p with
  | stackTrace | thread | allocation => rfl
  | notification | metricInformation | metricSamples | constantMetricsComplete =>
    exact absurd rfl hlane

theorem pushedAllocation?_of_lane {p : Push} (hlane : lane p ≠ .allocation) :
    pushedAllocation? p = none := by
  cases p with
  | allocation => exact absurd rfl hlane
  | _ => rfl

theorem pushedNotification?_of_lane {p : Push} (hlane : lane p ≠ .main) :
    pushedNotification? p = none := by
  cases p with
  | notification => exact absurd rfl hlane
  | _ => rfl

theorem toList_metricEnvelope? (p : Push) :
    (metricEnvelope? p).toList = [p].filterMap metricEnvelope? := by cases p <;> rfl

/-- One record more, and what it asks for. -/
theorem Sent.record (h : Sent lookups ps handed w) {l : Lane} {p : Push} (hlane : lane p = l)
    (hsample : List.Forall₂ (CarriesPush lookups) ([p].filter isStackTrace)
      (es.filterMap stackSample?))
    (hmetric : es.filter isMetric = (metricEnvelope? p).toList)
    (htallied : ∀ pushes, Tallied pushes handed w.allocationsTable →
      Tallied (pushes ++ [p]) (handed ++ es) w'.allocationsTable)
    (hnoted : ∀ pushes, Noted pushes handed w → Noted (pushes ++ [p]) (handed ++ es) w') :
    Sent lookups (fun k => ps k ++ if l = k then [p] else []) (handed ++ es) w' where
  samples := by
    rw [List.filterMap_append, List.filter_append]
    refine List.rel_append h.samples ?_
    split
    · exact hsample
    · rename_i hstack
      rwa [List.filter_singleton, isStackTrace_of_lane (hlane ▸ hstack)] at hsample
  metrics := by
    rw [List.filter_append, hmetric, h.metrics, List.filterMap_append]
    congr 1
    split
    · exact toList_metricEnvelope? p
    · rename_i hmain
      rw [metricEnvelope?_of_lane (hlane ▸ hmain)]
      rfl
  allocations := by
    split
    · exact htallied _ h.allocations
    · rename_i hallocation
      rw [List.append_nil]
      exact (tallied_snoc (pushedAllocation?_of_lane (hlane ▸ hallocation))).mp
        (htallied _ h.allocations)
  notifications := by
    split
    · exact hnoted _ h.notifications
    · rename_i hmain
      rw [List.append_nil]
      exact (noted_snoc (pushedNotification?_of_lane (hlane ▸ hmain))).mp
        (hnoted _ h.notifications)

end

/-! ## Runs -/

theorem carriesPush {p : Push} {isError : Bool} {numFrames : Nat} {m : StackSample}
    (hfits : Fits maxFrameSize p)
    (h : WalkingPush maxFrameSize lookups p ⟨isError, numFrames, []⟩ m) :
    isStackTrace p = true ∧ CarriesPush lookups p (Envelopes.setHasMaxFrames numFrames m) := by
  cases p with
  | stackTrace ts item signum threadState timeTsc =>
    obtain ⟨nameAnswer, hwalking⟩ := h
    exact ⟨rfl, hwalking.carries.of_delivered hfits.2⟩
  | _ => exact h.elim

theorem Inv.idle (h : Inv maxFrameSize lookups s finished waiting)
    (hplace : s.place ≠ .calling .stack) : s.writer.walk = none := by
  cases hwalk : s.writer.walk with
  | none => rfl
  | some w => exact absurd (h.walking w hwalk).1 hplace

theorem take_one {ps : List Push} {p : Push} (h : ps.head? = some p) : ps.take 1 = [p] := by
  rw [List.take_one, h]
  rfl

theorem called_nil {l : Lane} (h : ¬ (s.place = .calling l ∧ s.writer.walk = none)) :
    called s waiting l = [] := if_neg h

theorem called_acquiring {l l' : Lane} (h : s.place = .acquiring l') :
    called s waiting l = [] := by
  refine called_nil fun hcalling => ?_
  cases h.symm.trans hcalling.1

/-- The call for the head of a lane has done what it does. -/
theorem called_head {l : Lane} {p : Push} (hplace : s.place = .calling l)
    (hwalk : s.writer.walk = none) (hhead : (waiting l).head? = some p) (k : Lane) :
    called s waiting k = if l = k then [p] else [] := by
  unfold called
  by_cases hk : l = k
  · rw [if_pos hk, if_pos ⟨hplace.trans (congrArg _ hk), hwalk⟩, ← hk, take_one hhead]
  · rw [if_neg hk, if_neg fun hcalling => hk (Place.calling.inj (hplace.symm.trans hcalling.1))]

theorem inHand_acquiring {l l' : Lane} (h : s.place = .acquiring l') :
    inHand s waiting l = [] := if_neg (by simp [h])

/-- A record gets behind all that wait. -/
theorem inHand_push (h : Inv maxFrameSize lookups s finished waiting) (p : Push) (l : Lane) :
    inHand s (Function.update waiting (lane p) (waiting (lane p) ++ [p])) l =
      inHand s waiting l := by
  unfold inHand
  split
  · rename_i hcalling
    by_cases hl : l = lane p
    · subst hl
      rw [Function.update_self]
      cases hw : waiting (lane p) with
      | nil => exact absurd hw (h.calling _ hcalling)
      | cons q rest => rfl
    · rw [Function.update_of_ne hl]
  · rfl

theorem called_eq (s : State) (waiting : Lane → List Push) (l : Lane) :
    called s waiting l = if s.writer.walk = none then inHand s waiting l else [] := by
  unfold called inHand
  by_cases hwalk : s.writer.walk = none <;> simp [hwalk]

theorem called_push (h : Inv maxFrameSize lookups s finished waiting) (p : Push) (l : Lane) :
    called s (Function.update waiting (lane p) (waiting (lane p) ++ [p])) l =
      called s waiting l := by
  rw [called_eq, called_eq, inHand_push h]

theorem Inv.push (h : Inv maxFrameSize lookups s finished waiting) {p : Push}
    (hfits : Fits maxFrameSize p) :
    ∃ waiting, Inv maxFrameSize lookups (accept s p) finished waiting := by
  obtain ⟨hreturned, hrefines⟩ := accepted_of_fits h.refines hfits
  by_cases hfull : ((waiting (lane p)).map (record maxFrameSize)).length = (lane p).size
  · rw [if_pos hfull] at hrefines
    have hpushed : (accept s p).pushed = s.pushed := by
      rw [accept, hreturned, decide_eq_true hfull]
      rfl
    refine ⟨waiting, fun l => ?_, h.fits, hrefines, h.calling, h.walking, h.sent, h.popped⟩
    rw [hpushed]
    exact h.pushed l
  · rw [if_neg hfull] at hrefines
    have hpushed : (accept s p).pushed =
        Function.update s.pushed (lane p) (s.pushed (lane p) ++ [p]) := by
      rw [accept, hreturned, decide_eq_false hfull]
      rfl
    refine ⟨Function.update waiting (lane p) (waiting (lane p) ++ [p]), fun l => ?_,
      fun l q hq => ?_, ?_, fun l hl => ?_, fun w hw => ?_,
      h.sent.congr fun l => congrArg (finished l ++ ·) (called_push h p l), fun l => ?_⟩
    · rw [hpushed]
      by_cases hl : l = lane p
      · rw [hl, Function.update_self, Function.update_self, h.pushed, List.append_assoc]
      · rw [Function.update_of_ne hl, Function.update_of_ne hl]
        exact h.pushed l
    · by_cases hl : l = lane p
      · rw [hl, Function.update_self] at hq
        rcases List.mem_append.mp hq with hq | hq
        · rw [hl]
          exact h.fits _ q hq
        · rw [List.mem_singleton.mp hq]
          exact ⟨hl.symm, hfits⟩
      · rw [Function.update_of_ne hl] at hq
        exact h.fits l q hq
    · rw [map_update, List.map_append]
      exact hrefines
    · by_cases hp : l = lane p
      · rw [hp, Function.update_self]
        exact List.append_ne_nil_of_right_ne_nil _ (List.cons_ne_nil _ _)
      · rw [Function.update_of_ne hp]
        exact h.calling l hl
    · obtain ⟨hplace, q, m, hhead, hwalking⟩ := h.walking w hw
      refine ⟨hplace, q, m, ?_, hwalking⟩
      by_cases hp : Lane.stack = lane p
      · rw [← hp, Function.update_self, List.head?_append, hhead]
        rfl
      · rw [Function.update_of_ne hp]
        exact hhead
    · show s.popped l = (finished l ++ inHand s _ l).map _
      rw [inHand_push h]
      exact h.popped l

/-- The lane that is popped next. -/
theorem Inv.acquire (h : Inv maxFrameSize lookups s finished waiting) {l : Lane}
    (hplace : s.place = .acquiring l) (l' : Lane) :
    Inv maxFrameSize lookups { s with place := .acquiring l' } finished waiting := by
  have hwalk := h.idle fun he => by cases hplace.symm.trans he
  refine ⟨h.pushed, h.fits, h.refines, fun k hk => ?_, fun w hw => ?_, h.sent.congr fun k => ?_,
    fun k => ?_⟩
  · cases hk
  · cases hwalk.symm.trans hw
  · rw [called_acquiring rfl, called_acquiring hplace]
  · rw [inHand_acquiring rfl, ← inHand_acquiring hplace]
    exact h.popped k

/-- The head of a lane. -/
theorem popLane_eq (h : Inv maxFrameSize lookups s finished waiting) (l : Lane) :
    ∃ q, popLane s.queue l = some ((waiting l).head?.map (record maxFrameSize), q) ∧
      Refines maxFrameSize q (Function.update (fun l => (waiting l).map (record maxFrameSize)) l
        ((waiting l).tail.map (record maxFrameSize))) := by
  obtain ⟨q, hq, hrefines⟩ := popLane_popped h.refines l
  rw [List.head?_map] at hq
  rw [← List.map_tail] at hrefines
  exact ⟨q, hq, hrefines⟩

/-- The listener is called for the head of a lane. -/
theorem popped_begin (h : Inv maxFrameSize lookups s finished waiting) {l : Lane} {p : Push}
    (hplace : s.place = .acquiring l) (hhead : (waiting l).head? = some p)
    (ht : t.place = .calling l)
    (hpopped : t.popped = Function.update s.popped l (s.popped l ++ [record maxFrameSize p]))
    (k : Lane) : t.popped k = (finished k ++ inHand t waiting k).map (record maxFrameSize) := by
  have hbefore := h.popped k
  rw [inHand_acquiring hplace] at hbefore
  rw [hpopped]
  by_cases hk : k = l
  · subst hk
    rw [Function.update_self, hbefore, inHand, if_pos ht, take_one hhead, List.append_nil,
      List.map_append]
    rfl
  · rw [Function.update_of_ne hk, hbefore, inHand, if_neg fun he => hk ?_]
    exact (Place.calling.inj (ht.symm.trans he)).symm

/-- A call for a stack trace hands over nothing yet. -/
theorem Inv.beginTrace (h : Inv maxFrameSize lookups s finished waiting)
    (hplace : s.place = .acquiring .stack) {ts : Timespec} {item : CallTrace}
    {signum threadState : Int} {timeTsc : UInt64} {nameAnswer : NameAnswer}
    (hhead : (waiting .stack).head? = some (.stackTrace ts item signum threadState timeTsc)) :
    Inv maxFrameSize lookups
      { s with
        place := .calling .stack
        popped := Function.update s.popped .stack (s.popped .stack ++
          [.recordStackTrace ts (delivered maxFrameSize item) signum threadState timeTsc])
        writer := Envelopes.recordStackTrace .reused s.writer
          ⟨ts, delivered maxFrameSize item, signum, threadState, nameAnswer⟩
        handed := s.handed ++ [] } finished waiting := by
  obtain ⟨w, m, hwalk, henvelope, hwalking⟩ := @walking_begin lookups s.writer
    ⟨ts, delivered maxFrameSize item, signum, threadState, nameAnswer⟩
  refine ⟨h.pushed, h.fits, h.refines, fun l hl hnil => ?_, fun w' hw' => ?_, ?_,
    popped_begin h hplace hhead rfl rfl⟩
  · cases hl
    rw [hnil] at hhead
    cases hhead
  · cases hwalk.symm.trans hw'
    exact ⟨rfl, _, m, hhead, henvelope, nameAnswer, hwalking⟩
  · refine .congr (h.sent.beside other_nil (fun _ htallied => ?_) fun _ hnoted => ?_) fun k => ?_
    · exact htallied.other rfl rfl
    · exact hnoted.other rfl rfl id
    · rw [called_acquiring hplace, called_nil fun hcalled => by cases hwalk.symm.trans hcalled.2]

/-- A call for any other record is over at once. -/
theorem Inv.beginOther (h : Inv maxFrameSize lookups s finished waiting) {l : Lane} {p : Push}
    {w : Envelopes.State} {es : List AgentEnvelope} (hplace : s.place = .acquiring l)
    (hhead : (waiting l).head? = some p) (hp : isStackTrace p = false) (hwalk : w.walk = none)
    (hsample : es.filterMap stackSample? = [])
    (hmetric : es.filter isMetric = (metricEnvelope? p).toList)
    (htallied : ∀ pushes, Tallied pushes s.handed s.writer.allocationsTable →
      Tallied (pushes ++ [p]) (s.handed ++ es) w.allocationsTable)
    (hnoted : ∀ pushes, Noted pushes s.handed s.writer → Noted (pushes ++ [p]) (s.handed ++ es) w) :
    Inv maxFrameSize lookups
      { s with
        place := .calling l
        popped := Function.update s.popped l (s.popped l ++ [record maxFrameSize p])
        writer := w
        handed := s.handed ++ es } finished waiting := by
  have hlane : lane p = l := (h.fits l p (List.mem_of_head? hhead)).1
  have hnone : List.Forall₂ (CarriesPush lookups) ([p].filter isStackTrace)
      (es.filterMap stackSample?) := by
    rw [List.filter_singleton, hp, hsample]
    exact .nil
  refine ⟨h.pushed, h.fits, h.refines, fun k hk hnil => ?_, fun w' hw' => ?_,
    (h.sent.record hlane hnone hmetric htallied hnoted).congr fun k => ?_,
    popped_begin h hplace hhead rfl rfl⟩
  · cases hk
    rw [hnil] at hhead
    cases hhead
  · cases hwalk.symm.trans hw'
  · rw [called_acquiring hplace, called_head rfl hwalk hhead, List.append_nil]

theorem Inv.begin {l : Lane} {nameAnswer : NameAnswer}
    (h : Inv maxFrameSize lookups s finished waiting) (hplace : s.place = .acquiring l)
    (hs : begin s l nameAnswer = some t) : Inv maxFrameSize lookups t finished waiting := by
  obtain ⟨q, hpop, -⟩ := popLane_eq h l
  unfold Pipeline.begin at hs
  rw [hpop] at hs
  cases hhead : (waiting l).head? with
  | none =>
    rw [hhead] at hs
    cases hs
  | some p =>
    rw [hhead, Option.map_some] at hs
    dsimp only at hs
    by_cases hp : isStackTrace p = true
    · cases p with
      | stackTrace ts item signum threadState timeTsc =>
        have hl : l = .stack := (h.fits l _ (List.mem_of_head? hhead)).1.symm
        subst hl
        have hidle := h.idle fun he => by cases hplace.symm.trans he
        simp only [record, listenerCall, deliver, Envelopes.step, Envelopes.idle, hidle,
          if_true, Option.map_some] at hs
        cases hs
        exact h.beginTrace hplace hhead
      | _ => cases hp
    · have hp := Bool.eq_false_of_not_eq_true hp
      split at hs
      · rename_i a ha
        obtain ⟨⟨es, w⟩, hstep, he⟩ := Option.map_eq_some_iff.mp hs
        obtain ⟨hwalk, hsample, hmetric⟩ := step_call hp ha hstep
        cases he
        exact h.beginOther hplace hhead hp hwalk hsample hmetric
          (fun pushes htallied => htallied.call ha hstep)
          fun pushes hnoted => hnoted.call ha hstep
      · rename_i hnone
        have hthread : metricEnvelope? p = none ∧ pushedAllocation? p = none ∧
            pushedNotification? p = none := by
          cases p with
          | thread => exact ⟨rfl, rfl, rfl⟩
          | _ => cases hnone
        cases hs
        have hidle := h.idle fun he => by cases hplace.symm.trans he
        have hother := h.beginOther hplace hhead hp hidle (rfl : [].filterMap stackSample? = [])
          (by rw [hthread.1]; rfl)
          (fun pushes htallied => (tallied_snoc hthread.2.1).mpr (htallied.other rfl rfl))
          fun pushes hnoted => (noted_snoc hthread.2.2).mpr (hnoted.other rfl rfl id)
        rw [List.append_nil] at hother
        exact hother

/-- The call has returned: its record is finished. -/
theorem Inv.commitRead (h : Inv maxFrameSize lookups s finished waiting) {l : Lane}
    {x : Option Call × Queue.CircularQueue.State} (hplace : s.place = .calling l)
    (hwalk : s.writer.walk = none) (hx : popLane s.queue l = some x) :
    ∃ finished waiting, Inv maxFrameSize lookups
      { s with queue := x.2, place := .acquiring (nextLane l) } finished waiting := by
  obtain ⟨q, hpop, hrefines⟩ := popLane_eq h l
  cases hx.symm.trans hpop
  have hfinished : ∀ k, Function.update finished l (finished l ++ (waiting l).take 1) k =
      finished k ++ called s waiting k := by
    intro k
    by_cases hk : k = l
    · rw [hk, Function.update_self, called, if_pos ⟨hplace, hwalk⟩]
    · rw [Function.update_of_ne hk, called_nil, List.append_nil]
      intro hcalled
      cases hplace.symm.trans hcalled.1
      exact hk rfl
  refine ⟨Function.update finished l (finished l ++ (waiting l).take 1),
    Function.update waiting l (waiting l).tail, fun k => ?_, fun k p hp => ?_, ?_,
    fun k hk => ?_, fun w hw => ?_, h.sent.congr fun k => ?_, fun k => ?_⟩
  · show s.pushed k = _
    rw [h.pushed]
    by_cases hk : k = l
    · rw [hk, Function.update_self, Function.update_self, List.append_assoc,
        ← List.drop_one, List.take_append_drop]
    · rw [Function.update_of_ne hk, Function.update_of_ne hk]
  · by_cases hk : k = l
    · rw [hk, Function.update_self] at hp
      rw [hk]
      exact h.fits l p (List.mem_of_mem_tail hp)
    · rw [Function.update_of_ne hk] at hp
      exact h.fits k p hp
  · rw [map_update]
    exact hrefines
  · cases hk
  · cases hwalk.symm.trans hw
  · rw [called_acquiring rfl, List.append_nil, hfinished]
  · rw [inHand_acquiring rfl, List.append_nil]
    refine (h.popped k).trans (congrArg _ ?_)
    by_cases hk : k = l
    · rw [hk, Function.update_self, inHand, if_pos hplace]
    · rw [Function.update_of_ne hk, inHand, if_neg, List.append_nil]
      exact fun he => hk (Place.calling.inj (hplace.symm.trans he)).symm

/-- What is beside the call in progress. -/
theorem Inv.beside (h : Inv maxFrameSize lookups s finished waiting) {w : Envelopes.State}
    {es : List AgentEnvelope} (hes : Other es)
    (henvelope : w.frameAgentEnvelope = s.writer.frameAgentEnvelope)
    (hwalk : w.walk = s.writer.walk)
    (htallied : ∀ pushes, Tallied pushes s.handed s.writer.allocationsTable →
      Tallied pushes (s.handed ++ es) w.allocationsTable)
    (hnoted : ∀ pushes, Noted pushes s.handed s.writer → Noted pushes (s.handed ++ es) w) :
    Inv maxFrameSize lookups { s with writer := w, handed := s.handed ++ es } finished
      waiting := by
  refine ⟨h.pushed, h.fits, h.refines, h.calling, fun w' hw' => ?_,
    (h.sent.beside hes htallied hnoted).congr fun l => ?_, h.popped⟩
  · rw [henvelope]
    exact h.walking w' (hwalk ▸ hw')
  · rw [called, called, hwalk]

theorem Inv.lookedUp (h : Inv maxFrameSize lookups s finished waiting) {isError : Bool}
    {numFrames : Nat} {frame : CallFrame} {frames : List CallFrame} {locations : List Location}
    (hwalk : s.writer.walk = some ⟨isError, numFrames, frame :: frames⟩)
    (hlookup : lookups frame locations = true) :
    Inv maxFrameSize lookups
      { s with
        writer :=
          Envelopes.lookedUp s.writer ⟨isError, numFrames, frame :: frames⟩ frames locations
        handed := s.handed ++ [] } finished waiting := by
  obtain ⟨hplace, p, m, hhead, henvelope, hwalking⟩ := h.walking _ hwalk
  refine ⟨h.pushed, h.fits, h.refines, h.calling, fun w hw => ?_, ?_, h.popped⟩
  · cases hw
    refine ⟨hplace, p, Envelopes.addCompressedFrames isError locations m, hhead, ?_, ?_⟩
    · show Envelopes.modify s.writer _ = _
      rw [Envelopes.modify, henvelope]
      rfl
    · cases p with
      | stackTrace =>
        obtain ⟨nameAnswer, hwalking⟩ := hwalking
        exact ⟨nameAnswer, hwalking.lookedUp hlookup⟩
      | _ => exact hwalking.elim
  · refine .congr (h.sent.beside other_nil (fun _ htallied => ?_) fun _ hnoted => ?_) fun l => ?_
    · exact htallied.other rfl rfl
    · exact hnoted.other rfl rfl id
    · rw [called_nil (fun hcalled => by cases hcalled.2),
        called_nil (fun hcalled => by cases hwalk.symm.trans hcalled.2)]

/-- The sample is handed over. -/
theorem Inv.ended (h : Inv maxFrameSize lookups s finished waiting) {isError : Bool}
    {numFrames : Nat} (hwalk : s.writer.walk = some ⟨isError, numFrames, []⟩) :
    Inv maxFrameSize lookups
      { s with
        writer := (Envelopes.endStackTrace s.writer ⟨isError, numFrames, []⟩).2
        handed := s.handed ++ (Envelopes.endStackTrace s.writer ⟨isError, numFrames, []⟩).1 }
      finished waiting := by
  obtain ⟨hplace, p, m, hhead, henvelope, hwalking⟩ := h.walking _ hwalk
  obtain ⟨hlane, hfits⟩ := h.fits _ p (List.mem_of_head? hhead)
  obtain ⟨hp, hcarries⟩ := carriesPush hfits hwalking
  have hended : (Envelopes.endStackTrace s.writer ⟨isError, numFrames, []⟩).1 =
      [.stackSample (Envelopes.setHasMaxFrames numFrames m)] := by
    rw [Envelopes.endStackTrace, Envelopes.modify, henvelope]
    rfl
  rw [hended]
  have hsample : List.Forall₂ (CarriesPush lookups) ([p].filter isStackTrace)
      ([.stackSample (Envelopes.setHasMaxFrames numFrames m)].filterMap stackSample?) := by
    rw [List.filter_singleton, hp]
    exact .cons hcarries .nil
  have hnone : metricEnvelope? p = none ∧ pushedAllocation? p = none ∧
      pushedNotification? p = none := by
    cases p with
    | stackTrace => exact ⟨rfl, rfl, rfl⟩
    | _ => cases hp
  refine ⟨h.pushed, h.fits, h.refines, h.calling, fun w hw => ?_,
    .congr (h.sent.record hlane hsample ?_ (fun _ htallied => ?_) fun _ hnoted => ?_)
      fun l => ?_, h.popped⟩
  · cases hw
  · rw [hnone.1]
    rfl
  · exact (tallied_snoc hnone.2.1).mpr (htallied.other rfl rfl)
  · exact (noted_snoc hnone.2.2).mpr (hnoted.other rfl rfl id)
  · have hbefore : called s waiting l = [] :=
      called_nil fun hcalled => by cases hwalk.symm.trans hcalled.2
    rw [hbefore, List.append_nil]
    refine congrArg (finished l ++ ·) (called_head ?_ rfl hhead l)
    exact hplace

theorem Inv.writer (h : Inv maxFrameSize lookups s finished waiting) {w : Envelopes.Label}
    (hw : inner lookups s.writer w = true) (hs : deliver s w = some t) :
    Inv maxFrameSize lookups t finished waiting := by
  obtain ⟨⟨es, w'⟩, hstep, rfl⟩ := Option.map_eq_some_iff.mp hs
  have hnot : ∀ allocationSize outsideTlab symbol,
      w ≠ .recordAllocation allocationSize outsideTlab symbol := by
    rintro _ _ _ rfl
    cases hw
  have hnot' : ∀ category payload value, w ≠ .recordNotification category payload value := by
    rintro _ _ _ rfl
    cases hw
  cases step_inner hw hstep with
  | beside hes henvelope hwalk =>
    exact h.beside hes henvelope hwalk (fun pushes htallied => htallied.step hnot hstep)
      fun pushes hnoted => hnoted.step hnot' hstep
  | lookedUp hwalk hlookup => exact h.lookedUp hwalk hlookup
  | ended hwalk => exact h.ended hwalk

/-- Threads push only traces that fit. -/
def Captured (maxFrameSize : Nat) : Label → Prop
  | .push p => Fits maxFrameSize p
  | _ => True

theorem Inv.step (h : ∃ finished waiting, Inv maxFrameSize lookups s finished waiting)
    (ha : Captured maxFrameSize a) (hs : step lookups s a = some t) :
    ∃ finished waiting, Inv maxFrameSize lookups t finished waiting := by
  obtain ⟨finished, waiting, h⟩ := h
  cases a with
  | push p =>
    cases hs
    exact ⟨finished, h.push ha⟩
  | skip =>
    unfold Pipeline.step at hs
    cases hplace : s.place with
    | acquiring l =>
      simp only [hplace] at hs
      split at hs
      · cases hs
        exact ⟨finished, waiting, h.acquire hplace (nextLane l)⟩
      · cases hs
    | calling l =>
      simp only [hplace] at hs
      cases hs
  | call nameAnswer =>
    unfold Pipeline.step at hs
    cases hplace : s.place with
    | acquiring l =>
      simp only [hplace] at hs
      exact ⟨finished, waiting, h.begin hplace hs⟩
    | calling l =>
      simp only [hplace] at hs
      cases hs
  | commitRead =>
    unfold Pipeline.step at hs
    cases hplace : s.place with
    | acquiring l =>
      simp only [hplace] at hs
      cases hs
    | calling l =>
      simp only [hplace] at hs
      split at hs
      · rename_i hwalk
        obtain ⟨x, hx, rfl⟩ := Option.map_eq_some_iff.mp hs
        exact h.commitRead hplace hwalk hx
      · cases hs
  | writer w =>
    unfold Pipeline.step at hs
    simp only at hs
    split at hs
    · rename_i hw
      exact ⟨finished, waiting, h.writer hw hs⟩
    · cases hs

/-! ## What was popped -/

theorem inHand_prefix_waiting (s : State) (waiting : Lane → List Push) (l : Lane) :
    inHand s waiting l <+: waiting l := by
  unfold inHand
  split
  · exact List.take_prefix 1 (waiting l)
  · exact List.nil_prefix

theorem Inv.take_popped (h : Inv maxFrameSize lookups s finished waiting) (l : Lane) :
    (s.pushed l).take (s.popped l).length = finished l ++ inHand s waiting l := by
  obtain ⟨rest, hrest⟩ := inHand_prefix_waiting s waiting l
  rw [h.pushed, ← hrest, ← List.append_assoc, h.popped, List.length_map, List.take_left]

theorem Inv.inTurn (h : Inv maxFrameSize lookups s finished waiting) (l : Lane) :
    InTurn maxFrameSize s l := by
  have hsize := lane_length h.refines l
  have hprefix := (inHand_prefix_waiting s waiting l).length_le
  have hpushed := congrArg List.length (h.pushed l)
  have hpopped := congrArg List.length (h.popped l)
  simp only [List.length_map, List.length_append] at hsize hpushed hpopped
  refine ⟨?_, by omega, by omega⟩
  rw [h.take_popped]
  exact h.popped l

/-- The trace that is walked was popped last. -/
theorem Inv.done_eq (h : Inv maxFrameSize lookups s finished waiting) (l : Lane) :
    done s l = finished l ++ called s waiting l := by
  unfold done
  rw [called_eq]
  cases hwalk : s.writer.walk with
  | none =>
    simp only [Option.isSome_none, Bool.false_eq_true, and_false, if_false, if_true, Nat.sub_zero]
    exact h.take_popped l
  | some w =>
    obtain ⟨hplace, p, m, hhead, -⟩ := h.walking w hwalk
    have htake := h.take_popped l
    by_cases hl : l = .stack
    · subst hl
      have hhand : inHand s waiting .stack = [p] := by rw [inHand, if_pos hplace, take_one hhead]
      have hlength := congrArg List.length (h.popped .stack)
      rw [List.length_map, hhand, List.length_append, List.length_singleton] at hlength
      simp only [Option.isSome_some, and_self, if_true, reduceCtorEq, if_false, List.append_nil]
      rw [hlength, Nat.add_sub_cancel, h.pushed, List.take_left]
    · have hhand : inHand s waiting l = [] := by
        rw [inHand, if_neg]
        exact fun he => hl (Place.calling.inj (hplace.symm.trans he)).symm
      rw [hhand] at htake
      simpa [hl] using htake

theorem Inv.handedOver (h : Inv maxFrameSize lookups s finished waiting) :
    HandedOver maxFrameSize lookups s where
  inTurn := h.inTurn
  samples := by
    rw [h.done_eq]
    exact h.sent.samples
  metrics := by
    rw [h.done_eq]
    exact h.sent.metrics
  notifications := by
    rw [h.done_eq]
    exact h.sent.notifications.order

theorem along_inv (maxFrameSize : Nat) (lookups : CallFrame → List Location → Bool)
    (symbol timeTsc : UInt64) {labels : List Label}
    (h : ∀ a ∈ labels, Captured maxFrameSize a) :
    Along (step lookups) (fun s => ∃ finished waiting, Inv maxFrameSize lookups s finished waiting)
      (init maxFrameSize symbol timeTsc) labels := by
  have hok : Steps (step lookups) (fun _ a => Captured maxFrameSize a)
      (init maxFrameSize symbol timeTsc) labels := .of_labels fun a ha _ => h a ha
  exact along_of_invariant (fun s a t hi ha hs => Inv.step hi ha hs)
    ⟨_, _, init_inv maxFrameSize lookups symbol timeTsc⟩ hok

/-- **What threads push is handed over in the order it was accepted**, in every order of whole
pushes and the steps of the processor thread: each trace as one sample of its own, each record
of the metrics as one message, and each notification at once or from the stash. -/
theorem handed_over_in_order (maxFrameSize : Nat) (lookups : CallFrame → List Location → Bool)
    (symbol timeTsc : UInt64) (labels : List Label)
    (h : ∀ a ∈ labels, Captured maxFrameSize a) :
    Along (step lookups) (HandedOver maxFrameSize lookups) (init maxFrameSize symbol timeTsc)
      labels := by
  refine (along_inv maxFrameSize lookups symbol timeTsc h).mono fun s hs => ?_
  obtain ⟨finished, waiting, hinv⟩ := hs
  exact hinv.handedOver

/-- Two threads push while the first trace is walked; its record is committed before theirs is
looked at. A notification waits for the first `SampleRate`. -/
theorem trace_before_thread :
    Along (step fun _ _ => true) (HandedOver 4 fun _ _ => true) (init 4 0 0)
      [.push (.stackTrace ⟨2, 0⟩ ⟨4, 7, [⟨false, 1⟩, ⟨false, 2⟩, ⟨true, 3⟩, ⟨true, 4⟩]⟩ 27 0 0),
        .push (.notification 1 "late" 0), .call .error, .commitRead, .skip, .call (.valid "main"),
        .push (.stackTrace ⟨3, 0⟩ ⟨-1, 8, [⟨false, 1⟩]⟩ 27 0 0), .writer (.onNewFile 1 "a.ml"),
        .writer (.lookedUp []), .push (.thread "worker" 9), .writer .endStackTrace, .commitRead,
        .writer (.onSampleRate ⟨0, 0⟩ true), .skip, .skip, .call (.valid "worker"),
        .writer .endStackTrace] :=
  handed_over_in_order 4 (fun _ _ => true) 0 0 _ (by simp [Captured, Pipeline.Fits])

/-- Every allocation that was popped is in a row that was handed over or in the table, which
has no two rows for a key; those that were not popped wait. -/
structure CountedOnce (maxFrameSize : Nat) (s : State) : Prop where
  inTurn : InTurn maxFrameSize s .allocation
  tallied : Tallied (done s .allocation) s.handed s.writer.allocationsTable

/-- **No allocation is lost or counted twice**, whenever the timer sends the table and clears
it. -/
theorem allocations_counted_once (maxFrameSize : Nat)
    (lookups : CallFrame → List Location → Bool) (symbol timeTsc : UInt64) (labels : List Label)
    (h : ∀ a ∈ labels, Captured maxFrameSize a) :
    Along (step lookups) (CountedOnce maxFrameSize) (init maxFrameSize symbol timeTsc)
      labels := by
  refine (along_inv maxFrameSize lookups symbol timeTsc h).mono fun s hs => ?_
  obtain ⟨finished, waiting, hinv⟩ := hs
  refine ⟨hinv.inTurn .allocation, ?_⟩
  rw [hinv.done_eq]
  exact hinv.sent.allocations

/-- The table is sent between two allocations of one key. -/
theorem sent_between :
    Along (step fun _ _ => true) (CountedOnce 4) (init 4 0 0)
      [.push (.allocation 16 false 7), .push (.allocation 24 false 7), .skip, .call .error,
        .commitRead, .writer .recordAllocationTable, .skip, .skip, .call .error, .commitRead] :=
  allocations_counted_once 4 (fun _ _ => true) 0 0 _ (by simp [Captured, Pipeline.Fits])

end Opsian.Writer.InOrder
