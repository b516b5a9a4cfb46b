import Opsian.Lib.History
import Opsian.Metrics.Loop

/-! # Metrics that are switched off

The thread keeps on running its cycles when metrics are off, and it may be anywhere outside the
locked sections when `disable` runs. It still pushes the time that each cycle took, and before
that the announcement of the duration, if it was at it. -/
namespace Opsian.Metrics.SwitchedOff
open Opsian.Lib Opsian.Lib.Runs Opsian.Lib.History Opsian.Metrics.Listener Opsian.Metrics.Loop

/-- The records that were pushed since the latest `disable`. -/
def note (since : List Record) (s : State) (a : Label) (t : State) : List Record :=
  match a with
  | .disable => []
  | .thread _ => since ++ t.queue.drop s.queue.length
  | .enable | .exit => since

def IsDuration (r : Record) : Prop := ∃ t d, r = .metricSamples t (durationSamples d)

/-- One announcement at most, and then durations only. -/
def Trailing (since : List Record) : Prop :=
  ∃ announced durations, since = announced ++ durations ∧
    (announced = [] ∨ announced = [.metricInformation durationInfo]) ∧ ∀ r ∈ durations, IsDuration r

/-- Nothing of what the readers read is pushed, nor is it at work, and the map has no name of
theirs. -/
structure Quiet (x : State × List Record) : Prop where
  trailing : Trailing x.2
  names : ∀ name ∈ x.1.metricNameToId, name = durationName
  batch : x.1.pc.batch = none

/-! ## Runs -/

/-- The thread is at the announcement. -/
def Pc.announcing : Pc → Bool
  | .insertDuration | .pushDuration => true
  | _ => false

/-- The thread takes `readersMutex` to look whether metrics are on, and gives it back. -/
structure Off (s : State) (since : List Record) : Prop where
  flag : s.mustSendDurationMetric = false
  trailing : Trailing since
  names : ∀ name ∈ s.metricNameToId, name = durationName
  unlocked : s.pc.locked = false
  announcing : Pc.announcing s.pc = true → since = []

def Inv (x : State × List Record) : Prop := x.1.enabled = false → Off x.1 x.2

variable {s t : State} {since : List Record} {a : Action}

theorem Off.quiet (h : Off s since) : Quiet (s, since) where
  trailing := h.trailing
  names := h.names
  batch := Pc.batch_of_unlocked (Bool.eq_false_iff.mp h.unlocked)

theorem trailing_nil : Trailing [] := by
  refine ⟨[], [], rfl, .inl rfl, fun r hr => ?_⟩
  cases hr

theorem Trailing.duration (h : Trailing since) (time : Int) (d : Int64) :
    Trailing (since ++ [.metricSamples time (durationSamples d)]) := by
  obtain ⟨announced, durations, rfl, hannounced, hdurations⟩ := h
  refine ⟨announced, durations ++ [_], List.append_assoc .., hannounced, fun r hr => ?_⟩
  rcases List.mem_append.mp hr with hr | hr
  · exact hdurations r hr
  · exact ⟨time, d, List.mem_singleton.mp hr⟩

theorem init_inv : Inv (init, []) := by
  intro _
  refine ⟨rfl, trailing_nil, fun name hname => ?_, rfl, fun _ => rfl⟩
  cases hname

/-- The thread moves along, and pushes nothing. -/
theorem Off.move (h : Off s since) {pc : Pc} (hlocked : pc.locked = false)
    (hannouncing : Pc.announcing pc = true → Pc.announcing s.pc = true) :
    Off (s.goto pc) since where
  flag := h.flag
  trailing := h.trailing
  names := h.names
  unlocked := hlocked
  announcing hpc := h.announcing (hannouncing hpc)

/-- Outside the locked sections a thread that finds metrics off only moves along, but for the
announcement and for the duration. -/
inductive Outside (s : State) : Action → State → Prop where
  | move {a : Action} {pc : Pc} (hlocked : pc.locked = false)
      (hannouncing : Pc.announcing pc = true → Pc.announcing s.pc = true) :
      Outside s a (s.goto pc)
  | insertDuration (hpc : s.pc = .insertDuration) :
      Outside s .go { s with
        metricNameToId := s.metricNameToId.emplace durationName durationId
        pc := .pushDuration }
  | retry (hpc : s.pc = .pushDuration) : Outside s (.pushed false) s
  | announce (hpc : s.pc = .pushDuration) :
      Outside s (.pushed true) ((s.push true (.metricInformation durationInfo)).goto .storeFlag)
  | storeFlag : Outside s .go { s with mustSendDurationMetric := false, pc := .lock }
  | duration (time : Int) (d : Int64) (ok : Bool) :
      Outside s (.pushed ok) ((s.push ok (.metricSamples time (durationSamples d))).goto .top)

theorem threadStep_outside (hlocked : s.pc.locked = false) (henabled : s.enabled = false)
    (hflag : s.mustSendDurationMetric = false) (hs : threadStep s s.pc a = some t) :
    Outside s a t := by
  generalize hpc : s.pc = pc at hs hlocked
  unfold threadStep at hs
  split at hs
  case h_7 => cases hlocked
  all_goals cases hs
  case h_1 =>
    cases s.running with
    | true => exact .move rfl nofun
    | false => exact .move rfl nofun
  case h_2 =>
    rw [hflag]
    exact .move rfl nofun
  case h_3 => exact .insertDuration hpc
  case h_4 ok =>
    cases ok with
    | true => exact .announce hpc
    | false => exact .retry hpc
  case h_5 => exact .storeFlag
  case h_6 =>
    rw [henabled]
    exact .move rfl nofun
  case h_8 | h_9 | h_10 | h_11 | h_12 => cases hlocked
  case h_16 =>
    rw [henabled]
    exact .move rfl nofun
  case h_20 time d ok => exact .duration time d ok
  all_goals exact .move rfl nofun

theorem mem_emplace_duration (h : ∀ name ∈ s.metricNameToId, name = durationName) {name : String}
    (hname : name ∈ s.metricNameToId.emplace durationName durationId) : name = durationName := by
  by_contra hne
  have hlookup := AList.lookup_isSome.mpr hname
  rw [Table.lookup_emplace_ne hne] at hlookup
  exact hne (h name (AList.lookup_isSome.mp hlookup))

theorem Off.outside (h : Off s since) (hs : Outside s a t) :
    Off t (since ++ t.queue.drop s.queue.length) := by
  have hsame : since ++ s.queue.drop s.queue.length = since := by
    rw [List.drop_length, List.append_nil]
  cases hs with
  | move hlocked hannouncing =>
    show Off (s.goto _) (since ++ s.queue.drop s.queue.length)
    rw [hsame]
    exact h.move hlocked hannouncing
  | insertDuration hpc =>
    show Off _ (since ++ s.queue.drop s.queue.length)
    rw [hsame]
    refine ⟨h.flag, h.trailing, ?_, rfl, fun _ => h.announcing (by rw [hpc]; rfl)⟩
    exact fun name hname => mem_emplace_duration h.names hname
  | retry hpc =>
    rw [hsame]
    exact h
  | announce hpc =>
    have hsince : since = [] := h.announcing (by rw [hpc]; rfl)
    show Off _ (since ++ (s.queue ++ [_]).drop s.queue.length)
    rw [List.drop_left, hsince]
    refine ⟨h.flag, ⟨[_], [], rfl, .inr rfl, fun r hr => ?_⟩, h.names, rfl, nofun⟩
    cases hr
  | storeFlag =>
    show Off _ (since ++ s.queue.drop s.queue.length)
    rw [hsame]
    exact ⟨rfl, h.trailing, h.names, rfl, nofun⟩
  | duration time d ok =>
    cases ok with
    | false =>
      show Off (s.goto .top) (since ++ s.queue.drop s.queue.length)
      rw [hsame]
      exact h.move rfl nofun
    | true =>
      show Off _ (since ++ (s.queue ++ [_]).drop s.queue.length)
      rw [List.drop_left]
      exact ⟨h.flag, h.trailing.duration time d, h.names, rfl, nofun⟩

theorem threadStep_enabled (hs : threadStep s s.pc a = some t) : t.enabled = s.enabled :=
  (threadStep_effect hs).enabled

/-- Behind `disable` the thread is outside, wherever it was. -/
theorem Inv.disable (h : Inv (s, since)) (hlocked : s.pc.locked = false) :
    Off (disable s) [] where
  flag := rfl
  trailing := trailing_nil
  unlocked := hlocked
  names name hname := by
    cases henabled : s.enabled with
    | true =>
      have hempty : (Loop.disable s).metricNameToId = ∅ := by
        simp only [Loop.disable, henabled, if_true]
      have hmem : name ∈ (Loop.disable s).metricNameToId := hname
      rw [hempty] at hmem
      cases hmem
    | false =>
      have hkept : (Loop.disable s).metricNameToId = s.metricNameToId := by
        simp only [Loop.disable, henabled, Bool.false_eq_true, if_false]
      have hmem : name ∈ (Loop.disable s).metricNameToId := hname
      rw [hkept] at hmem
      exact (h henabled).names name hmem
  announcing _ := rfl

theorem enable_enabled (s : State) : (enable s).enabled = true := by
  unfold enable
  cases henabled : s.enabled with
  | true => rw [if_pos rfl, henabled]
  | false => rw [if_neg Bool.false_ne_true]

theorem Inv.next {x y : State × List Record} {a : Label} (h : Inv x)
    (hs : recording step note x a = some y) : Inv y := by
  obtain ⟨s, since⟩ := x
  refine next_of_step (I := Inv) (fun t ht henabled => ?_) hs
  cases a with
  | enable =>
    obtain ⟨-, ht⟩ := Option.ite_none_left_eq_some.mp ht
    cases ht
    rw [enable_enabled] at henabled
    cases henabled
  | disable =>
    obtain ⟨hlocked, ht⟩ := Option.ite_none_left_eq_some.mp ht
    cases ht
    exact h.disable (Bool.eq_false_iff.mpr hlocked)
  | exit =>
    cases ht
    exact { h henabled with }
  | thread a =>
    have hbefore : s.enabled = false := by
      rw [← threadStep_enabled ht]
      exact henabled
    have hoff := h hbefore
    exact hoff.outside (threadStep_outside hoff.unlocked hbefore hoff.flag ht)

/-- **Switched off is quiet**: in every run of the metrics thread beside the processor's switches,
wherever in its cycle the thread is when `disable` runs, whatever it has pushed since and until
the next `enable` is one announcement of the duration at most, ahead of durations; it works on
no batch of a reader's entries, and the map has no name of one. -/
theorem switched_off_quiet (labels : List Label) :
    Along (recording step note) (fun x => x.1.enabled = false → Quiet x) (init, []) labels :=
  (along_of_step (fun _ _ _ h hs => Inv.next h hs) init_inv labels).mono
    fun _ h henabled => (h henabled).quiet

end Opsian.Metrics.SwitchedOff
