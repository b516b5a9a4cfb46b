import Mathlib.Algebra.BigOperators.Group.List.Basic
import Mathlib.Algebra.Ring.Int.Defs
import Mathlib.Data.List.Chain
import Opsian.Metrics.RuntimeEvents

/-! # What a poll hands on

The entries of one millisecond make a batch, and what was lost goes out with the next
batch. A timestamp of 0 looks like no timestamp yet, and without an entry there is no
batch for what was lost. -/
namespace Opsian.Metrics.Polls
open Opsian.Metrics.Listener Opsian.Metrics.RuntimeEvents
open Opsian.Metrics.RuntimeEvents.PollState (new push addEntry apply run lostEventsEntry)

/-- The entries that the calls add, with their milliseconds. -/
def added (calls : List Call) : List (MetricListenerEntry × UInt64) :=
  calls.filterMap fun
    | .addEntry entry timestampInNs => some (entry, timestampInNs / nsInMs)
    | .lostEvents _ => none

/-- The events that the calls say were lost. -/
def lostTotal (calls : List Call) : Int :=
  (calls.map fun
    | .lostEvents n => n.toInt
    | .addEntry .. => 0).sum

/-- The entries of the batches but those of lost events, with the stamp of their batch. -/
def stamped (recorded : List (List MetricListenerEntry × Int64)) :
    List (MetricListenerEntry × Int64) :=
  recorded.flatMap fun b => (b.1.filter (·.name ≠ lostEventsName)).map (·, b.2)

/-- What the entries of lost events in the batches add up to. -/
def lostValues (recorded : List (List MetricListenerEntry × Int64)) : Int :=
  (recorded.map fun b =>
    ((b.1.filter (·.name = lostEventsName)).map (·.data.valueLong.toInt)).sum).sum

/-- The poll loses nothing: each added entry is in the batch of its millisecond, in order,
and the lost events are counted. -/
structure Lossless (adjustment : Int64) (calls : List Call) : Prop where
  entries : stamped (run adjustment calls).recorded =
    (added calls).map fun e => (e.1, adjustment + e.2.toInt64)
  lost : lostValues (run adjustment calls).recorded = lostTotal calls

/-- Where events were lost something is added, and no entry of the millisecond 0 comes
right before one of another millisecond. -/
structure Settled (calls : List Call) : Prop where
  lost : (∃ n, .lostEvents n ∈ calls) → added calls ≠ []
  zero : ((added calls).map Prod.snd).IsChain fun a b => a = 0 → b = 0

/-- The calls that a poll makes: no entry is named like the lost events, and their number
fits into an int. -/
structure Regular (calls : List Call) : Prop where
  names : ∀ e ts, .addEntry e ts ∈ calls → e.name ≠ lostEventsName
  positive : ∀ n, .lostEvents n ∈ calls → 0 < n
  total : lostTotal calls < 2 ^ 31

variable {adjustment : Int64} {calls : List Call} {s : PollState}

/-! ## One push -/

theorem stamped_append (r r' : List (List MetricListenerEntry × Int64)) :
    stamped (r ++ r') = stamped r ++ stamped r' := List.flatMap_append ..

theorem lostValues_append (r r' : List (List MetricListenerEntry × Int64)) :
    lostValues (r ++ r') = lostValues r + lostValues r' := by
  simp [lostValues]

/-- The entry of the lost events, where there are any. -/
def lostEntries (s : PollState) : List MetricListenerEntry :=
  if 0 < s.lostEvents then [lostEventsEntry s.lostEvents] else []

theorem push_eq (hs : s.entries ≠ []) :
    push adjustment s =
      { s with
        entries := []
        lostEvents := if 0 < s.lostEvents then 0 else s.lostEvents
        recorded := s.recorded ++
          [(s.entries ++ lostEntries s, adjustment + s.lastTimestampInMs.toInt64)] } := by
  unfold push lostEntries
  rw [if_neg hs]
  split <;> simp

theorem filter_names (hnames : ∀ e ∈ s.entries, e.name ≠ lostEventsName) :
    (s.entries ++ lostEntries s).filter (·.name ≠ lostEventsName) = s.entries ∧
      (s.entries ++ lostEntries s).filter (·.name = lostEventsName) = lostEntries s := by
  have hlost : ∀ e ∈ lostEntries s, e.name = lostEventsName := by
    unfold lostEntries
    split <;> simp [lostEventsEntry]
  constructor
  · rw [List.filter_append, List.filter_eq_self.mpr (by simpa using hnames),
      List.filter_eq_nil_iff.mpr (by simpa using hlost), List.append_nil]
  · rw [List.filter_append, List.filter_eq_nil_iff.mpr (by simpa using hnames),
      List.filter_eq_self.mpr (by simpa using hlost), List.nil_append]

/-- The entries that wait get the stamp. -/
theorem stamped_push (adjustment : Int64) (hs : s.entries ≠ [])
    (hnames : ∀ e ∈ s.entries, e.name ≠ lostEventsName) :
    stamped (push adjustment s).recorded =
      stamped s.recorded ++ s.entries.map (·, adjustment + s.lastTimestampInMs.toInt64) := by
  rw [push_eq hs, stamped_append]
  congr 1
  simp only [stamped, List.flatMap_cons, List.flatMap_nil, List.append_nil]
  rw [(filter_names hnames).1]

/-- What was lost is handed on. -/
theorem lostValues_push (adjustment : Int64) (hs : s.entries ≠ [])
    (hnames : ∀ e ∈ s.entries, e.name ≠ lostEventsName) (hlost : 0 ≤ s.lostEvents.toInt) :
    lostValues (push adjustment s).recorded = lostValues s.recorded + s.lostEvents.toInt := by
  rw [push_eq hs, lostValues_append]
  congr 1
  simp only [lostValues, List.map_cons, List.map_nil]
  rw [(filter_names hnames).2]
  unfold lostEntries
  split
  · simp [lostEventsEntry]
  · rename_i hnone
    rw [Int32.lt_iff_toInt_lt] at hnone
    simp at hnone ⊢
    omega

theorem lostEvents_push (adjustment : Int64) (hs : s.entries ≠ [])
    (hlost : 0 ≤ s.lostEvents.toInt) :
    (push adjustment s).lostEvents.toInt = 0 := by
  rw [push_eq hs]
  show Int32.toInt (if _ then _ else _) = 0
  split
  · rfl
  · rename_i hnone
    rw [Int32.lt_iff_toInt_lt] at hnone
    simp at hnone
    omega

/-! ## After some calls -/

/-- What waits behind the calls. -/
structure Waiting (calls : List Call) (s : PollState) : Prop where
  none : s.entries = [] → s.recorded = [] ∧ s.lastTimestampInMs = 0
  names : ∀ e ∈ s.entries, e.name ≠ lostEventsName
  last : ((added calls).map Prod.snd).getLast? =
    if s.entries = [] then Option.none else some s.lastTimestampInMs
  nonneg : 0 ≤ s.lostEvents.toInt ∧ 0 ≤ lostValues s.recorded
  lost : lostValues s.recorded + s.lostEvents.toInt = lostTotal calls

/-- The entries with the stamps that the next push gives to those that wait. -/
def flushed (adjustment : Int64) (s : PollState) : List (MetricListenerEntry × Int64) :=
  stamped s.recorded ++ s.entries.map (·, adjustment + s.lastTimestampInMs.toInt64)

theorem new_waiting : Waiting [] new where
  none _ := ⟨rfl, rfl⟩
  names := List.forall_mem_nil _
  last := rfl
  nonneg := by decide
  lost := rfl

theorem added_entry (calls : List Call) (e : MetricListenerEntry) (ts : UInt64) :
    added (calls ++ [.addEntry e ts]) = added calls ++ [(e, ts / nsInMs)] := by
  simp [added]

theorem added_lost (calls : List Call) (n : Int32) :
    added (calls ++ [.lostEvents n]) = added calls := by
  simp [added]

theorem lostTotal_entry (calls : List Call) (e : MetricListenerEntry) (ts : UInt64) :
    lostTotal (calls ++ [.addEntry e ts]) = lostTotal calls := by
  simp [lostTotal]

theorem lostTotal_lost (calls : List Call) (n : Int32) :
    lostTotal (calls ++ [.lostEvents n]) = lostTotal calls + n.toInt := by
  simp [lostTotal]

section Entry
variable {e : MetricListenerEntry} {ts : UInt64}

/-- The entry joins those that wait, which get its millisecond. -/
theorem addEntry_joins (h : s.lastTimestampInMs = 0 ∨ s.lastTimestampInMs = ts / nsInMs) :
    s.addEntry adjustment e ts =
      { s with lastTimestampInMs := ts / nsInMs, entries := s.entries ++ [e] } := by
  simp only [PollState.addEntry]
  by_cases hlast : s.lastTimestampInMs = 0
  · rw [if_pos hlast]
  · have heq := h.resolve_left hlast
    rw [if_neg hlast, if_neg (not_not.mpr heq), ← heq]

/-- The entries that wait are pushed first. -/
theorem addEntry_pushes (hlast : s.lastTimestampInMs ≠ 0) (hts : s.lastTimestampInMs ≠ ts / nsInMs)
    (hs : s.entries ≠ []) :
    s.addEntry adjustment e ts =
      { push adjustment s with lastTimestampInMs := ts / nsInMs, entries := [e] } := by
  simp only [PollState.addEntry]
  rw [if_neg hlast, if_pos hts, push_eq hs]
  rfl

theorem last_added (calls : List Call) (e : MetricListenerEntry) (ts : UInt64) :
    ((added (calls ++ [.addEntry e ts])).map Prod.snd).getLast? = some (ts / nsInMs) := by
  rw [added_entry, List.map_append]
  exact List.getLast?_concat

/-- An entry that is pushed for has others that wait. -/
theorem Waiting.ne_nil (h : Waiting calls s) (hlast : s.lastTimestampInMs ≠ 0) : s.entries ≠ [] :=
  fun hs => hlast (h.none hs).2

theorem Waiting.addEntry (h : Waiting calls s) (hname : e.name ≠ lostEventsName) :
    Waiting (calls ++ [.addEntry e ts]) (s.addEntry adjustment e ts) := by
  have hlost := h.lost
  by_cases hjoin : s.lastTimestampInMs = 0 ∨ s.lastTimestampInMs = ts / nsInMs
  · rw [addEntry_joins hjoin]
    refine ⟨by simp, fun e' he => ?_, ?_, h.nonneg, ?_⟩
    · rcases List.mem_append.mp he with he | he
      · exact h.names e' he
      · rw [List.mem_singleton.mp he]
        exact hname
    · rw [last_added]
      simp
    · rw [lostTotal_entry]
      exact hlost
  · obtain ⟨hlast, hts⟩ := not_or.mp hjoin
    have hs := h.ne_nil hlast
    have hvalues := lostValues_push adjustment hs h.names h.nonneg.1
    have hzero := lostEvents_push adjustment hs h.nonneg.1
    have hnonneg := h.nonneg
    rw [addEntry_pushes hlast hts hs]
    refine ⟨by simp, fun e' he => ?_, ?_, ⟨?_, ?_⟩, ?_⟩
    · rw [List.mem_singleton.mp he]
      exact hname
    · rw [last_added]
      simp
    · exact Int.le_of_eq hzero.symm
    · show 0 ≤ lostValues (push adjustment s).recorded
      omega
    · show lostValues (push adjustment s).recorded + (push adjustment s).lostEvents.toInt = _
      rw [lostTotal_entry]
      omega

end Entry

theorem Waiting.lostEvents (h : Waiting calls s) {n : Int32} (hn : 0 < n)
    (htotal : lostTotal (calls ++ [.lostEvents n]) < 2 ^ 31) :
    Waiting (calls ++ [.lostEvents n]) (s.apply adjustment (.lostEvents n)) := by
  have hpos : 0 < n.toInt := by simpa using Int32.lt_iff_toInt_lt.mp hn
  have hsum : (s.lostEvents + n).toInt = s.lostEvents.toInt + n.toInt := by
    have hlost := h.lost
    have hnonneg := h.nonneg
    rw [lostTotal_lost] at htotal
    rw [Int32.toInt_add]
    exact Int.bmod_eq_of_le (by omega) (by omega)
  refine ⟨h.none, h.names, ?_, ⟨?_, h.nonneg.2⟩, ?_⟩
  · rw [added_lost]
    exact h.last
  · show 0 ≤ (s.lostEvents + n).toInt
    have hnonneg := h.nonneg.1
    omega
  · show lostValues s.recorded + (s.lostEvents + n).toInt = _
    have hlost := h.lost
    rw [lostTotal_lost]
    omega

theorem Regular.init {c : Call} (h : Regular (calls ++ [c])) : Regular calls where
  names e ts hm := h.names e ts (List.mem_append_left _ hm)
  positive n hm := h.positive n (List.mem_append_left _ hm)
  total := by
    have htotal := h.total
    cases c with
    | addEntry e ts => rwa [lostTotal_entry] at htotal
    | lostEvents n =>
      have hn := Int32.lt_iff_toInt_lt.mp (h.positive n (by simp))
      rw [lostTotal_lost] at htotal
      simp at hn
      omega

/-- The state behind the calls of a poll, before its last push. -/
theorem waiting_of_regular (adjustment : Int64) (h : Regular calls) :
    Waiting calls (calls.foldl (apply adjustment) new) := by
  induction calls using List.reverseRecOn with
  | nil => exact new_waiting
  | append_singleton calls c ih =>
    have hbefore := ih h.init
    rw [List.foldl_concat]
    cases c with
    | addEntry e ts => exact hbefore.addEntry (h.names e ts (by simp))
    | lostEvents n => exact hbefore.lostEvents (h.positive n (by simp)) h.total

/-! ## The stamps -/

/-- What the poll owes for the calls. -/
def owed (adjustment : Int64) (calls : List Call) : List (MetricListenerEntry × Int64) :=
  (added calls).map fun e => (e.1, adjustment + e.2.toInt64)

theorem owed_entry (calls : List Call) (e : MetricListenerEntry) (ts : UInt64) :
    owed adjustment (calls ++ [.addEntry e ts]) =
      owed adjustment calls ++ [(e, adjustment + (ts / nsInMs).toInt64)] := by
  simp [owed, added_entry]

theorem add_toInt64_inj {a b : UInt64}
    (h : adjustment + a.toInt64 = adjustment + b.toInt64) : a = b := by
  have heq := (Int64.add_right_inj adjustment).mp h
  rw [← UInt64.toUInt64_toInt64 a, heq, UInt64.toUInt64_toInt64]

section Entry
variable {e : MetricListenerEntry} {ts : UInt64}

/-- An entry that changes no stamp. -/
theorem Waiting.flushed_addEntry (h : Waiting calls s)
    (hkeep : s.entries = [] ∨ (s.lastTimestampInMs = 0 → ts / nsInMs = 0)) :
    flushed adjustment (s.addEntry adjustment e ts) =
      flushed adjustment s ++ [(e, adjustment + (ts / nsInMs).toInt64)] := by
  by_cases hjoin : s.lastTimestampInMs = 0 ∨ s.lastTimestampInMs = ts / nsInMs
  · have hmap : s.entries.map (·, adjustment + (ts / nsInMs).toInt64) =
        s.entries.map (·, adjustment + s.lastTimestampInMs.toInt64) := by
      rcases hkeep with hs | hzero
      · rw [hs]
        rfl
      · have hlast : s.lastTimestampInMs = ts / nsInMs := by
          rcases hjoin with hlast | hlast
          · rw [hlast, hzero hlast]
          · exact hlast
        rw [hlast]
    rw [addEntry_joins hjoin]
    show stamped s.recorded ++ (s.entries ++ [e]).map (·, _) = _
    rw [List.map_append, hmap, ← List.append_assoc]
    rfl
  · obtain ⟨hlast, hts⟩ := not_or.mp hjoin
    have hs := h.ne_nil hlast
    rw [addEntry_pushes hlast hts hs]
    show stamped (push adjustment s).recorded ++ _ = _
    rw [stamped_push adjustment hs h.names]
    rfl

/-- An entry behind ones of the millisecond 0 takes them along. -/
theorem Waiting.flushed_relabels (h : Waiting calls s) (hs : s.entries ≠ [])
    (hlast : s.lastTimestampInMs = 0) (hts : ts / nsInMs ≠ 0) :
    flushed adjustment (s.addEntry adjustment e ts) ≠
      owed adjustment (calls ++ [.addEntry e ts]) := by
  have hlatest : (owed adjustment calls).getLast?.map Prod.snd =
      some (adjustment + (0 : UInt64).toInt64) := by
    have hzero := h.last
    rw [if_neg hs, hlast, List.getLast?_map] at hzero
    obtain ⟨e, he, hz⟩ := Option.map_eq_some_iff.mp hzero
    rw [owed, List.getLast?_map, he, Option.map_some, Option.map_some, hz]
  have hwaiting : (s.entries.map (·, adjustment + (ts / nsInMs).toInt64)).getLast?.map Prod.snd =
      some (adjustment + (ts / nsInMs).toInt64) := by
    obtain ⟨l, e', hl⟩ := (List.eq_nil_or_concat s.entries).resolve_left hs
    simp [hl]
  rw [addEntry_joins (.inl hlast), owed_entry]
  show stamped s.recorded ++ (s.entries ++ [e]).map (·, _) ≠ _
  rw [List.map_append, ← List.append_assoc]
  intro heq
  rw [← List.append_cancel_right heq, List.getLast?_append_of_ne_nil _ (by simpa using hs),
    hwaiting] at hlatest
  exact hts (add_toInt64_inj (Option.some.inj hlatest))

end Entry

theorem flushed_iff (adjustment : Int64) (h : Regular calls) :
    flushed adjustment (calls.foldl (apply adjustment) new) = owed adjustment calls ↔
      ((added calls).map Prod.snd).IsChain fun a b => a = 0 → b = 0 := by
  induction calls using List.reverseRecOn with
  | nil => exact iff_of_true rfl .nil
  | append_singleton calls c ih =>
    have hbefore := waiting_of_regular adjustment h.init
    rw [List.foldl_concat]
    cases c with
    | lostEvents n =>
      rw [added_lost, show owed adjustment (calls ++ [.lostEvents n]) = _ by rw [owed, added_lost]]
      exact ih h.init
    | addEntry e ts =>
      have hchain : ((added (calls ++ [.addEntry e ts])).map Prod.snd).IsChain
          (fun a b => a = 0 → b = 0) ↔
          ((added calls).map Prod.snd).IsChain (fun a b => a = 0 → b = 0) ∧
            ((calls.foldl (apply adjustment) new).entries = [] ∨
              ((calls.foldl (apply adjustment) new).lastTimestampInMs = 0 → ts / nsInMs = 0)) := by
        rw [added_entry, List.map_append, List.isChain_append, hbefore.last]
        refine and_congr_right fun _ => ?_
        by_cases hs : (calls.foldl (apply adjustment) new).entries = [] <;> simp [hs]
      by_cases hkeep : (calls.foldl (apply adjustment) new).entries = [] ∨
          ((calls.foldl (apply adjustment) new).lastTimestampInMs = 0 → ts / nsInMs = 0)
      · show flushed adjustment (PollState.addEntry adjustment _ e ts) = _ ↔ _
        rw [hbefore.flushed_addEntry hkeep, owed_entry, List.append_left_inj, ih h.init, hchain]
        exact (and_iff_left hkeep).symm
      · obtain ⟨hs, hzero⟩ := not_or.mp hkeep
        obtain ⟨hlast, hts⟩ := Classical.not_imp.mp hzero
        exact iff_of_false (hbefore.flushed_relabels hs hlast hts) fun hc => hkeep (hchain.mp hc).2

/-! ## The poll -/

theorem lostTotal_eq_zero (h : Regular calls) :
    lostTotal calls = 0 ↔ ¬ ∃ n, .lostEvents n ∈ calls := by
  induction calls using List.reverseRecOn with
  | nil => simp [lostTotal]
  | append_singleton calls c ih =>
    cases c with
    | addEntry e ts => simp [lostTotal_entry, ih h.init]
    | lostEvents n =>
      have hw := waiting_of_regular 0 h.init
      have hlost := hw.lost
      have hnonneg := hw.nonneg
      have hn := Int32.lt_iff_toInt_lt.mp (h.positive n (by simp))
      rw [lostTotal_lost]
      refine iff_of_false ?_ (not_not.mpr ⟨n, by simp⟩)
      simp at hn
      omega

/-- Behind no entry nothing was pushed. -/
theorem Waiting.added_ne_nil (h : Waiting calls s) : added calls ≠ [] ↔ s.entries ≠ [] := by
  have hlast := h.last
  refine not_congr ?_
  by_cases hs : s.entries = []
  · simpa [hs] using hlast
  · refine iff_of_false (fun hadded => ?_) hs
    rw [hadded, if_neg hs] at hlast
    cases hlast

/-- **A poll loses nothing**, exactly where what was lost comes with an entry and no
entry of the millisecond 0 comes right before one of another. -/
theorem lossless_iff_settled (adjustment : Int64) (calls : List Call) (h : Regular calls) :
    Lossless adjustment calls ↔ Settled calls := by
  have hw := waiting_of_regular adjustment h
  have hstamps := flushed_iff adjustment h
  by_cases hs : (calls.foldl (apply adjustment) new).entries = []
  · have hadded : added calls = [] := by
      by_contra hne
      exact hw.added_ne_nil.mp hne hs
    have hrecorded : (run adjustment calls).recorded = [] := by
      rw [run, push, if_pos hs]
      exact (hw.none hs).1
    have hzero := lostTotal_eq_zero h
    constructor
    · intro hl
      have hlost := hl.lost
      rw [hrecorded] at hlost
      exact ⟨fun hn => absurd hn (hzero.mp hlost.symm), by rw [hadded]; exact .nil⟩
    · intro hok
      refine ⟨by rw [hrecorded, hadded]; rfl, ?_⟩
      rw [hrecorded, hzero.mpr fun hn => hok.lost hn hadded]
      rfl
  · have hlost := lostValues_push adjustment hs hw.names hw.nonneg.1
    have hentries := stamped_push adjustment hs hw.names
    constructor
    · intro hl
      refine ⟨fun _ => hw.added_ne_nil.mpr hs, hstamps.mp ?_⟩
      exact hentries.symm.trans hl.entries
    · intro hok
      exact ⟨hentries.trans (hstamps.mpr hok.zero), hlost.trans hw.lost⟩

/-- The calls of the callbacks are regular where what is lost is positive and fits. -/
theorem regular_of_callbacks {m : PhaseStates} (hm : Named m) (cs : List Callback)
    (hpositive : ∀ n, .lostEvents n ∈ (callbacks m cs).2 → 0 < n)
    (htotal : lostTotal (callbacks m cs).2 < 2 ^ 31) : Regular (callbacks m cs).2 where
  names _ _ he := (callbacks_required hm cs he).ne_lostEvents
  positive := hpositive
  total := htotal

/-- Two milliseconds, with events lost in the first. -/
def twoBatches : List Call :=
  [.addEntry (durationEntry "ocaml.eventring.EV_MINOR" 40) 1000000, .lostEvents 3,
    .addEntry (durationEntry "ocaml.eventring.EV_MAJOR" 50) 2000000]

theorem twoBatches_lossless :
    (run 7 twoBatches).recorded.map Prod.snd = [8, 9] ∧ Lossless 7 twoBatches := by
  have hregular : Regular twoBatches := by
    refine ⟨fun _ _ he => ?_, by simp [twoBatches], by decide⟩
    simp only [twoBatches, List.mem_cons, Call.addEntry.injEq, reduceCtorEq, List.not_mem_nil] at he
    rcases he with ⟨rfl, -⟩ | he | ⟨rfl, -⟩ | he
    · decide
    · cases he
    · decide
    · cases he
  refine ⟨by decide, (lossless_iff_settled 7 twoBatches hregular).mpr ⟨fun _ => nofun, ?_⟩⟩
  simp [twoBatches, added, nsInMs]

/-- Events are lost in a poll that has nothing else to hand on. -/
theorem onlyLost_dropped : Regular [.lostEvents 5] ∧ ¬ Lossless 0 [.lostEvents 5] :=
  ⟨⟨by simp, by simp, by decide⟩, fun h => absurd h.lost (by decide)⟩

end Opsian.Metrics.Polls
