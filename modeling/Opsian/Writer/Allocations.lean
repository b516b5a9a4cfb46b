import Mathlib.Algebra.Group.Prod
import Mathlib.Data.UInt
import Opsian.Lib.Assoc
import Opsian.Lib.Tally
import Opsian.Writer.Pipeline

/-! # The allocations of a key

An allocation is counted in the table of the log writer, which a timer sends and clears. The
counts wrap around like those of the table. -/
namespace Opsian.Writer.Allocations
open Opsian.Lib Opsian.Lib.Tally
open Opsian.Queue.CircularQueue (Push)
open Opsian.Writer.Messages
open Opsian.Writer.Envelopes (AllocationInfo)
open Opsian.Writer.Pipeline

/-- The symbol, and whether it was outside of the TLAB. -/
abbrev Key := UInt64 × Bool

/-- How many allocations, and of how many bytes. -/
abbrev Amount := UInt32 × UInt64

def pushedAllocation? : Push → Option (Key × Amount)
  | .allocation allocationSize outsideTlab symbol =>
    some ((symbol, outsideTlab), (1, allocationSize))
  | _ => none

/-- The rows of a table that is sent. -/
def rowEntries : AgentEnvelope → List (Key × Amount)
  | .allocationTable m => m.rows.map fun row =>
      ((row.symbol, row.outsideTlab), (row.numberOfAllocations, row.totalBytesAllocated))
  | _ => []

/-- The rows of the log writer's table. -/
def tableEntries (table : List (Key × AllocationInfo)) : List (Key × Amount) :=
  table.map fun row => (row.1, (row.2.numberOfAllocations, row.2.totalBytesAllocated))

/-- What was recorded for a key has been handed over or is in the table, which has one row
for each key. -/
structure Tallied (pushes : List Push) (handed : List AgentEnvelope)
    (table : List (Key × AllocationInfo)) : Prop where
  amounts : ∀ key, amountFor key (pushes.filterMap pushedAllocation?) =
    amountFor key (handed.flatMap rowEntries) + amountFor key (tableEntries table)
  nodup : ((tableEntries table).map Prod.fst).Nodup

variable {pushes : List Push} {handed es : List AgentEnvelope} {s t : Envelopes.State}

theorem tallied_nil : Tallied [] [] [] := ⟨fun _ => rfl, List.nodup_nil⟩

theorem lookup_isSome_iff (table : List (Key × AllocationInfo)) (key : Key) :
    (table.lookup key).isSome ↔ key ∈ (tableEntries table).map Prod.fst := by
  rw [tableEntries, List.map_map]
  constructor
  · intro h
    obtain ⟨info, hinfo⟩ := Option.isSome_iff_exists.mp h
    exact List.mem_map.mpr ⟨_, Assoc.mem_of_lookup hinfo, rfl⟩
  · intro h
    obtain ⟨row, hrow, rfl⟩ := List.mem_map.mp h
    obtain ⟨info, hinfo⟩ := Assoc.lookup_of_mem hrow
    exact Option.isSome_iff_exists.mpr ⟨info, hinfo⟩

theorem tableEntries_recordAllocation (s : Envelopes.State) (allocationSize : UInt64)
    (outsideTlab : Bool) (symbol : UInt64) :
    tableEntries (Envelopes.recordAllocation s allocationSize outsideTlab symbol).allocationsTable =
      add (tableEntries s.allocationsTable) (symbol, outsideTlab) (1, allocationSize) := by
  unfold Envelopes.recordAllocation add
  have hiff := lookup_isSome_iff s.allocationsTable (symbol, outsideTlab)
  by_cases hknown : (symbol, outsideTlab) ∈ (tableEntries s.allocationsTable).map Prod.fst
  · rw [if_pos hknown]
    simp only [if_pos (hiff.mpr hknown)]
    rw [tableEntries, tableEntries, List.map_map, List.map_map]
    refine List.map_congr_left fun row _ => ?_
    simp only [Function.comp]
    split <;> rfl
  · rw [if_neg hknown]
    simp only [if_neg (mt hiff.mp hknown)]
    rw [tableEntries, List.map_append]
    rfl

/-- `recordAllocation`. -/
theorem Tallied.recordAllocation (h : Tallied pushes handed s.allocationsTable)
    (allocationSize : UInt64) (outsideTlab : Bool) (symbol : UInt64) :
    Tallied (pushes ++ [.allocation allocationSize outsideTlab symbol]) handed
      (Envelopes.recordAllocation s allocationSize outsideTlab symbol).allocationsTable := by
  have hentries := tableEntries_recordAllocation s allocationSize outsideTlab symbol
  constructor
  · intro key
    rw [hentries, amountFor_add key h.nodup, List.filterMap_append, amountFor_append, h.amounts,
      add_assoc]
    rfl
  · rw [hentries]
    exact nodup_add h.nodup

/-- `recordAllocationTable`. -/
theorem Tallied.recordAllocationTable (h : Tallied pushes handed s.allocationsTable) :
    Tallied pushes (handed ++ (Envelopes.recordAllocationTable s).1)
      (Envelopes.recordAllocationTable s).2.allocationsTable := by
  have hrows : (Envelopes.recordAllocationTable s).1.flatMap rowEntries =
      tableEntries s.allocationsTable := by
    simp only [Envelopes.recordAllocationTable, AgentEnvelope.mutableAllocationTable,
      List.nil_append, List.flatMap_cons, List.flatMap_nil, List.append_nil, rowEntries,
      List.map_map]
    rfl
  constructor
  · intro key
    rw [List.flatMap_append, hrows, amountFor_append, h.amounts]
    exact (add_zero _).symm
  · exact List.nodup_nil

theorem flatMap_stashed (envelope : AgentEnvelope) (ns : List Notification) :
    (Envelopes.stashedEnvelopes .reused envelope ns).flatMap rowEntries = [] := by
  rw [Envelopes.stashedEnvelopes_eq, List.flatMap_map, List.flatMap_eq_nil_iff]
  exact fun _ _ => rfl

/-- No other step of the log writer touches the table. -/
theorem Tallied.other (h : Tallied pushes handed s.allocationsTable)
    (hrows : es.flatMap rowEntries = []) (htable : t.allocationsTable = s.allocationsTable) :
    Tallied pushes (handed ++ es) t.allocationsTable := by
  rw [htable]
  refine ⟨fun key => ?_, h.nodup⟩
  rw [List.flatMap_append, hrows, List.append_nil]
  exact h.amounts key

theorem Tallied.step {a : Envelopes.Label} (h : Tallied pushes handed s.allocationsTable)
    (ha : ∀ allocationSize outsideTlab symbol,
      a ≠ .recordAllocation allocationSize outsideTlab symbol)
    (hs : Envelopes.step .reused s a = some (es, t)) :
    Tallied pushes (handed ++ es) t.allocationsTable := by
  cases a with
  | recordAllocation allocationSize outsideTlab symbol =>
    exact absurd rfl (ha allocationSize outsideTlab symbol)
  | recordAllocationTable =>
    cases hs
    exact h.recordAllocationTable
  | recordStackTrace c =>
    obtain ⟨-, hx⟩ := Envelopes.idle_eq_some.mp hs
    cases hx
    exact h.other rfl rfl
  | recordMetricInformation | recordMetricSamples | recordConstantMetricsComplete =>
    obtain ⟨-, hx⟩ := Envelopes.idle_eq_some.mp hs
    cases hx
    exact h.other rfl rfl
  | recordNotification category initialPayload value =>
    obtain ⟨-, hx⟩ := Envelopes.idle_eq_some.mp hs
    unfold Envelopes.recordNotification at hx
    split at hx <;>
    · cases hx
      exact h.other rfl rfl
  | lookedUp locations =>
    obtain ⟨_, _, _, _, -, hx⟩ := Envelopes.step_lookedUp hs
    cases hx
    exact h.other rfl rfl
  | endStackTrace =>
    obtain ⟨_, _, -, hx⟩ := Envelopes.step_endStackTrace hs
    cases hx
    exact h.other rfl rfl
  | onNewFile | onNewFunction | sendHeartbeat | onAgentStatisticsTimer | onDisconnect =>
    cases hs
    exact h.other rfl rfl
  | onSampleRate controller first =>
    cases first with
    | true =>
      cases hs
      exact h.other (flatMap_stashed _ _) rfl
    | false =>
      cases hs
      exact h.other rfl rfl

/-- A record that is no allocation counts for nothing. -/
theorem tallied_snoc {p : Push} {table : List (Key × AllocationInfo)}
    (hp : pushedAllocation? p = none) :
    Tallied (pushes ++ [p]) handed table ↔ Tallied pushes handed table := by
  have hpushes : (pushes ++ [p]).filterMap pushedAllocation? =
      pushes.filterMap pushedAllocation? := by
    rw [List.filterMap_append, List.filterMap_cons_none hp, List.filterMap_nil, List.append_nil]
  constructor
  · intro h
    exact ⟨fun key => hpushes ▸ h.amounts key, h.nodup⟩
  · intro h
    exact ⟨fun key => hpushes.symm ▸ h.amounts key, h.nodup⟩

/-- The call for a record. -/
theorem Tallied.call {maxFrameSize : Nat} {nameAnswer : Envelopes.NameAnswer} {p : Push}
    {a : Envelopes.Label} (h : Tallied pushes handed s.allocationsTable)
    (ha : listenerCall nameAnswer (Queue.Fifos.record maxFrameSize p) = some a)
    (hs : Envelopes.step .reused s a = some (es, t)) :
    Tallied (pushes ++ [p]) (handed ++ es) t.allocationsTable := by
  cases p with
  | allocation allocationSize outsideTlab symbol =>
    cases ha
    obtain ⟨-, hx⟩ := Envelopes.idle_eq_some.mp hs
    cases hx
    rw [List.append_nil]
    exact h.recordAllocation allocationSize outsideTlab symbol
  | thread => cases ha
  | _ =>
    cases ha
    exact (tallied_snoc rfl).mpr (h.step (fun _ _ _ he => by cases he) hs)

end Opsian.Writer.Allocations
