import TxTestTool.Log.Journal
import TxTestTool.Machine.Results

/-!
# When the reports are made

Every query subtracts the time of the first `Sent` of a log from the time of the first event of
some kind. Both are times of the wall clock, so the difference can be negative.
-/

namespace TxTestTool

variable {H : Type*}

/-- What the queries `time_to_*` look for. -/
inductive Milestone
  | dropped
  | error
  | invalid
  | result
  | validated
  | broadcasted
  | inBlock
  | finalized
  | finalizedMonitor
  | mortalDroppedMonitor
deriving DecidableEq, Repr

namespace Milestone

/-- In the order of `make_stats`. -/
def all : List Milestone :=
  [.dropped, .error, .invalid, .result, .validated, .broadcasted, .inBlock, .finalized,
    .finalizedMonitor, .mortalDroppedMonitor]

def selects : Milestone → ExecutionEvent H → Bool
  | .dropped, .txPoolEvent _ (.dropped _) => true
  | .error, .txPoolEvent _ (.error _) => true
  | .invalid, .txPoolEvent _ (.invalid _) => true
  | .result, .submitAndWatchResult _ _ => true
  | .result, .submitResult _ _ => true
  | .validated, .txPoolEvent _ .validated => true
  | .broadcasted, .txPoolEvent _ .broadcasted => true
  | .inBlock, .txPoolEvent _ (.inBlock _) => true
  | .finalized, .txPoolEvent _ (.finalized _) => true
  | .finalizedMonitor, .finalizedMonitor _ _ => true
  | .mortalDroppedMonitor, .mortalDroppedMonitor _ _ => true
  | _, _ => false

def query : Milestone → TransactionExecutionLog H → Option (Option Duration)
  | .dropped => TransactionExecutionLog.timeToDropped
  | .error => TransactionExecutionLog.timeToError
  | .invalid => TransactionExecutionLog.timeToInvalid
  | .result => TransactionExecutionLog.timeToResult
  | .validated => TransactionExecutionLog.timeToValidated
  | .broadcasted => TransactionExecutionLog.timeToBroadcasted
  | .inBlock => TransactionExecutionLog.timeToInblock
  | .finalized => TransactionExecutionLog.timeToFinalized
  | .finalizedMonitor => TransactionExecutionLog.timeToFinalizedMonitor
  | .mortalDroppedMonitor => TransactionExecutionLog.timeToMortalDroppedMonitor

end Milestone

namespace TransactionExecutionLog

theorem first_time {sel : ExecutionEvent H → Option SystemTime} {p : ExecutionEvent H → Bool}
    (h : ∀ e, sel e = if p e then some e.time else none) (es : List (ExecutionEvent H)) :
    es.findSome? sel = (es.find? p).map (·.time) := by
  induction es with
  | nil => rfl
  | cons e es ih =>
      cases hp : p e with
      | true => simp [h e, hp]
      | false => simp [h e, hp, ih]

theorem timeTo_eq {sel : ExecutionEvent H → Option SystemTime} {p : ExecutionEvent H → Bool}
    (h : ∀ e, sel e = if p e then some e.time else none) (l : TransactionExecutionLog H) :
    timeTo sel l = durationSinceTimestamp ((l.events.find? (·.isSent)).map (·.time))
      ((l.events.find? p).map (·.time)) := by
  have hsent : l.getSentTimeStamp = (l.events.find? (·.isSent)).map (·.time) := by
    refine first_time (fun e => ?_) l.events
    cases e <;> rfl
  rw [timeTo, hsent, first_time h]

theorem query_eq (m : Milestone) (l : TransactionExecutionLog H) :
    m.query l = durationSinceTimestamp ((l.events.find? (·.isSent)).map (·.time))
      ((l.events.find? m.selects).map (·.time)) := by
  cases m <;> refine timeTo_eq (fun e => ?_) l
  all_goals
    cases e with
    | txPoolEvent i status => cases status <;> rfl
    | _ => rfl

/-- The first event that `m` looks for is not stamped before the first `Sent`. -/
def NotBefore (l : TransactionExecutionLog H) (m : Milestone) : Prop :=
  ∀ sent e, l.events.find? (·.isSent) = some sent → l.events.find? m.selects = some e →
    sent.time ≤ e.time

theorem query_isSome_iff {m : Milestone} {l : TransactionExecutionLog H} :
    (m.query l).isSome = true ↔ l.NotBefore m := by
  rw [query_eq]
  unfold NotBefore
  cases l.events.find? (·.isSent) with
  | none => simp [durationSinceTimestamp]
  | some sent =>
      cases l.events.find? m.selects with
      | none => simp [durationSinceTimestamp]
      | some e => simp [durationSinceTimestamp]

/-- One sample of each statistic for each log that has one. -/
theorem makeStats_eq {logs : List (TransactionExecutionLog H)}
    (h : ∀ l ∈ logs, ∀ m : Milestone, (m.query l).isSome = true) :
    makeStats logs =
      some (Milestone.all.map fun m => logs.filterMap fun l => (m.query l).join) := by
  have hsingle : ∀ m : Milestone, singleStat m.query logs =
      some (logs.filterMap fun l => (m.query l).join) := by
    intro m
    have hvalue : ∀ l ∈ logs, m.query l = some (m.query l).join := by
      intro l hl
      obtain ⟨d, hd⟩ := Option.isSome_iff_exists.mp (h l hl m)
      rw [hd, Option.join_some]
    rw [singleStat, List.mapM_of_forall_eq hvalue, Option.map_some, List.filterMap_map]
    rfl
  have hlist : makeStats logs =
      (Milestone.all.map Milestone.query).mapM fun method => singleStat method logs := rfl
  have hall : ∀ method ∈ Milestone.all.map (Milestone.query (H := H)),
      singleStat method logs = some (logs.filterMap fun l => (method l).join) := by
    intro method hmethod
    obtain ⟨m, _, rfl⟩ := List.mem_map.mp hmethod
    exact hsingle m
  rw [hlist, List.mapM_of_forall_eq hall, List.map_map]
  rfl

end TransactionExecutionLog

namespace Journal

open TransactionExecutionLog

theorem csvRow_isSome (debug : H → String) {h : H} {l : TransactionExecutionLog H}
    (hl : ∀ m : Milestone, (m.query l).isSome = true) : (csvRow debug h l).isSome = true := by
  obtain ⟨finalized, hfinalized⟩ := Option.isSome_iff_exists.mp (hl .finalized)
  obtain ⟨inBlock, hinBlock⟩ := Option.isSome_iff_exists.mp (hl .inBlock)
  obtain ⟨result, hresult⟩ := Option.isSome_iff_exists.mp (hl .result)
  obtain ⟨validated, hvalidated⟩ := Option.isSome_iff_exists.mp (hl .validated)
  obtain ⟨broadcasted, hbroadcasted⟩ := Option.isSome_iff_exists.mp (hl .broadcasted)
  obtain ⟨monitor, hmonitor⟩ := Option.isSome_iff_exists.mp (hl .finalizedMonitor)
  simp only [Milestone.query] at hfinalized hinBlock hresult hvalidated hbroadcasted hmonitor
  simp [csvRow, CsvEntry.ofLog, hfinalized, hinBlock, hresult, hvalidated, hbroadcasted, hmonitor]

/-- Every query returns, the statistics are made from all logs, and the CSV file has a row for each
of them, in whatever order the map is gone through. -/
structure Reported (debug : H → String) (logs : Logs H) : Prop where
  queries : ∀ l ∈ logs.values, ∀ m : Milestone, (m.query l).isSome = true
  stats : makeStats logs.values =
    some (Milestone.all.map fun m => logs.values.filterMap fun l => (m.query l).join)
  csv : ∀ order, order.Perm logs.pairs → ∃ rows,
    order.map (fun p => csvRow debug p.1 p.2) = rows.map some ∧
    saveCsv debug order =
      some (String.intercalate "\n" (("hash," ++ CsvEntry.headerLine) :: rows) ++ "\n")

theorem saveCsv_rows (debug : H → String) {order : List (H × TransactionExecutionLog H)}
    (h : ∀ p ∈ order, ∀ m : Milestone, (m.query p.2).isSome = true) : ∃ rows,
    order.map (fun p => csvRow debug p.1 p.2) = rows.map some ∧
    saveCsv debug order =
      some (String.intercalate "\n" (("hash," ++ CsvEntry.headerLine) :: rows) ++ "\n") := by
  have hrow : ∀ p ∈ order, csvRow debug p.1 p.2 =
      some ((csvRow debug p.1 p.2).getD "") := by
    intro p hp
    obtain ⟨row, hr⟩ := Option.isSome_iff_exists.mp (csvRow_isSome debug (h p hp))
    rw [hr, Option.getD_some]
  refine ⟨order.map fun p => (csvRow debug p.1 p.2).getD "", ?_, ?_⟩
  · rw [List.map_map]
    exact List.map_congr_left hrow
  · rw [saveCsv, List.mapM_of_forall_eq hrow, Option.map_some]

theorem reported_iff [DecidableEq H] (debug : H → String) (logs : Logs H) :
    Reported debug logs ↔ ∀ l ∈ logs.values, ∀ m, l.NotBefore m := by
  constructor
  · intro h l hl m
    exact query_isSome_iff.mp (h.queries l hl m)
  · intro h
    have hqueries : ∀ l ∈ logs.values, ∀ m : Milestone, (m.query l).isSome = true :=
      fun l hl m => query_isSome_iff.mpr (h l hl m)
    refine ⟨hqueries, makeStats_eq hqueries, fun order horder => saveCsv_rows debug ?_⟩
    intro p hp
    apply hqueries
    exact AList.mem_values.mpr ⟨p.1, AList.mem_pairs.mp (horder.subset hp)⟩

end Journal

end TxTestTool
