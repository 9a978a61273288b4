import TxTestTool.Log.Counting
import TxTestTool.Log.Queries
import TxTestTool.Machine.Histogram
import TxTestTool.Machine.Results

/-!
# The report of a run

The maps that `make_stats` shows beside the times: the reasons of failure and the timeline, which
counts the transactions that went through the same events in the pool.
-/

namespace TxTestTool

variable {H : Type*}

abbrev Tally := AList fun _ : String => Nat

namespace TransactionExecutionLog

def getSentTime (l : TransactionExecutionLog H) : Option SystemTime := l.getSentTimeStamp

def failureReasonStats (method : TransactionExecutionLog H → List String)
    (logs : List (TransactionExecutionLog H)) : Tally :=
  logs.foldl (fun map l => (method l).foldl AList.bump map) ∅

/-- The logs that can be sorted by `get_sent_time().unwrap()`. -/
def sentLogs (logs : List (TransactionExecutionLog H)) : List (TransactionExecutionLog H) :=
  (logs.filter (·.getSentTime.isSome)).mergeSort fun a b =>
    decide (a.getSentTime.getD 0 ≤ b.getSentTime.getD 0)

def timelineMap (logs : List (TransactionExecutionLog H)) : Tally :=
  (sentLogs logs).foldl (fun map l => map.bump l.getInpoolEventsString) ∅

/-- What `make_stats` shows. -/
structure StatsReport where
  totalRecordedCount : Nat
  times : List (List Duration)
  dropped : Tally
  error : Tally
  invalid : Tally
  submitErrors : Tally
  submitAndWatchErrors : Tally
  timeline : Tally

/-- All of `make_stats`. `makeStats` is its first part, which can panic. -/
def statsReport (logs : List (TransactionExecutionLog H)) : Option StatsReport :=
  (makeStats logs).map fun times =>
    { totalRecordedCount := logs.length
      times
      dropped := failureReasonStats getDroppedReason logs
      error := failureReasonStats getErrorReason logs
      invalid := failureReasonStats getInvalidReason logs
      submitErrors := failureReasonStats getSubmitResultError logs
      submitAndWatchErrors := failureReasonStats getSubmitAndWatchResultError logs
      timeline := timelineMap logs }

variable {logs logs' : List (TransactionExecutionLog H)}

/-! ## The maps as histograms -/

theorem failureReasonStats_eq (method : TransactionExecutionLog H → List String) :
    failureReasonStats method logs = AList.histogram (logs.flatMap method) := by
  rw [failureReasonStats, AList.foldl_foldl]
  rfl

theorem timelineMap_eq :
    timelineMap logs = AList.histogram ((sentLogs logs).map getInpoolEventsString) := by
  rw [timelineMap, AList.histogram, List.foldl_map]

theorem sentLogs_perm (logs : List (TransactionExecutionLog H)) :
    (sentLogs logs).Perm (logs.filter (·.getSentTime.isSome)) :=
  List.mergeSort_perm _ _

/-- The reasons of one kind of event add up to the number of these events. -/
theorem total_reasons {reason : ExecutionEvent H → Option String} {sel : ExecutionEvent H → Bool}
    (h : ∀ e, (reason e).isSome = sel e) :
    (failureReasonStats (fun l => l.events.filterMap reason) logs).total =
      occurrences sel logs := by
  have hone : ∀ l : TransactionExecutionLog H,
      (l.events.filterMap reason).length = l.events.countP sel := by
    intro l
    rw [List.length_filterMap_eq_countP]
    exact List.countP_congr fun e _ => by rw [h e]
  rw [failureReasonStats_eq, AList.total_histogram, List.length_flatMap, occurrences,
    List.countP_flatMap]
  exact congrArg List.sum (List.map_congr_left fun l _ => hone l)

/-! ## The timeline -/

/-- What the pool has reported on was sent. -/
def Started (l : TransactionExecutionLog H) : Prop :=
  (∃ i status, ExecutionEvent.txPoolEvent i status ∈ l.events) → l.getSentTime.isSome = true

/-- Summed over the timeline, a weight that is zero for the empty string is summed over all logs:
nothing happened in the pool to those that are left out. -/
theorem weigh_timeline {f : String → Nat} (hstarted : ∀ l ∈ logs, l.Started) (hf : f "" = 0) :
    (timelineMap logs).weigh f = (logs.map fun l => f l.getInpoolEventsString).sum := by
  have hunsent : ∀ l ∈ logs, l.getSentTime.isSome = false → f l.getInpoolEventsString = 0 := by
    intro l hl hnone
    have hempty : l.getInpoolEventsString = "" := by
      refine congrArg String.ofList (List.filterMap_eq_nil_iff.mpr fun e he => ?_)
      cases e with
      | txPoolEvent i status =>
          have hsome := hstarted l hl ⟨i, status, he⟩
          rw [hnone] at hsome
          cases hsome
      | _ => rfl
    rw [hempty, hf]
  rw [timelineMap_eq, AList.weigh_histogram, List.map_map,
    ((sentLogs_perm logs).map _).sum_eq]
  clear hstarted
  induction logs with
  | nil => rfl
  | cons l ls ih =>
      have htail := ih fun x hx => hunsent x (List.mem_cons_of_mem l hx)
      cases hs : l.getSentTime.isSome with
      | true => simp only [List.filter_cons, hs, ↓reduceIte, List.map_cons, List.sum_cons, htail,
          Function.comp_apply]
      | false =>
          simp only [List.filter_cons, hs, Bool.false_eq_true, ↓reduceIte, List.map_cons,
            List.sum_cons, htail, hunsent l (List.mem_cons_self ..) hs, Nat.zero_add]

/-- One letter of the timeline stands for one status. -/
theorem weigh_letter {c : Char} {sel : ExecutionEvent H → Bool}
    (hstarted : ∀ l ∈ logs, l.Started) (hsel : ∀ e : ExecutionEvent H, sel e = match e with
      | .txPoolEvent _ status => status.getLetter == c
      | _ => false) :
    (timelineMap logs).weigh (fun s => s.toList.count c) = occurrences sel logs := by
  rw [weigh_timeline hstarted rfl, occurrences, List.countP_flatMap]
  refine congrArg List.sum (List.map_congr_left fun l _ => ?_)
  rw [getInpoolEventsString, String.toList_ofList, List.count_filterMap]
  refine List.countP_congr fun e _ => ?_
  rw [hsel e]
  cases e <;> simp

theorem included_iff (l : TransactionExecutionLog H) :
    l.included = true ↔ 'B' ∈ l.getInpoolEventsString.toList := by
  rw [getInpoolEventsString, String.toList_ofList, List.mem_filterMap, included, inBlocks,
    Bool.not_eq_true', List.isEmpty_eq_false_iff_exists_mem]
  simp only [List.mem_filterMap]
  constructor
  · rintro ⟨h, e, he, hb⟩
    refine ⟨e, he, ?_⟩
    split at hb
    · rfl
    · cases hb
  · rintro ⟨e, he, hb⟩
    cases e with
    | txPoolEvent i status =>
        cases status with
        | inBlock h => exact ⟨h, _, he, rfl⟩
        | _ => simp [TransactionStatus.getLetter] at hb
    | _ => cases hb

theorem weigh_included (hstarted : ∀ l ∈ logs, l.Started) :
    (timelineMap logs).weigh (fun s => if 'B' ∈ s.toList then 1 else 0) =
      logs.countP (·.included) := by
  rw [weigh_timeline hstarted rfl]
  clear hstarted
  induction logs with
  | nil => rfl
  | cons l ls ih =>
      rw [List.map_cons, List.sum_cons, ih, List.countP_cons, Nat.add_comm]
      simp only [included_iff]

/-! ## The report against the counters -/

/-- The maps of the report add up to the counters, and the timeline spells them. -/
structure StatsReport.Agrees (r : StatsReport) (c : Counters) : Prop where
  dropped : r.dropped.total = c.tsDropped
  error : r.error.total = c.tsError
  invalid : r.invalid.total = c.tsInvalid
  submitErrors : r.submitErrors.total = c.submitError
  submitAndWatchErrors : r.submitAndWatchErrors.total = c.submitAndWatchError
  validated : (r.timeline.weigh fun s => s.toList.count 'V') = c.tsValidated
  broadcasted : (r.timeline.weigh fun s => s.toList.count 'b') = c.tsBroadcasted
  included : (r.timeline.weigh fun s => if 'B' ∈ s.toList then 1 else 0) = c.tsInBlock
  finalized : (r.timeline.weigh fun s => s.toList.count 'F') = c.tsFinalized
  droppedLetters : (r.timeline.weigh fun s => s.toList.count 'D') = c.tsDropped
  invalidLetters : (r.timeline.weigh fun s => s.toList.count 'I') = c.tsInvalid
  errorLetters : (r.timeline.weigh fun s => s.toList.count 'E') = c.tsError

theorem statsReport_agrees {r : StatsReport} (hstarted : ∀ l ∈ logs, l.Started)
    (hr : statsReport logs = some r) : r.Agrees (Counters.tally logs) := by
  obtain ⟨times, _, rfl⟩ := Option.map_eq_some_iff.mp hr
  refine ⟨total_reasons ?_, total_reasons ?_, total_reasons ?_, total_reasons ?_, total_reasons ?_,
    weigh_letter hstarted ?_, weigh_letter hstarted ?_, weigh_included hstarted,
    weigh_letter hstarted ?_, weigh_letter hstarted ?_, weigh_letter hstarted ?_,
    weigh_letter hstarted ?_⟩
  all_goals
    intro e
    cases e with
    | txPoolEvent i status => cases status <;> rfl
    | submitResult i r => cases r <;> rfl
    | submitAndWatchResult i r => cases r <;> rfl
    | _ => rfl

/-! ## The order of the logs -/

/-- Two reports show the same: the samples up to their order, and the same maps. -/
structure StatsReport.Same (r r' : StatsReport) : Prop where
  totalRecordedCount : r.totalRecordedCount = r'.totalRecordedCount
  times : List.Forall₂ List.Perm r.times r'.times
  dropped : ∀ k, r.dropped.lookup k = r'.dropped.lookup k
  error : ∀ k, r.error.lookup k = r'.error.lookup k
  invalid : ∀ k, r.invalid.lookup k = r'.invalid.lookup k
  submitErrors : ∀ k, r.submitErrors.lookup k = r'.submitErrors.lookup k
  submitAndWatchErrors :
    ∀ k, r.submitAndWatchErrors.lookup k = r'.submitAndWatchErrors.lookup k
  timeline : ∀ k, r.timeline.lookup k = r'.timeline.lookup k

theorem singleStat_perm {method : TransactionExecutionLog H → Option (Option Duration)}
    {v : List Duration} (h : logs.Perm logs') (hv : singleStat method logs = some v) :
    ∃ v', singleStat method logs' = some v' ∧ v.Perm v' := by
  obtain ⟨ds, hds, rfl⟩ := Option.map_eq_some_iff.mp hv
  obtain ⟨ds', hds', hperm⟩ := List.mapM_perm h hds
  refine ⟨ds'.filterMap id, ?_, hperm.filterMap id⟩
  rw [singleStat, hds']
  rfl

theorem failureReasonStats_perm (method : TransactionExecutionLog H → List String)
    (h : logs.Perm logs') (k : String) :
    (failureReasonStats method logs).lookup k = (failureReasonStats method logs').lookup k := by
  rw [failureReasonStats_eq, failureReasonStats_eq]
  exact AList.lookup_histogram_perm (h.flatMap_right method) k

theorem timelineMap_perm (h : logs.Perm logs') (k : String) :
    (timelineMap logs).lookup k = (timelineMap logs').lookup k := by
  have hsent : (sentLogs logs).Perm (sentLogs logs') :=
    (sentLogs_perm logs).trans ((h.filter _).trans (sentLogs_perm logs').symm)
  rw [timelineMap_eq, timelineMap_eq]
  exact AList.lookup_histogram_perm (hsent.map _) k

/-- The order in which a map hands out the logs leaves no trace in the report. -/
theorem statsReport_perm {r : StatsReport} (h : logs.Perm logs') (hr : statsReport logs = some r) :
    ∃ r', statsReport logs' = some r' ∧ r.Same r' := by
  obtain ⟨times, htimes, rfl⟩ := Option.map_eq_some_iff.mp hr
  obtain ⟨times', htimes', hperm⟩ :=
    List.mapM_forall₂ htimes fun method _ v hv => singleStat_perm h hv
  refine ⟨_, by rw [statsReport, show makeStats logs' = some times' from htimes']; rfl, ?_⟩
  exact
    { totalRecordedCount := h.length_eq
      times := hperm
      dropped := failureReasonStats_perm _ h
      error := failureReasonStats_perm _ h
      invalid := failureReasonStats_perm _ h
      submitErrors := failureReasonStats_perm _ h
      submitAndWatchErrors := failureReasonStats_perm _ h
      timeline := timelineMap_perm h }

end TransactionExecutionLog

end TxTestTool
