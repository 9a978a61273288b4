import TxTestTool.Log.ExecutionLog
import Mathlib.Data.List.Perm.Basic

/-!
# What the counters count

Every push on one of the logs raises the counters that all of them share. `Counters.tally` reads
the same numbers off the events that the logs hold.
-/

namespace TxTestTool

variable {H : Type*}

namespace TransactionExecutionLog

def occurrences (sel : ExecutionEvent H → Bool) (logs : List (TransactionExecutionLog H)) : Nat :=
  (logs.flatMap (·.events)).countP sel

theorem occurrences_perm (sel : ExecutionEvent H → Bool)
    {logs logs' : List (TransactionExecutionLog H)} (h : logs.Perm logs') :
    occurrences sel logs = occurrences sel logs' :=
  (h.flatMap_right _).countP_eq sel

theorem occurrences_push (sel : ExecutionEvent H → Bool) (log : TransactionExecutionLog H)
    (e : ExecutionEvent H) (logs : List (TransactionExecutionLog H)) :
    occurrences sel ({ log with events := log.events ++ [e] } :: logs) =
      occurrences sel (log :: logs) + if sel e then 1 else 0 := by
  simp only [occurrences, List.flatMap_cons, List.countP_append, List.countP_singleton]
  omega

/-- A transaction is included when its log holds an `InBlock`. -/
def included (log : TransactionExecutionLog H) : Bool := !log.inBlocks.isEmpty

theorem inBlocks_push (log : TransactionExecutionLog H) (e : ExecutionEvent H) :
    inBlocks { log with events := log.events ++ [e] } =
      log.inBlocks ++ (match e with
        | .txPoolEvent _ (.inBlock h) => [h]
        | _ => []) := by
  unfold inBlocks
  rw [List.filterMap_append]
  cases e with
  | txPoolEvent i status => cases status <;> rfl
  | _ => rfl

end TransactionExecutionLog

open TransactionExecutionLog

/-- One number for each kind of event, except that `InBlock` counts the logs and not the events. -/
def Counters.tally (logs : List (TransactionExecutionLog H)) : Counters where
  popped := occurrences (·.isPopped) logs
  sent := occurrences (·.isSent) logs
  submitSuccess := occurrences (fun | .submitResult _ (.ok _) => true | _ => false) logs
  submitError := occurrences (fun | .submitResult _ (.error _) => true | _ => false) logs
  submitAndWatchSuccess :=
    occurrences (fun | .submitAndWatchResult _ (.ok _) => true | _ => false) logs
  submitAndWatchError :=
    occurrences (fun | .submitAndWatchResult _ (.error _) => true | _ => false) logs
  finalizedMonitor := occurrences (fun | .finalizedMonitor _ _ => true | _ => false) logs
  mortalDroppedMonitor := occurrences (fun | .mortalDroppedMonitor _ _ => true | _ => false) logs
  tsValidated := occurrences (fun | .txPoolEvent _ .validated => true | _ => false) logs
  tsBroadcasted := occurrences (fun | .txPoolEvent _ .broadcasted => true | _ => false) logs
  tsInBlock := logs.countP (·.included)
  tsFinalized := occurrences (fun | .txPoolEvent _ (.finalized _) => true | _ => false) logs
  tsDropped := occurrences (fun | .txPoolEvent _ (.dropped _) => true | _ => false) logs
  tsInvalid := occurrences (fun | .txPoolEvent _ (.invalid _) => true | _ => false) logs
  tsError := occurrences (fun | .txPoolEvent _ (.error _) => true | _ => false) logs

namespace Counters

theorem tally_perm {logs logs' : List (TransactionExecutionLog H)} (h : logs.Perm logs') :
    tally logs = tally logs' := by
  simp only [tally, occurrences_perm _ h, h.countP_eq]

theorem tally_empty {logs : List (TransactionExecutionLog H)} (h : ∀ log ∈ logs, log.events = []) :
    tally logs = {} := by
  have hnone : logs.flatMap (·.events) = [] := List.flatMap_eq_nil_iff.mpr h
  have hincluded : logs.countP (·.included) = 0 := by
    rw [List.countP_eq_zero]
    intro log hlog
    simp [included, inBlocks, h log hlog]
  simp only [tally, occurrences, hnone, hincluded, List.countP_nil]

/-- Only an `InBlock` changes which transactions are included, and only the first one. -/
theorem included_push (log : TransactionExecutionLog H) (e : ExecutionEvent H)
    (h : log.isCounted e = false ∨ ∀ i b, e ≠ .txPoolEvent i (.inBlock b)) :
    included { log with events := log.events ++ [e] } = log.included := by
  unfold included
  rw [inBlocks_push]
  split
  · rcases h with h | h
    · have hold : log.inBlocks.isEmpty = false := h
      cases hb : log.inBlocks with
      | nil => rw [hb] at hold; cases hold
      | cons => rfl
    · exact absurd rfl (h _ _)
  · rw [List.append_nil]

/-- One push keeps the counters exact, whichever log it is on. -/
theorem tally_push (log : TransactionExecutionLog H) (e : ExecutionEvent H)
    (logs : List (TransactionExecutionLog H)) :
    (log.pushEvent (tally (log :: logs)) e).2 =
      tally ((log.pushEvent (tally (log :: logs)) e).1 :: logs) := by
  have hsame : (log.isCounted e = false ∨ ∀ i b, e ≠ .txPoolEvent i (.inBlock b)) →
      List.countP (·.included) ({ log with events := log.events ++ [e] } :: logs) =
        List.countP (·.included) (log :: logs) := by
    intro h
    rw [List.countP_cons, List.countP_cons, included_push log e h]
  simp only [pushEvent, tally, occurrences_push]
  cases e with
  | txPoolEvent i status =>
      cases status with
      | inBlock b =>
          cases hc : log.isCounted (.txPoolEvent i (.inBlock b)) with
          | false =>
              rw [hsame (Or.inl hc)]
              rfl
          | true =>
              have hnew : log.included = false := by
                unfold included
                simpa [isCounted] using hc
              have hin : included { log with
                  events := log.events ++ [.txPoolEvent i (.inBlock b)] } = true := by
                simp [included, inBlocks_push]
              rw [List.countP_cons_of_pos hin, List.countP_cons_of_neg (by simp [hnew])]
              rfl
      | _ =>
          rw [hsame (Or.inr (by simp))]
          rfl
  | submitResult i r =>
      rw [hsame (Or.inr (by simp))]
      cases r <;> rfl
  | submitAndWatchResult i r =>
      rw [hsame (Or.inr (by simp))]
      cases r <;> rfl
  | _ =>
      rw [hsame (Or.inr (by simp))]
      rfl

end Counters

/-! ## Logs that share their counters -/

structure SharedLogs (H : Type*) where
  logs : List (TransactionExecutionLog H)
  totalCounters : Counters

namespace SharedLogs

/-- Logs that were handed one fresh `Counters`. -/
def new (logs : List (TransactionExecutionLog H)) : SharedLogs H := ⟨logs, {}⟩

/-- `push_event` on the log at `i`. -/
def pushEvent (s : SharedLogs H) (i : Nat) (event : ExecutionEvent H) : SharedLogs H :=
  match s.logs[i]? with
  | none => s
  | some log =>
      { logs := s.logs.set i (log.pushEvent s.totalCounters event).1
        totalCounters := (log.pushEvent s.totalCounters event).2 }

def pushEvents (s : SharedLogs H) (pushes : List (Nat × ExecutionEvent H)) : SharedLogs H :=
  pushes.foldl (fun s push => s.pushEvent push.1 push.2) s

/-- What the pushes on the log at `i` were, in their order. -/
def pushedOn (i : Nat) (pushes : List (Nat × ExecutionEvent H)) : List (ExecutionEvent H) :=
  pushes.filterMap fun push => if push.1 = i then some push.2 else none

variable {s : SharedLogs H} {i : Nat} {e : ExecutionEvent H}

def Exact (s : SharedLogs H) : Prop := s.totalCounters = Counters.tally s.logs

theorem Exact.push (h : s.Exact) : (s.pushEvent i e).Exact := by
  unfold pushEvent
  cases hlog : s.logs[i]? with
  | none => exact h
  | some log =>
      obtain ⟨hi, rfl⟩ := List.getElem?_eq_some_iff.mp hlog
      have hold : s.totalCounters = Counters.tally (s.logs[i] :: s.logs.eraseIdx i) := by
        rw [h, Counters.tally_perm (List.getElem_cons_eraseIdx_perm hi)]
      simp only [Exact]
      rw [Counters.tally_perm (List.set_perm_cons_eraseIdx hi _), hold]
      exact Counters.tally_push _ e _

theorem Exact.pushes {pushes : List (Nat × ExecutionEvent H)} (h : s.Exact) :
    (s.pushEvents pushes).Exact := by
  induction pushes generalizing s with
  | nil => exact h
  | cons push pushes ih => exact ih h.push

theorem logs_pushEvent (j : Nat) : (s.pushEvent i e).logs[j]? =
    (s.logs[j]?).map fun log =>
      { log with events := log.events ++ if i = j then [e] else [] } := by
  unfold pushEvent
  cases hlog : s.logs[i]? with
  | none =>
      by_cases hj : i = j
      · rw [← hj, hlog]
        rfl
      · simp [hj]
  | some log =>
      by_cases hj : i = j
      · obtain ⟨hi, rfl⟩ := List.getElem?_eq_some_iff.mp hlog
        simp [← hj, hi, TransactionExecutionLog.pushEvent]
      · simp [hj]

theorem logs_pushEvents {pushes : List (Nat × ExecutionEvent H)} (j : Nat) :
    (s.pushEvents pushes).logs[j]? =
      (s.logs[j]?).map fun log => { log with events := log.events ++ pushedOn j pushes } := by
  induction pushes generalizing s with
  | nil => simp [pushEvents, pushedOn]
  | cons push pushes ih =>
      have htail : (s.pushEvents (push :: pushes)).logs[j]? =
          ((s.pushEvent push.1 push.2).pushEvents pushes).logs[j]? := rfl
      rw [htail, ih, logs_pushEvent]
      by_cases hj : push.1 = j
      · simp [hj, pushedOn, Function.comp_def]
      · simp [hj, pushedOn]

/-- After any pushes on logs that were empty, each counter is the number of its events in the logs,
and `ts_in_block` the number of logs with an `InBlock`. The logs hold what was pushed, in order. -/
theorem counters_exact {logs : List (TransactionExecutionLog H)}
    (hempty : ∀ log ∈ logs, log.events = []) (pushes : List (Nat × ExecutionEvent H)) :
    ((new logs).pushEvents pushes).totalCounters =
        Counters.tally ((new logs).pushEvents pushes).logs ∧
      (∀ i : Nat, ((new logs).pushEvents pushes).logs[i]? =
        (logs[i]?).map fun log => { log with events := pushedOn i pushes }) ∧
      (∀ (s : SharedLogs H) i now,
        (s.pushEvent i (.resubmitted now)).totalCounters = s.totalCounters ∧
        (s.pushEvent i (.txPoolEvent now .noLongerInBestBlock)).totalCounters =
          s.totalCounters) := by
  have hnew : (new logs).Exact := (Counters.tally_empty hempty).symm
  refine ⟨hnew.pushes, fun i => ?_, fun s i now => ?_⟩
  · rw [logs_pushEvents]
    cases hlog : logs[i]? with
    | none => simp [new, hlog]
    | some log => simp [new, hlog, hempty log (List.mem_of_getElem? hlog)]
  · unfold pushEvent
    cases s.logs[i]? with
    | none => exact ⟨rfl, rfl⟩
    | some log => exact ⟨rfl, rfl⟩

/-- Two logs in turns: the block of the first is left and entered again. -/
def reincluded : List (Nat × ExecutionEvent Nat) :=
  [(0, .popped 0), (1, .popped 0), (0, .sent 1), (0, .txPoolEvent 2 (.inBlock 7)),
    (1, .txPoolEvent 2 (.inBlock 7)), (0, .txPoolEvent 3 .noLongerInBestBlock),
    (0, .txPoolEvent 4 (.inBlock 8)), (1, .resubmitted 5)]

def twoLogs : List (TransactionExecutionLog Nat) :=
  [⟨[], .derived 0, 0, 1⟩, ⟨[], .derived 1, 0, 2⟩]

theorem counters_exact_reincluded :
    ((new twoLogs).pushEvents reincluded).totalCounters =
        Counters.tally ((new twoLogs).pushEvents reincluded).logs ∧
      Counters.tally ((new twoLogs).pushEvents reincluded).logs =
        { popped := 2, sent := 1, tsInBlock := 2 } :=
  ⟨(@counters_exact Nat twoLogs (by simp [twoLogs]) reincluded).1, by decide⟩

end SharedLogs

end TxTestTool
