import TxTestTool.Log.Durations
import TxTestTool.Runner.Lemmas.Health

/-!
# Reports and the wall clock
-/

namespace TxTestTool

variable {H : Type*}

/-- The order of an untouched clock is more than the reports need. -/
theorem Timed.notBefore {l : TransactionExecutionLog H} (h : Timed l.events) (m : Milestone) :
    l.NotBefore m := by
  have hsel : ∀ (e : ExecutionEvent H) i, (if m.selects e then some e.time else none) = some i →
      i = e.time ∧ e.isPopped = false := by
    intro e i he
    cases hm : m.selects e with
    | false => simp [hm] at he
    | true =>
        simp only [hm, ↓reduceIte, Option.some.injEq] at he
        refine ⟨he.symm, ?_⟩
        cases e with
        | popped => cases m <;> cases hm
        | _ => rfl
  rw [← TransactionExecutionLog.query_isSome_iff, TransactionExecutionLog.query_eq,
    ← TransactionExecutionLog.first_time (fun _ => rfl),
    ← TransactionExecutionLog.first_time (fun _ => rfl)]
  exact h.durationSince_isSome (fun _ => rfl) hsel

namespace Runner

variable [DecidableEq H] {cfg : Config} {tasks : List (DefaultTxTask H)}
  {wall : SystemTime} {is : List (Input H)} {s : State H}

theorem run_steady (hok : (machine H cfg).Meets (fun _ => Forward) [] (new cfg tasks wall) is)
    (h : (machine H cfg).run (new cfg tasks wall) is = some s) : Steady tasks s := by
  have hstep : ∀ (past : List (Input H)) (s : State H) i t, Steady tasks s → Forward s i →
      (machine H cfg).step s i = some t → Steady tasks t :=
    fun _ _ _ _ hh hf hs => hh.step hf hs
  exact Machine.Meets.invariant hstep new_steady hok h

/-- All queries of some logs return, and all reports are made, exactly if in no log the first event
of a kind that is asked for is stamped before the first `Sent`. So it is in every state of a run
during which the clock is not set back. -/
theorem reported_exactly (debug : H → String) :
    (∀ logs : Logs H, Journal.Reported debug logs ↔ ∀ l ∈ logs.values, ∀ m, l.NotBefore m) ∧
    ∀ cfg (tasks : List (DefaultTxTask H)) wall is s,
      (machine H cfg).Meets (fun _ => Forward) [] (new cfg tasks wall) is →
      (machine H cfg).run (new cfg tasks wall) is = some s → Journal.Reported debug s.logs := by
  refine ⟨Journal.reported_iff debug, fun cfg tasks wall is s hok h => ?_⟩
  rw [Journal.reported_iff]
  intro l hl m
  obtain ⟨a, ha⟩ := AList.mem_values.mp hl
  exact ((run_steady hok h).timed a l ha).1.notBefore m

def submittedTask : DefaultTxTask Nat :=
  { tx := { hash := 1, nonce := 0, validUntil := none, accountMetadata := .derived 1 },
    watched := false }

/-- The clock shows `before` when the transaction is sent and `after` when its result is there. -/
def clockedInputs (before after : SystemTime) : List (Input Nat) :=
  [.resume, .resume, .setClock before, .poll 0 .start, .setClock after,
    .poll 0 (.submit (.ok 1)), .pendingExtrinsics (some 0), .resume, .allDone, .resume, .resume]

theorem reported_exactly_forward : ∃ s, (machine Nat oneAtATime).run
      (new oneAtATime [submittedTask] 0) (clockedInputs 10 12) = some s ∧
    s.phase = .returned .allDone ∧ Journal.Reported Nat.repr s.logs := by
  have hok : (machine Nat oneAtATime).Meets (fun _ => Forward) []
      (new oneAtATime [submittedTask] 0) (clockedInputs 10 12) := by decide
  exact ⟨_, rfl, rfl, (reported_exactly Nat.repr).2 _ _ _ _ _ hok rfl⟩

/-- A clock that is set back by seven nanoseconds while a submission is on its way: the journal is
saved, and the statistics panic. -/
theorem clock_set_back_panics : ∃ s, (machine Nat oneAtATime).run
      (new oneAtATime [submittedTask] 0) (clockedInputs 10 3) = some s ∧
    s.phase = .panicked .stats ∧ s.journal = some s.logs ∧
    ¬ Journal.Reported Nat.repr s.logs := by
  refine ⟨_, rfl, rfl, rfl, fun h => ?_⟩
  have hstats := congrArg Option.isSome h.stats
  revert hstats
  decide

end Runner

end TxTestTool
