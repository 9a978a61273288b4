import Mathlib.Data.List.Sort
import TxTestTool.Runner.Task

/-!
# The order in which a scenario hands its tasks to the runner
-/

namespace TxTestTool.ScenarioBuilder

variable {H : Type*}

/-- The end of `build_transactions`: the tasks of the build threads, sorted stably by nonce. -/
def sortByNonce (results : List (List (DefaultTxTask H))) : List (DefaultTxTask H) :=
  results.flatten.mergeSort fun a b => a.tx.nonce ≤ b.tx.nonce

/-- What `build` passes to `Runner::new`, which pops from the end. -/
def runnerTransactions (txs : List (DefaultTxTask H)) : List (DefaultTxTask H) := txs.reverse

theorem sortByNonce_pairwise (results : List (List (DefaultTxTask H))) :
    (sortByNonce results).Pairwise (·.tx.nonce ≤ ·.tx.nonce) := by
  have htrans : ∀ a b c : DefaultTxTask H, decide (a.tx.nonce ≤ b.tx.nonce) →
      decide (b.tx.nonce ≤ c.tx.nonce) → decide (a.tx.nonce ≤ c.tx.nonce) := by
    intro a b c hab hbc
    simp only [decide_eq_true_eq] at hab hbc ⊢
    omega
  have htotal : ∀ a b : DefaultTxTask H,
      (decide (a.tx.nonce ≤ b.tx.nonce) || decide (b.tx.nonce ≤ a.tx.nonce)) := by
    intro a b
    simp only [Bool.or_eq_true, decide_eq_true_eq]
    omega
  exact (List.pairwise_mergeSort htrans htotal results.flatten).imp fun hab => by simpa using hab

end TxTestTool.ScenarioBuilder
