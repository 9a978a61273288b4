import TxTestTool.Runner.Theorems
import TxTestTool.Sink.Pool
import TxTestTool.Sink.Subxt

/-!
# The send threshold and the failures of the node
-/

namespace TxTestTool

namespace Pool

open Runner (Config)

variable {H : Type*} [DecidableEq H] {cfg : Config} {tasks : List (DefaultTxTask H)}
  {wall : SystemTime} {is : List (Input H)} {s : State H}

/-- At every point of every run at most `sendThreshold` tasks are in the pool or without a
submission result, and a `consume_pending` ends only when no task is left or its count and the
buffered tasks reach the threshold. -/
theorem threshold_respected (hN : cfg.sendThreshold ≠ usizeMax) (hmon : cfg.monitor = false)
    (hdistinct : (tasks.map (·.tx.hash)).Nodup)
    (h : (machine H cfg).run (new cfg tasks wall) is = some s) :
    (s.outstanding tasks).length ≤ cfg.sendThreshold ∧
    ∀ c n r, s.runner.phase = .refill c n → Runner.step cfg s.runner .resume = some r →
      r.phase = .select →
        r.transactions = [] ∨ ∃ count b, c = some count ∧
          r.eventCounters.buffered cfg.overflowChecks = some b ∧ cfg.sendThreshold ≤ count + b := by
  have hinv := run_inv hN hmon h
  refine ⟨(outstanding_length_le hdistinct).trans hinv.bounded.card_le, ?_⟩
  intro c n r hp hr hsel
  obtain ⟨k, rfl, hle⟩ := hinv.supplied c n hp
  have hbuf := hinv.buffered hmon
  have htrans := Runner.step_trans hr
  cases htrans with
  | classify hp' hend =>
      obtain ⟨_, _, _, _, he⟩ := Runner.classify_frame s.runner
      rw [he]
      rw [hp] at hp'
      cases hp'
      rcases hend with rfl | ht
      · exact Or.inr ⟨k, _, rfl, hbuf, hle⟩
      · exact Or.inl ht
  | begin hp' => rw [hp] at hp'; cases hp'
  | pop hpop =>
      rw [hp] at hpop
      cases hpop
      cases hsel
  | missing => cases hsel
  | save => cases hsel
  | report => cases hsel
  | statsPanic => cases hsel
  | journalPanic => cases hsel

/-- A threshold of one: the second task leaves once the first transaction has left the pool. -/
def turnInputs : List (Input Nat) :=
  [.runner .resume, .runner .resume, .runner (.poll 0 .start), .enter 1,
    .runner (.poll 0 (.submit (.ok 1))), .leave 1, .count, .runner (.pendingExtrinsics (some 0)),
    .runner .resume]

theorem threshold_respected_turn : ∃ s, (machine Nat Runner.oneAtATime).run
      (new Runner.oneAtATime [Runner.unwatched 2 1, Runner.unwatched 1 0] 0) turnInputs = some s ∧
    (s.outstanding [Runner.unwatched 2 1, Runner.unwatched 1 0]).length ≤ 1 ∧
    s.runner.popped.length = 2 :=
  ⟨_, rfl, (@threshold_respected Nat _ Runner.oneAtATime _ 0 turnInputs _ (by decide) rfl
    (by decide) rfl).1, rfl⟩

end Pool

namespace Subxt

open Runner (Config)

variable {H : Type*} [DecidableEq H] {cfg : Config} {tasks : List (DefaultTxTask H)}
  {wall : SystemTime} {is : List (Input H)} {s : State H}

/-- With a clock that starts at the epoch or after it, if every step is survivable, then: `run` does
not panic; a task whose call failed has ended with an error; every other task is where its own
replies lead and the refills count as if nothing had failed; and the journal of a run that has left
its loop holds all its logs. -/
theorem failures_survived (hwall : 0 ≤ wall)
    (hok : (machine H cfg).Meets (fun _ => Survivable cfg) [] (new cfg tasks wall) is)
    (h : (machine H cfg).run (new cfg tasks wall) is = some s) :
    (∀ why, s.runner.phase ≠ .panicked why) ∧
    (∀ i ∈ is, ∀ id, i.failed = some id → ∃ t, s.runner.popped[id]? = some t ∧
      (id, .error t.tx.hash) ∈ s.runner.finished) ∧
    ((∀ id w, s.runner.workers.lookup id = some w →
        w.task.follow cfg.monitor (repliesTo id is) = some (.pending w.awaiting)) ∧
      (∀ id result, (id, result) ∈ s.runner.finished → ∃ t, s.runner.popped[id]? = some t ∧
        t.follow cfg.monitor (repliesTo id is) = some (.ready result)) ∧
      (cfg.sendThreshold ≠ usizeMax → s.runner.eventCounters.buffered cfg.overflowChecks =
        some s.runner.ledger.unreplied)) ∧
    (∀ how, s.runner.phase = .reporting how ∨ s.runner.phase = .returned how →
      s.runner.journal = some s.runner.logs) := by
  have hinv := run_inv hwall hok h
  exact ⟨hinv.healthy.alive, hinv.failed,
    ⟨hinv.replayed.worker, hinv.replayed.finished, hinv.healthy.buffered⟩, hinv.saved⟩

/-- The connection drops while a task watches its transaction. -/
def brokenStream : List (Input Nat) :=
  [.own .resume, .own .resume, .start 0, .watching 0 (.ok ()), .item 0 (some (.error "closed"))]

/-- The request for the pending extrinsics fails. -/
def brokenCount : List (Input Nat) :=
  [.own .resume, .own .resume, .start 0, .submitted 0 (.ok 1), .count, .counted (.error "closed")]

/-- The monitor has ended when the task registers with it. -/
def lateRegistration : List (Input Nat) :=
  [.own .resume, .own .resume, .monitorEnds, .start 0, .submitted 0 (.ok 1)]

/-- The monitor ends while the task waits, and the next refill counts one result too many. -/
def lostListener : List (Input Nat) :=
  [.own .resume, .own .resume, .start 0, .submitted 0 (.ok 1), .queued 0, .monitorEnds,
    .abandoned 0, .count, .counted (.ok 0)]

def outcome (monitor watched : Bool) (is : List (Input Nat)) :
    Option (Runner.Phase × Bool) :=
  ((machine Nat { Runner.oneAtATime with monitor }).run
      (new { Runner.oneAtATime with monitor } [{ Runner.unwatched 1 0 with watched }] 0) is).map
    fun s => (s.runner.phase, s.runner.journal.isSome)

/-- Each of the four ends the run in a panic, and no journal is saved. -/
theorem failures_panic :
    ¬ (∀ (cfg : Config) (tasks : List (DefaultTxTask Nat)) wall is s,
      (machine Nat cfg).run (new cfg tasks wall) is = some s →
        ∀ why, s.runner.phase ≠ .panicked why) ∧
    outcome false true brokenStream = some (.panicked .sink, false) ∧
    outcome false false brokenCount = some (.panicked .sink, false) ∧
    outcome true false lateRegistration = some (.panicked .sink, false) ∧
    outcome true false lostListener = some (.panicked .buffered, false) := by
  refine ⟨fun h => ?_, by decide, by decide, by decide, by decide⟩
  exact h Runner.oneAtATime [{ Runner.unwatched 1 0 with watched := true }] 0 brokenStream _ rfl
    .sink rfl

def failedSubmission : List (Input Nat) :=
  [.own .resume, .own .resume, .own .resume, .start 0, .start 1, .submitted 0 (.error "closed"),
    .count, .counted (.ok 1), .own .resume, .submitted 1 (.ok 2), .count, .own .resume,
    .own .allDone, .own .resume, .own .resume]

def pairConfig : Config := { Runner.oneAtATime with sendThreshold := 2 }

theorem failures_survived_submission : ∃ s, (machine Nat pairConfig).run
      (new pairConfig [Runner.unwatched 2 1, Runner.unwatched 1 0] 0) failedSubmission = some s ∧
    s.runner.phase = .returned .allDone ∧ s.runner.journal = some s.runner.logs :=
  ⟨_, rfl, rfl, (@failures_survived Nat _ pairConfig [Runner.unwatched 2 1, Runner.unwatched 1 0] 0
    failedSubmission _ (Int.le_refl 0) (by decide) rfl).2.2.2 .allDone (Or.inr rfl)⟩

end Subxt

end TxTestTool
