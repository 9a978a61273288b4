import TxTestTool.Runner.Lemmas.Invariants
import TxTestTool.Scenario.Order

/-!
# Conservation, the buffered counter and the end of a run
-/

namespace TxTestTool.Runner

variable {H : Type*} [DecidableEq H] {cfg : Config} {tasks : List (DefaultTxTask H)}
  {wall : SystemTime} {is : List (Input H)} {s : State H}

/-! ## Conservation -/

theorem Good.workers_perm (h : Good tasks s) :
    (s.workers.values.map (·.task.tx.hash) ++ s.done ++ s.errors ++
      s.held.toList.map (·.hash)).Perm (s.popped.map (·.tx.hash)) := by
  rw [List.perm_iff_count]
  intro a
  have ha := h.inv.hashes a
  simp only [List.count_append]
  exact ha.symm

/-- Tasks leave in the order of the reversed list, none is lost, executed or classified twice, and
every log is found. Inside a `consume_pending` the result of the branch is held and not recorded;
at the head of the loop none is held. -/
theorem run_conserves (h : (machine H cfg).run (new cfg tasks wall) is = some s) :
    (s.popped ++ s.transactions.reverse = tasks.reverse ∧
      ∀ results, tasks = ScenarioBuilder.runnerTransactions (ScenarioBuilder.sortByNonce results) →
        s.popped <+: ScenarioBuilder.sortByNonce results ∧
          s.popped.Pairwise (·.tx.nonce ≤ ·.tx.nonce)) ∧
    ((s.workers.values.map (·.task.tx.hash) ++ s.done ++ s.errors ++
        s.held.toList.map (·.hash)).Perm (s.popped.map (·.tx.hash)) ∧
      (s.phase = .select → (s.workers.values.map (·.task.tx.hash) ++ s.done ++ s.errors).Perm
        (s.popped.map (·.tx.hash)))) ∧
    (s.phase ≠ .panicked .missingLog ∧ (∀ t ∈ s.transactions, (s.logs.lookup t.tx.hash).isSome) ∧
      s.eventCounters.popped = s.popped.length) := by
  have hgood := run_good h
  have horder : s.popped ++ s.transactions.reverse = tasks.reverse := hgood.inv.order
  refine ⟨⟨horder, ?_⟩, ⟨hgood.workers_perm, ?_⟩, hgood.found, ?_, hgood.inv.counted⟩
  · intro results htasks
    have hpre : s.popped <+: ScenarioBuilder.sortByNonce results := by
      rw [htasks, ScenarioBuilder.runnerTransactions, List.reverse_reverse] at horder
      exact ⟨_, horder⟩
    exact ⟨hpre, (ScenarioBuilder.sortByNonce_pairwise results).sublist hpre.sublist⟩
  · intro hp
    have hheld : s.held = none := hgood.idle (by rw [hp]; rfl)
    have hperm := hgood.workers_perm
    rw [hheld] at hperm
    simpa using hperm
  · intro t ht
    exact AList.lookup_isSome.mpr (hgood.transactions_keys t ht)

def unwatched (hash nonce : Nat) : DefaultTxTask Nat :=
  { tx := { hash, nonce, validUntil := none, accountMetadata := .derived hash }, watched := false }

/-- Two tasks, a threshold of one, and a pool that still holds the first transaction when its
worker finishes. -/
def stuckInputs : List (Input Nat) :=
  [.resume, .resume, .poll 0 .start, .poll 0 (.submit (.ok 1)), .pendingExtrinsics (some 1),
    .resume, .allDone, .resume, .resume]

theorem run_conserves_stuck : ∃ s, (machine Nat oneAtATime).run
      (new oneAtATime [unwatched 2 1, unwatched 1 0] 0) stuckInputs = some s ∧
    s.popped ++ s.transactions.reverse = [unwatched 1 0, unwatched 2 1] :=
  ⟨_, rfl, (@run_conserves Nat _ oneAtATime [unwatched 2 1, unwatched 1 0] 0 stuckInputs _ rfl).1.1⟩

/-! ## The buffered counter -/

/-- In every state of every run, `buffered` is the number of tasks popped without a submission
result, and computed without underflow, exactly if no wait on the monitor has yet ended in an
error other than the end of a mortal transaction: such an error is recorded as a second submission
result of its task. -/
theorem buffered_exact_iff (h : (machine H cfg).run (new cfg tasks wall) is = some s) :
    (s.eventCounters.InRange ∧
      s.eventCounters.buffered cfg.overflowChecks = some s.ledger.unreplied) ↔
    ∀ i ∈ is, i.isMonitorFailure = false := by
  have hbal := run_balance h
  have hzero : monitorFailures is = 0 ↔ ∀ i ∈ is, i.isMonitorFailure = false := by
    simp [monitorFailures, List.countP_eq_zero]
  rw [← hzero]
  constructor
  · rintro ⟨hrange, hbuf⟩
    rw [hrange.buffered, Option.some.injEq] at hbuf
    have hle := Counters.inRange_iff.mp hrange
    omega
  · intro hnone
    exact run_buffered h hnone

def failedWaitInputs : List (Input Nat) :=
  [.resume, .resume, .poll 0 .start, .poll 0 (.submit (.ok 1)),
    .poll 0 (.wait (.error (.other "channel closed")))]

def failedWaitConfig (overflowChecks : Bool) : Config :=
  { oneAtATime with monitor := true, overflowChecks }

/-- After a failed wait one pop stands against two results: the subtraction panics, or wraps to
`usize::MAX`. -/
theorem buffered_off_after_failed_wait :
    ¬ (∀ (cfg : Config) (tasks : List (DefaultTxTask Nat)) wall is s,
      (machine Nat cfg).run (new cfg tasks wall) is = some s →
        s.eventCounters.buffered cfg.overflowChecks = some s.ledger.unreplied) ∧
    ((machine Nat (failedWaitConfig false)).run
        (new (failedWaitConfig false) [unwatched 1 0] 0) failedWaitInputs).map
      (fun s => (s.eventCounters.buffered false, s.ledger.unreplied)) = some (some usizeMax, 0) := by
  refine ⟨?_, by decide⟩
  intro h
  have hbuf := h (failedWaitConfig true) [unwatched 1 0] 0 failedWaitInputs _ rfl
  revert hbuf
  decide

def monitoredConfig : Config := { oneAtATime with sendThreshold := 2, monitor := true }

/-- The monitor has answered the first worker, and the submission of the second is on its way. -/
def answeredInputs : List (Input Nat) :=
  [.resume, .resume, .resume, .poll 0 .start, .poll 0 (.submit (.ok 1)), .poll 1 .start,
    .poll 0 (.wait (.ok 7))]

theorem buffered_exact_answered : ∃ s, (machine Nat monitoredConfig).run
      (new monitoredConfig [unwatched 2 1, unwatched 1 0] 0) answeredInputs = some s ∧
    s.eventCounters.buffered true = some s.ledger.unreplied ∧ s.ledger.unreplied = 1 :=
  ⟨_, rfl, ((@buffered_exact_iff Nat _ monitoredConfig [unwatched 2 1, unwatched 1 0] 0
    answeredInputs _ rfl).mpr (by decide)).2, rfl⟩

/-! ## The end of a run -/

def Phase.leftBy (how : Exit) (p : Phase) : Prop :=
  p = .saving how ∨ p = .reporting how ∨ p = .returned how

/-- When the count of `pending_extrinsics` arrives while no worker is in flight and tasks are still
waiting, it leaves room for a task. -/
def RoomWhenIdle (cfg : Config) (s : State H) : Input H → Prop
  | .pendingExtrinsics (some n) =>
      s.phase = .counting → s.workers.entries = [] → s.transactions ≠ [] →
        ∀ b ∈ s.eventCounters.buffered cfg.overflowChecks, n + b < cfg.sendThreshold
  | _ => True

instance : (i : Input H) → Decidable (RoomWhenIdle cfg s i)
  | .pendingExtrinsics (some n) => inferInstanceAs (Decidable
      (s.phase = .counting → s.workers.entries = [] → s.transactions ≠ [] →
        ∀ b ∈ s.eventCounters.buffered cfg.overflowChecks, n + b < cfg.sendThreshold))
  | .pendingExtrinsics none | .resume | .poll _ _ | .allDone | .tick | .timeout | .stop |
    .sendStop | .dropSender | .elapse _ | .setClock _ => .isTrue trivial

def State.InFlight (s : State H) : Prop := s.workers.entries ≠ [] ∨ s.transactions = []

/-- Tasks wait only while a worker is in flight or a loop is about to start one. -/
def State.Fed (s : State H) : Prop :=
  match s.phase with
  | .burst n | .refill _ n => 0 < n ∨ s.InFlight
  | .select => s.InFlight
  | .saving .allDone | .reporting .allDone | .returned .allDone =>
      s.workers.entries = [] ∧ s.transactions = []
  | _ => True

omit [DecidableEq H] in
theorem Fed.consumePending (cfg : Config) (s : State H) : (s.consumePending cfg).Fed := by
  unfold State.Fed
  rcases consumePending_phase cfg s with hph | hph <;> rw [hph]
  · trivial
  · exact Or.inl (by decide)

omit [DecidableEq H] in
theorem Pops.fed {next : Phase} (hp : Pops s.phase next) {s' : State H} (hs : s'.phase = next)
    (hw : s'.workers.entries ≠ []) : s'.Fed := by
  unfold State.Fed
  rw [hs]
  cases hph : s.phase <;> rw [hph] at hp <;> cases hp
  · exact Or.inr (Or.inl hw)
  · exact Or.inr (Or.inl hw)

theorem Trans.fed {i : Input H} {s' : State H} (h : Trans cfg s i s') (hf : s.Fed)
    (hroom : RoomWhenIdle cfg s i) : s'.Fed := by
  cases h with
  | begin hp h =>
      simp only [State.Fed, hp] at hf
      rcases h with rfl | ht
      · rcases hf with hf | hf
        · cases hf
        · exact hf
      · exact Or.inr ht
  | pop hp =>
      exact hp.fed rfl (by simp [State.launch])
  | classify hp h =>
      simp only [State.Fed, hp] at hf
      have hflight : s.InFlight := by
        rcases h with rfl | ht
        · rcases hf with hf | hf
          · cases hf
          · exact hf
        · exact Or.inr ht
      obtain ⟨_, _, _, _, he⟩ := classify_frame s
      rw [he]
      exact hflight
  | @save how hp =>
      cases how <;> simp only [State.Fed, hp] at hf ⊢
      exact hf
  | @report how st hp =>
      cases how <;> simp only [State.Fed, hp] at hf ⊢
      exact hf
  | move hp =>
      simp only [State.Fed, State.pushEvents, hp]
      exact Or.inl (by simp)
  | finish => exact Fed.consumePending cfg _
  | tick => exact Fed.consumePending cfg s
  | allDone hp hw =>
      simp only [State.Fed, hp] at hf
      exact ⟨hw, hf.resolve_left fun hne => hne hw⟩
  | @count n hp =>
      rcases startRefill_phase cfg s n with he | ⟨b, hb, he⟩ <;> rw [he]
      · trivial
      · by_cases hw : s.workers.entries = []
        · by_cases ht : s.transactions = []
          · exact Or.inr (Or.inr ht)
          · have hlt : n + b < cfg.sendThreshold := hroom hp hw ht b hb
            have hpos : 0 < cfg.sendThreshold - n - b := by omega
            exact Or.inl hpos
        · exact Or.inr (Or.inl hw)
  | sendStop => exact hf
  | dropSender => exact hf
  | elapse => exact hf
  | setClock => exact hf
  | _ => trivial

theorem run_fed (ht : 1 ≤ cfg.sendThreshold)
    (hroom : (machine H cfg).Meets (fun _ => RoomWhenIdle cfg) [] (new cfg tasks wall) is)
    (h : (machine H cfg).run (new cfg tasks wall) is = some s) : s.Fed := by
  have hstep : ∀ (past : List (Input H)) (s : State H) i t, s.Fed → RoomWhenIdle cfg s i →
      (machine H cfg).step s i = some t → t.Fed :=
    fun _ _ _ _ hf hr hs => (step_trans hs).fed hf hr
  exact Machine.Meets.invariant hstep (show (new cfg tasks wall).Fed from Or.inl ht) hroom h

/-- A run that leaves its loop because no worker is left has sent and classified every task, if
every count that arrives while the set of workers is empty leaves room for one more. -/
theorem run_exhausts (ht : 1 ≤ cfg.sendThreshold)
    (hroom : (machine H cfg).Meets (fun _ => RoomWhenIdle cfg) [] (new cfg tasks wall) is)
    (h : (machine H cfg).run (new cfg tasks wall) is = some s) (hexit : s.phase.leftBy .allDone) :
    s.transactions = [] ∧ s.popped = tasks.reverse ∧
      (s.done ++ s.errors).Perm (tasks.map (·.tx.hash)) := by
  have hgood := run_good h
  have hfed := run_fed ht hroom h
  have hempty : s.workers.entries = [] ∧ s.transactions = [] := by
    unfold State.Fed at hfed
    rcases hexit with hp | hp | hp <;> rw [hp] at hfed <;> exact hfed
  have hheld : s.held = none := by
    rcases hexit with hp | hp | hp <;> exact hgood.idle (by rw [hp]; rfl)
  have horder : s.popped ++ s.transactions.reverse = tasks.reverse := hgood.inv.order
  have hpopped : s.popped = tasks.reverse := by simpa [hempty.2] using horder
  have hvalues : s.workers.values = [] := by simp [AList.values, hempty.1]
  have hperm := hgood.workers_perm
  rw [hvalues, hheld, hpopped, List.map_reverse] at hperm
  refine ⟨hempty.2, hpopped, ?_⟩
  simpa using hperm.trans (List.reverse_perm _)

/-- The condition of `run_exhausts` is tight: a count that leaves no room while the set of workers
is empty lets the run end with the tasks still waiting. -/
theorem no_room_strands {n b : Nat} (hp : s.phase = .counting) (hw : s.workers.entries = [])
    (hb : s.eventCounters.buffered cfg.overflowChecks = some b) (hfull : cfg.sendThreshold ≤ n + b) :
    ∃ s', (machine H cfg).run s [.pendingExtrinsics (some n), .resume, .allDone] = some s' ∧
      s'.phase = .saving .allDone ∧ s'.transactions = s.transactions := by
  have hzero : cfg.sendThreshold - n - b = 0 := by omega
  have hrest : ∀ u : State H, u.phase = .refill (some n) 0 → u.workers.entries = [] →
      ∃ u', (machine H cfg).run u [.resume, .allDone] = some u' ∧
        u'.phase = .saving .allDone ∧ u'.transactions = u.transactions := by
    intro u hph huw
    obtain ⟨_, _, _, _, he⟩ := classify_frame u
    refine ⟨{ u.classify.endIteration with phase := .saving .allDone }, ?_, rfl, by rw [he]⟩
    refine Machine.run_cons.mpr ⟨u.classify.endIteration, ?_, ?_⟩
    · simp [machine, step, State.resume, hph]
    · refine Machine.run_cons.mpr ⟨_, ?_, rfl⟩
      simp [machine, step, he, huw]
  obtain ⟨u', hrun, hexit, htx⟩ := hrest { s with phase := .refill (some n) 0 } rfl hw
  refine ⟨u', Machine.run_cons.mpr ⟨_, ?_, hrun⟩, hexit, htx⟩
  simp [machine, step, hp, State.startRefill, hb, hzero]

theorem stuck_run_strands :
    ¬ (∀ (cfg : Config) (tasks : List (DefaultTxTask Nat)) wall is s, 1 ≤ cfg.sendThreshold →
      (machine Nat cfg).run (new cfg tasks wall) is = some s → s.phase.leftBy .allDone →
        s.transactions = []) := by
  intro h
  have hempty := h oneAtATime [unwatched 2 1, unwatched 1 0] 0 stuckInputs _ (by decide) rfl
    (Or.inr (Or.inr rfl))
  cases hempty

/-- A pool that has let go of each transaction when its worker finishes. The first count arrives
with no worker in flight and the second task waiting. -/
def drainedInputs : List (Input Nat) :=
  [.resume, .resume, .poll 0 .start, .poll 0 (.submit (.ok 1)), .pendingExtrinsics (some 0),
    .resume, .resume, .poll 1 .start, .poll 1 (.submit (.ok 2)), .pendingExtrinsics (some 0),
    .resume, .allDone]

theorem run_exhausts_drained : ∃ s, (machine Nat oneAtATime).run
      (new oneAtATime [unwatched 2 1, unwatched 1 0] 0) drainedInputs = some s ∧
    (s.done ++ s.errors).Perm [2, 1] :=
  ⟨_, rfl, (@run_exhausts Nat _ oneAtATime [unwatched 2 1, unwatched 1 0] 0 drainedInputs _
    (by decide) (by decide) rfl (Or.inl rfl)).2.2⟩

end TxTestTool.Runner
