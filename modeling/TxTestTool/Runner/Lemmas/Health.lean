import TxTestTool.Log.Timing
import TxTestTool.Runner.Lemmas.Invariants

/-!
# Runs that do not panic

The sources of a panic of `run` are a call of the sink that panics, a wrong balance of the counters
and a clock that is set back.
-/

namespace TxTestTool.Runner

variable {H : Type*} [DecidableEq H] {cfg : Config} {tasks : List (DefaultTxTask H)}
  {wall : SystemTime} {is : List (Input H)} {s s' : State H} {i : Input H}

/-- No call panics, no failure of the monitor goes into the counters of a run that reads them, and
the clock is not set back. -/
def Calm (cfg : Config) (s : State H) : Input H → Prop
  | .poll _ r => r ≠ .panic ∧ (r.isMonitorFailure = true → cfg.sendThreshold = usizeMax)
  | .pendingExtrinsics count => count.isSome
  | .setClock t => s.wall ≤ t
  | _ => True

instance (s : State H) (i : Input H) : Decidable (Calm cfg s i) := by
  unfold Calm
  split <;> infer_instance

omit [DecidableEq H] in
/-- A reply that is neither a panic nor a failure of the monitor. -/
theorem Calm.poll {cfg : Config} {s : State H} {id : Nat} {r : Reply H} (hp : r ≠ .panic)
    (hf : r.isMonitorFailure = false) : Calm cfg s (.poll id r) :=
  ⟨hp, fun h => by rw [hf] at h; cases h⟩

structure Healthy (cfg : Config) (tasks : List (DefaultTxTask H)) (s : State H) : Prop where
  good : Good tasks s
  balance : cfg.sendThreshold ≠ usizeMax →
    s.eventCounters.popped = s.eventCounters.results + s.ledger.unreplied
  uncounted : cfg.sendThreshold = usizeMax → s.phase ≠ .counting
  timed : s.books.TimedBy s.wall
  sent : ∀ id w, s.workers.lookup id = some w → w.awaiting ≠ .created →
    s.books.HasSent w.task.tx.hash
  alive : ∀ why, s.phase ≠ .panicked why
  epoch : 0 ≤ s.wall
  dated : s.logs.sinceEpoch = true

/-- The part of a run's health that depends on the clock only. -/
structure Steady (tasks : List (DefaultTxTask H)) (s : State H) : Prop where
  good : Good tasks s
  timed : s.books.TimedBy s.wall
  sent : ∀ id w, s.workers.lookup id = some w → w.awaiting ≠ .created →
    s.books.HasSent w.task.tx.hash

/-- The clock is not set back. -/
def Forward (s : State H) : Input H → Prop
  | .setClock t => s.wall ≤ t
  | _ => True

instance (s : State H) (i : Input H) : Decidable (Forward s i) := by
  unfold Forward
  split <;> infer_instance

omit [DecidableEq H] in
theorem Calm.forward (hc : Calm cfg s i) : Forward s i := by
  cases i with
  | setClock => exact hc
  | _ => trivial

theorem Healthy.steady (h : Healthy cfg tasks s) : Steady tasks s := ⟨h.good, h.timed, h.sent⟩

theorem Healthy.buffered (h : Healthy cfg tasks s) (hN : cfg.sendThreshold ≠ usizeMax) :
    s.eventCounters.buffered cfg.overflowChecks = some s.ledger.unreplied :=
   (Counters.buffered_of_balance (h.balance hN) _).2

theorem Trans.balance (hs : Trans cfg s i s') (hc : Calm cfg s i) (h : Healthy cfg tasks s)
    (hN : cfg.sendThreshold ≠ usizeMax) :
    s'.eventCounters.popped = s'.eventCounters.results + s'.ledger.unreplied := by
  obtain ⟨hl, _⟩ := hs.ledger h.good.idle h.good.transactions_keys
  have hbal : s.ledger.books.eventCounters.popped + 0 =
      s.ledger.books.eventCounters.results + s.ledger.unreplied := h.balance hN
  have hnone : Ledger.failures i.reply = 0 := by
    rw [failures_reply]
    cases i with
    | poll id r =>
        cases hr : r.isMonitorFailure with
        | false => simp [Input.isMonitorFailure, hr]
        | true => exact absurd (hc.2 hr) hN
    | _ => rfl
  have hstep := hl.balance h.good.inv hbal
  rw [hnone] at hstep
  exact hstep

theorem Trans.uncounted (hs : Trans cfg s i s') (h : s.phase ≠ .counting)
    (hN : cfg.sendThreshold = usizeMax) : s'.phase ≠ .counting := by
  have hconsume : ∀ u : State H, (u.consumePending cfg).phase ≠ .counting := by
    intro u
    simp [State.consumePending, hN]
  cases hs with
  | finish => exact hconsume _
  | tick => exact hconsume s
  | pop hp =>
      rintro rfl
      cases hph : s.phase <;> rw [hph] at hp <;> cases hp
  | classify =>
      obtain ⟨_, _, _, _, he⟩ := classify_frame s
      simp [he]
  | move hp => simp [State.pushEvents, hp]
  | count hp => exact absurd hp h
  | sendStop | dropSender | elapse | setClock => exact h
  | _ => simp [State.startIteration]

theorem Trans.alive (hs : Trans cfg s i s') (hc : Calm cfg s i) (h : Healthy cfg tasks s) (why) :
    s'.phase ≠ .panicked why := by
  intro hph
  rcases hs.panics hph with hp | hp
  · cases hp with
    | missingLog ht hlog => exact hlog (h.good.transactions_keys _ ht)
    | journal hsince =>
        rw [h.dated] at hsince
        cases hsince
    | stats hst =>
        have hsome : (TransactionExecutionLog.makeStats s.logs.values).isSome = true := by
          apply TransactionExecutionLog.makeStats_isSome
          intro log hlog
          obtain ⟨a, ha⟩ := AList.mem_values.mp hlog
          exact (h.timed a log ha).1
        rw [hst] at hsome
        cases hsome
    | worker hw hm => exact hc.1 (DefaultTxTask.execute_move hm).panic_of_panicked
    | buffered hcount hb =>
        by_cases hN : cfg.sendThreshold = usizeMax
        · exact h.uncounted hN hcount
        · rw [h.buffered hN] at hb
          cases hb
    | sink => cases hc
  · exact h.alive why hp

theorem Trans.timed (hs : Trans cfg s i s') (hc : Forward s i) (h : Steady tasks s) :
    s'.books.TimedBy s'.wall := by
  have hmove : ∀ {id w r es q}, s.workers.lookup id = some w →
      w.task.execute cfg.monitor s.wall w.awaiting r = some (es, q) →
      (s.books.pushEvents w.task.tx.hash es).TimedBy s.wall := by
    intro id w r es q hw hm
    have hmv := DefaultTxTask.execute_move hm
    refine h.timed.pushes hmv.times fun e he => Or.inr ?_
    by_cases hcr : w.awaiting = .created
    · rw [hcr] at hmv
      rw [hmv.created] at he
      rw [List.mem_singleton.mp he]
      exact Or.inl rfl
    · exact Or.inr (h.sent id w hw hcr)
  cases hs with
  | pop =>
      refine h.timed.pushes (fun e he => ?_) (fun e he => Or.inl ?_)
      · rw [List.mem_singleton.mp he]; rfl
      · rw [List.mem_singleton.mp he]; rfl
  | move _ hw hm => exact hmove hw hm
  | finish _ hw hm => exact hmove hw hm
  | classify =>
      obtain ⟨_, _, _, _, he⟩ := classify_frame s
      rw [he]
      exact h.timed
  | @count n =>
      rcases startRefill_phase cfg s n with he | ⟨b, _, he⟩ <;> rw [he] <;> exact h.timed
  | setClock => exact h.timed.later hc
  | _ => exact h.timed

/-- With a clock that starts at the epoch or after it, all that is written can be saved. -/
theorem Trans.dated (hs : Trans cfg s i s') (hc : Forward s i) (h : Healthy cfg tasks s) :
    0 ≤ s'.wall ∧ s'.logs.sinceEpoch = true := by
  have hpush : ∀ {a : H} {es : List (ExecutionEvent H)}, (∀ e ∈ es, e.time = s.wall) →
      (s.books.pushEvents a es).logs.sinceEpoch = true :=
    fun hes => Journal.sinceEpoch_pushEvents h.dated fun e he => (hes e he).symm ▸ h.epoch
  cases hs with
  | pop =>
      refine ⟨h.epoch, hpush fun e he => ?_⟩
      rw [List.mem_singleton.mp he]
      rfl
  | move _ _ hm => exact ⟨h.epoch, hpush (DefaultTxTask.execute_move hm).times⟩
  | finish _ _ hm => exact ⟨h.epoch, hpush (DefaultTxTask.execute_move hm).times⟩
  | classify =>
      obtain ⟨_, _, _, _, he⟩ := classify_frame s
      rw [he]
      exact ⟨h.epoch, h.dated⟩
  | @count n =>
      rcases startRefill_phase cfg s n with he | ⟨b, _, he⟩ <;> rw [he] <;>
        exact ⟨h.epoch, h.dated⟩
  | setClock => exact ⟨Int.le_trans h.epoch hc, h.dated⟩
  | _ => exact ⟨h.epoch, h.dated⟩

theorem Trans.sent (hs : Trans cfg s i s') (h : Steady tasks s) :
    ∀ id w, s'.workers.lookup id = some w → w.awaiting ≠ .created →
      s'.books.HasSent w.task.tx.hash := by
  cases hs with
  | pop =>
      intro id w hw hcr
      simp only [State.launch, AList.lookup_insert_eq] at hw
      split at hw
      · simp only [Option.some.injEq] at hw; subst hw
        exact absurd rfl hcr
      · exact (h.sent id w hw hcr).pushes
  | @move id w r es p hp hw hm =>
      intro k v hv hcr
      simp only [AList.lookup_insert_eq] at hv
      split at hv
      · simp only [Option.some.injEq] at hv; subst hv
        by_cases hold : w.awaiting = .created
        · have hmv := DefaultTxTask.execute_move hm
          rw [hold] at hmv
          rw [hmv.created]
          exact Books.HasSent.new (h.good.inv.worker_keys hw) rfl
        · exact (h.sent id w hw hold).pushes
      · exact (h.sent k v hv hcr).pushes
  | finish =>
      intro k v hv hcr
      simp only [State.consumePending, State.complete, AList.lookup_erase_eq] at hv
      split at hv
      · cases hv
      · exact (h.sent k v hv hcr).pushes
  | classify =>
      obtain ⟨_, _, _, _, he⟩ := classify_frame s
      rw [he]
      exact h.sent
  | @count n =>
      rcases startRefill_phase cfg s n with he | ⟨b, _, he⟩ <;> rw [he] <;> exact h.sent
  | _ => exact h.sent

theorem Healthy.step (h : Healthy cfg tasks s) (hc : Calm cfg s i)
    (hs : Runner.step cfg s i = some s') : Healthy cfg tasks s' := by
  have ht := step_trans hs
  exact ⟨step_good h.good hs, ht.balance hc h, fun hN => ht.uncounted (h.uncounted hN) hN,
    ht.timed hc.forward h.steady, ht.sent h.steady, ht.alive hc h, (ht.dated hc.forward h).1,
    (ht.dated hc.forward h).2⟩

theorem Steady.step (h : Steady tasks s) (hf : Forward s i)
    (hs : Runner.step cfg s i = some s') : Steady tasks s' :=
  ⟨step_good h.good hs, (step_trans hs).timed hf h, (step_trans hs).sent h⟩

theorem new_steady : Steady tasks (new cfg tasks wall) where
  good := new_good
  timed a log hlog := by
    rw [collectLogs_events hlog]
    exact ⟨.nil, fun _ he => by cases he⟩
  sent _ _ hw := by cases hw

theorem new_healthy (hwall : 0 ≤ wall) : Healthy cfg tasks (new cfg tasks wall) where
  good := new_good
  balance _ := rfl
  uncounted _ := by simp [new]
  timed := (@new_steady H _ cfg tasks wall).timed
  sent _ _ hw := by cases hw
  alive _ := by simp [new]
  epoch := hwall
  dated := by
    rw [Journal.sinceEpoch_iff]
    intro a log hlog
    rw [collectLogs_events hlog]
    exact fun _ he => by cases he

end TxTestTool.Runner
