import TxTestTool.Monitored.Lemmas.Verdicts
import TxTestTool.Runner.Records

/-!
# The unwatched tasks of a run under the monitor
-/

namespace TxTestTool.Monitored

open Runner (Config)
open BlockMonitor (decides verdict)

variable {H : Type*} [DecidableEq H] {cfg : Config} {tasks : List (DefaultTxTask H)}
  {wall : SystemTime} {is : List (Input H)} {s s' : State H} {i : Input H}
  {ms : List (BlockMonitor.Event H)} {t : DefaultTxTask H}

/-! ## What is written is true of the chain -/

theorem DecidedBy.decides {block : Block H} (h : DecidedBy ms t block) :
    t.tx.hash ∈ block.hashes ∨ t.tx.validUntil = some block.number := by
  obtain ⟨_, _, _, hfind⟩ := h
  simpa [BlockMonitor.decides] using List.find?_some hfind

/-- Tasks with distinct transactions are named by them. -/
theorem founded_iff (hdistinct : (tasks.map (·.tx.hash)).Nodup) (ht : t ∈ tasks)
    {r : Except BlockNumber H} : Founded tasks ms t.tx.hash r ↔ ∃ block, DecidedBy ms t block ∧
      verdict t.tx.hash block = r.mapError .mortalLifetimeSurpassed := by
  constructor
  · rintro ⟨u, hu, he, hblock⟩
    rwa [List.inj_on_of_nodup_map hdistinct hu ht he] at hblock
  · exact fun hblock => ⟨t, ht, rfl, hblock⟩

theorem verdict_ok {hash b : H} {block : Block H}
    (h : verdict hash block = Except.mapError .mortalLifetimeSurpassed (.ok b)) :
    hash ∈ block.hashes ∧ block.hash = b := by
  unfold verdict at h
  split at h
  · exact ⟨‹_›, Except.ok.inj h⟩
  · cases h

theorem verdict_error {hash : H} {block : Block H} {n : BlockNumber}
    (h : verdict hash block = Except.mapError .mortalLifetimeSurpassed (.error n)) :
    hash ∉ block.hashes ∧ block.number = n := by
  unfold verdict at h
  split at h
  · cases h
  · exact ⟨‹_›, Error.mortalLifetimeSurpassed.inj (Except.error.inj h)⟩

theorem resultOf_verdict {hash : H} {block : Block H} {r : Except BlockNumber H}
    (h : verdict hash block = r.mapError .mortalLifetimeSurpassed) :
    resultOf hash r = if hash ∈ block.hashes then .done hash else .error hash := by
  cases r with
  | ok b => rw [if_pos (verdict_ok h).1]; rfl
  | error n => rw [if_neg (verdict_error h).1]; rfl

/-- Whatever the monitor does later, a `FinalizedMonitor` in the log of a task names the first
block since its request that decides about it, which contains its transaction; a
`MortalDroppedMonitor` the number of such a block that does not contain it and ends its lifetime;
and an unwatched task among the done ones has been finalized. -/
theorem monitored_true (hdistinct : (tasks.map (·.tx.hash)).Nodup)
    (h : (machine H cfg).run (new cfg tasks wall) is = some s) (ht : t ∈ tasks) :
    (∀ log now hash, s.runner.logs.lookup t.tx.hash = some log →
      .finalizedMonitor now hash ∈ log.events →
        ∃ block, DecidedBy (monitorEvents cfg tasks wall is) t block ∧
          t.tx.hash ∈ block.hashes ∧ block.hash = hash) ∧
    (∀ log now n, s.runner.logs.lookup t.tx.hash = some log →
      .mortalDroppedMonitor now n ∈ log.events →
        ∃ block, DecidedBy (monitorEvents cfg tasks wall is) t block ∧
          t.tx.hash ∉ block.hashes ∧ block.number = n ∧ t.tx.validUntil = some n) ∧
    (t.watched = false → t.tx.hash ∈ s.runner.done →
      ∃ block, DecidedBy (monitorEvents cfg tasks wall is) t block ∧ t.tx.hash ∈ block.hashes) := by
  have hrec := run_records hdistinct h
  have hinv := run_inv hdistinct h
  refine ⟨fun log now hash hlog he => ?_, fun log now n hlog he => ?_, fun hw hdone => ?_⟩
  · obtain ⟨block, hdecided, hverdict⟩ :=
      (founded_iff hdistinct ht).mp (hrec.logged _ log hlog _ he _ rfl)
    exact ⟨block, hdecided, verdict_ok hverdict⟩
  · obtain ⟨block, hdecided, hverdict⟩ :=
      (founded_iff hdistinct ht).mp (hrec.logged _ log hlog _ he _ rfl)
    obtain ⟨hin, hnumber⟩ := verdict_error hverdict
    exact ⟨block, hdecided, hin, hnumber, hnumber ▸ hdecided.decides.resolve_left hin⟩
  · obtain ⟨id, hid⟩ := (hinv.good.mem_done _).mp (Or.inl hdone)
    obtain ⟨u, hu, he, hresult⟩ := hrec.finished id _ hid
    have hsame : u = t := List.inj_on_of_nodup_map hdistinct (hinv.task_mem hu) ht he.symm
    subst hsame
    rcases hresult hw with ⟨herror, _⟩ | ⟨r, hfounded, hdone⟩
    · cases herror
    · obtain ⟨block, hdecided, hverdict⟩ := (founded_iff hdistinct ht).mp hfounded
      refine ⟨block, hdecided, ?_⟩
      by_contra hin
      rw [resultOf_verdict hverdict, if_neg hin] at hdone
      cases hdone

def mortal (hash till : Nat) : DefaultTxTask Nat :=
  { tx := { hash, nonce := 0, validUntil := some till, accountMetadata := .derived hash },
    watched := false }

/-- The first transaction is in block 5, with which the lifetime of the second ends. -/
def mortalTasks : List (DefaultTxTask Nat) := [mortal 2 5, mortal 1 5]

def mortalConfig : Config := { Runner.oneAtATime with sendThreshold := 2, monitor := true }

/-- Both workers have asked the monitor, which has handled block 5. -/
def askedInputs : List (Input Nat) :=
  [.sink (.own .resume), .sink (.own .resume), .sink (.own .resume), .sink (.start 0),
    .sink (.start 1), .sink (.submitted 1 (.ok 2)), .queued 1, .take,
    .sink (.submitted 0 (.ok 1)), .queued 0, .take, .node (.best ⟨4, 40, some []⟩),
    .node (.finalized ⟨5, 50, some [1, 7]⟩ [2, 1])]

def answeredInputs : List (Input Nat) :=
  askedInputs ++ [.answered 0, .sink .count, .sink (.counted (.ok 0)), .sink (.own .resume),
    .answered 1, .sink .count, .sink (.own .resume)]

theorem monitored_true_both : ∃ s, (machine Nat mortalConfig).run
      (new mortalConfig mortalTasks 0) answeredInputs = some s ∧
    s.runner.done = [1] ∧ s.runner.errors = [2] ∧
    ∃ block, DecidedBy (monitorEvents mortalConfig mortalTasks 0 answeredInputs) (mortal 1 5)
      block ∧ 1 ∈ block.hashes :=
  ⟨_, rfl, rfl, rfl, (@monitored_true Nat _ mortalConfig mortalTasks 0 answeredInputs _ (mortal 1 5)
    (by decide) rfl (by decide)).2.2 rfl (by decide)⟩

/-- As long as the monitor runs, an unwatched task ends either with an error because its submission
failed, or with the verdict of the first block since its request that decides about it. -/
theorem results_exact (hdistinct : (tasks.map (·.tx.hash)).Nodup)
    (h : (machine H cfg).run (new cfg tasks wall) is = some s) (hrun : s.monitor.status = .running)
    {id : Nat} {result : ExecutionResult H} (ht : s.runner.popped[id]? = some t)
    (hw : t.watched = false) (hf : (id, result) ∈ s.runner.finished) :
    (result = .error t.tx.hash ∧ ∃ msg, .sink (.submitted id (.error msg)) ∈ is) ∨
    ∃ block, DecidedBy (monitorEvents cfg tasks wall is) t block ∧
      result = if t.tx.hash ∈ block.hashes then .done t.tx.hash else .error t.tx.hash := by
  have hinv := run_inv hdistinct h
  obtain ⟨u, hu, _, hresult⟩ := (run_records hdistinct h).finished id result hf
  rw [ht, Option.some.injEq] at hu
  subst hu
  rcases hresult hw with ⟨rfl, hmsg | hid⟩ | ⟨r, hfounded, rfl⟩
  · exact Or.inl ⟨rfl, hmsg⟩
  · exact absurd hid (run_not_abandoned hdistinct h hrun id)
  · obtain ⟨block, hdecided, hverdict⟩ := (founded_iff hdistinct (hinv.task_mem ht)).mp hfounded
    exact Or.inr ⟨block, hdecided, resultOf_verdict hverdict⟩

theorem results_exact_mortal : ∃ s, (machine Nat mortalConfig).run
      (new mortalConfig mortalTasks 0) answeredInputs = some s ∧
    ((ExecutionResult.error 2 = .error 2 ∧
        ∃ msg, .sink (.submitted 1 (.error msg)) ∈ answeredInputs) ∨
      ∃ block, DecidedBy (monitorEvents mortalConfig mortalTasks 0 answeredInputs) (mortal 2 5)
        block ∧ ExecutionResult.error 2 = if 2 ∈ block.hashes then .done 2 else .error 2) :=
  ⟨_, rfl, @results_exact Nat _ mortalConfig mortalTasks 0 answeredInputs _ (mortal 2 5) (by decide)
    rfl rfl 1 (.error 2) rfl rfl (by decide)⟩

/-! ## Nobody waits in vain -/

theorem step_eq_act (hsel : s.runner.phase = .select) : step cfg s i = act cfg s i := by
  simp [step, hsel, Runner.Phase.ended]

theorem takes (h : Inv tasks ms s) (hsel : s.runner.phase = .select) (hne : s.channel ≠ []) :
    ∃ s', step cfg s .take = some s' := by
  cases hch : s.channel with
  | nil => exact absurd hch hne
  | cons id rest =>
      have hmem : id ∈ s.channel := by simp [hch]
      have hlt := ((h.channel id hmem).1.asked h.good.inv).1
      have hm : ∀ hash u, ∃ m, BlockMonitor.step s.monitor (.request hash u) = some m :=
        fun _ _ => ⟨_, rfl⟩
      obtain ⟨m, hm⟩ := hm (s.runner.popped[id]).tx.hash (s.runner.popped[id]).tx.validUntil
      refine ⟨s.taken id rest m, ?_⟩
      simp [step_eq_act hsel, act, hch, List.getElem?_eq_getElem hlt, hm]

theorem run_unwatched (h : (machine H cfg).run (new cfg tasks wall) is = some s) :
    s.runner.Unwatched := by
  have h₀ : (Runner.new (config cfg) tasks wall).Unwatched := fun _ _ hw => by cases hw
  exact Runner.run_unwatched (Subxt.run_runner (run_parts h).1) h₀

/-- While the monitor runs, every worker that waits for it can go on: its request waits for room
and either finds it or the monitor can take another, or is on the channel and the monitor can take
one, or has been taken. Then no block has decided about the transaction, or the worker ends at its
next poll, with the verdict of the first block that has. -/
theorem waiting_served (hdistinct : (tasks.map (·.tx.hash)).Nodup)
    (h : (machine H cfg).run (new cfg tasks wall) is = some s) (hrun : s.monitor.status = .running)
    (hsel : s.runner.phase = .select) {id : Nat} (hwait : s.runner.Waits id)
    (ht : s.runner.popped[id]? = some t) :
    (id ∈ s.sink.sending ∧
      ((∃ s', step cfg s (.queued id) = some s') ∨ ∃ s', step cfg s .take = some s')) ∨
    (id ∈ s.channel ∧ ∃ s', step cfg s .take = some s') ∨
    Undecided (monitorEvents cfg tasks wall is) t ∨
    ∃ block s', DecidedBy (monitorEvents cfg tasks wall is) t block ∧
      step cfg s (.answered id) = some s' ∧
      (id, if t.tx.hash ∈ block.hashes then .done t.tx.hash else .error t.tx.hash) ∈
        s'.runner.finished := by
  have hinv := run_inv hdistinct h
  have hended : s.sink.monitorEnded ≠ true := fun he => hinv.ended.mp he hrun
  rcases hinv.waits id hwait with hid | hid | hid
  · refine Or.inl ⟨hid, ?_⟩
    by_cases hroom : s.channel.length < Submission.channelCapacity
    · have hcalls : Subxt.calls (config cfg) s.sink (.queued id) = some [] := by
        simp [Subxt.calls, hid, hended]
      have hu : Subxt.step (config cfg) s.sink (.queued id) =
          some (Subxt.update (config cfg) s.sink (.queued id)) := by
        rw [Subxt.step, hcalls]
        rfl
      exact Or.inl ⟨_, by rw [step_eq_act hsel, act, if_pos hroom, hu]; rfl⟩
    · refine Or.inr (takes hinv hsel fun hnil => hroom ?_)
      rw [hnil]
      decide
  · exact Or.inr (Or.inl ⟨hid, takes hinv hsel (List.ne_nil_of_mem hid)⟩)
  · obtain ⟨k, hk⟩ := Option.isSome_iff_exists.mp (AList.lookup_isSome.mpr hid)
    obtain ⟨t', before, after, ht', hms, hserved⟩ := hinv.served hk
    rw [ht, Option.some.injEq] at ht'
    subst ht'
    refine Or.inr (Or.inr ?_)
    cases hfind : (BlockMonitor.finalizedBlocks after).find?
        (decides t.tx.hash t.tx.validUntil) with
    | none => exact Or.inl ⟨before, after, hms, hfind⟩
    | some block =>
        obtain ⟨r, hr, hverdict⟩ := told_verdict ((hserved.follows hrun).answered block hfind).2
        obtain ⟨w, hw, hwaiting⟩ := hwait
        have hfresh : s.runner.popped[id]? = some w.task := hinv.good.inv.fresh id w hw
        rw [ht, Option.some.injEq] at hfresh
        obtain ⟨v, hv, hfinished⟩ := @Runner.step_answered H _ (config cfg) s.runner id w r hsel hw
          hwaiting (run_unwatched h id w hw hwaiting)
        have hnot : id ∉ s.sink.sending := fun hsend => (hinv.sending id hsend).2.2 hid
        have hcalls : Subxt.calls (config cfg) s.sink (.answered id r) =
            some [.poll id (answerReply r)] := if_neg hnot
        have hu : Subxt.step (config cfg) s.sink (.answered id r) =
            some { s.sink with runner := v } := by
          rw [Subxt.step, hcalls, Option.bind_some, Machine.run_cons.mpr ⟨v, hv, rfl⟩]
          rfl
        refine Or.inr ⟨block, { s with sink := { s.sink with runner := v } },
          ⟨before, after, hms, hfind⟩, ?_, ?_⟩
        · rw [step_eq_act hsel, act, hk, Option.bind_some, hr, Option.bind_some, hu]
          rfl
        · rwa [← hfresh, resultOf_verdict hverdict] at hfinished

theorem asked_reached : ((machine Nat mortalConfig).run (new mortalConfig mortalTasks 0)
      askedInputs).map (fun s => ((s.monitor.status, s.runner.phase, s.sink.sending, s.channel),
        s.runner.popped[0]?, (s.runner.workers.lookup 0).map (·.awaiting))) =
    some ((.running, .select, [], []), some (mortal 1 5), some .waiting) := rfl

theorem waiting_served_asked : ∃ s, (machine Nat mortalConfig).run
      (new mortalConfig mortalTasks 0) askedInputs = some s ∧
    (Undecided (monitorEvents mortalConfig mortalTasks 0 askedInputs) (mortal 1 5) ∨
      ∃ block s', DecidedBy (monitorEvents mortalConfig mortalTasks 0 askedInputs) (mortal 1 5)
        block ∧ step mortalConfig s (.answered 0) = some s' ∧
        (0, if 1 ∈ block.hashes then .done 1 else .error 1) ∈ s'.runner.finished) := by
  obtain ⟨s, h, he⟩ := Option.map_eq_some_iff.mp asked_reached
  simp only [Prod.mk.injEq] at he
  obtain ⟨⟨hrun, hsel, hsending, hchannel⟩, ht, hw⟩ := he
  obtain ⟨w, hw, hwait⟩ := Option.map_eq_some_iff.mp hw
  refine ⟨s, h, ?_⟩
  rcases waiting_served (by decide) h hrun hsel ⟨w, hw, hwait⟩ ht with
    ⟨hid, _⟩ | ⟨hid, _⟩ | hrest
  · rw [hsending] at hid
    cases hid
  · rw [hchannel] at hid
    cases hid
  · exact hrest

/-! ## The counters -/

/-- What the runner does upon an input. -/
def runnerInputs (cfg : Config) (s : State H) (i : Input H) : List (Runner.Input H) :=
  (Subxt.machine H (config cfg)).translate (fun u j => (Subxt.calls (config cfg) u j).getD [])
    s.sink (calls s i)

theorem step_runner (h : step cfg s i = some s') :
    (Runner.machine H (config cfg)).run s.runner (runnerInputs cfg s i) = some s'.runner :=
  Subxt.run_runner (step_sink h)

/-- Only a dropped listener makes the runner see a failure of the monitor. -/
theorem no_failure (h : step cfg s i = some s') (hi : ∀ id, i ≠ .abandoned id) :
    ∀ j ∈ runnerInputs cfg s i, j.isMonitorFailure = false := by
  intro j hj
  obtain ⟨k, hk, u, _, _, hju⟩ := Machine.mem_translate hj
  cases hcalls : Subxt.calls (config cfg) u k with
  | none => simp [hcalls] at hju
  | some js =>
      rw [hcalls, Option.getD_some] at hju
      refine Subxt.calls_failure hcalls ?_ j hju
      rintro id rfl
      cases step_trans h with
      | sink haside =>
          rw [← List.mem_singleton.mp hk] at haside
          cases haside
      | queued | refused => cases List.mem_singleton.mp hk
      | take => cases hk
      | node _ hm =>
          simp only [calls, hm] at hk
          split at hk <;> simp at hk
      | answered hl hr => simp [calls, hl, hr] at hk
      | @abandoned id' => exact hi id' rfl

/-- However the node behaves and whichever tasks fail: as long as the monitor runs, no worker has
been told that its request was dropped, and `buffered` is the number of popped tasks whose
submission has not returned. -/
theorem buffered_monitored (hdistinct : (tasks.map (·.tx.hash)).Nodup)
    (h : (machine H cfg).run (new cfg tasks wall) is = some s)
    (hrun : s.monitor.status = .running) :
    (∀ id, .abandoned id ∉ is) ∧ s.runner.eventCounters.InRange ∧
      s.runner.eventCounters.buffered cfg.overflowChecks = some s.runner.ledger.unreplied := by
  have hrunner : (Runner.machine H (config cfg)).run (Runner.new (config cfg) tasks wall)
      ((machine H cfg).translate (runnerInputs cfg) (new cfg tasks wall) is) = some s.runner :=
    Machine.run_translate (f := State.runner) (fun _ _ _ => step_runner) h
  have hzero : Runner.monitorFailures ((machine H cfg).translate (runnerInputs cfg)
      (new cfg tasks wall) is) = 0 := by
    refine List.countP_eq_zero.mpr fun j hj => ?_
    obtain ⟨i, hi, u, v, hv, hj⟩ := Machine.mem_translate hj
    rw [no_failure hv (fun id he => ?_) j hj]
    · simp
    · exact run_not_abandoned hdistinct h hrun id (he ▸ hi)
  have hcounted := Runner.run_buffered hrunner hzero
  exact ⟨run_not_abandoned hdistinct h hrun, hcounted⟩

theorem buffered_monitored_asked : ∃ s, (machine Nat mortalConfig).run
      (new mortalConfig mortalTasks 0) askedInputs = some s ∧
    s.runner.eventCounters.buffered true = some s.runner.ledger.unreplied := by
  obtain ⟨s, h, he⟩ := Option.map_eq_some_iff.mp asked_reached
  simp only [Prod.mk.injEq] at he
  exact ⟨s, h, (buffered_monitored (by decide) h he.1.1).2.2⟩

/-! ## A node that answers -/

/-- No fetch of a block fails, no item of a stream and no count is an error, and the clock is not
set back. Submissions may fail, and transactions may be dropped. -/
def Ordinary (s : State H) : Input H → Prop
  | .sink (.item _ (some (.error _))) | .sink (.counted (.error _)) => False
  | .sink (.own (.setClock t)) => s.runner.wall ≤ t
  | .node e => e.ordinary = true
  | _ => True

instance (s : State H) (i : Input H) : Decidable (Ordinary s i) := by
  unfold Ordinary
  split <;> infer_instance

/-- `calls` holds what the sink has done so far. -/
structure Sound (cfg : Config) (tasks : List (DefaultTxTask H)) (s : State H) : Prop where
  requests : ∃ ms, Inv tasks ms s ∧ ∀ e ∈ ms, e.ordinary = true
  sink : ∃ past, Subxt.Inv (config cfg) tasks past s.sink

omit [DecidableEq H] in
theorem survivable {j : Subxt.Input H} (hended : s.sink.monitorEnded ≠ true)
    (haside : ofMonitor j = false) (hok : Ordinary s (.sink j)) :
    Subxt.Survivable (config cfg) s.sink j := by
  cases j with
  | own k =>
      cases k with
      | setClock t => exact hok
      | _ => trivial
  | submitted id r =>
      cases r with
      | ok a => exact fun hboth => hended hboth.2
      | error e => trivial
  | item id r =>
      rcases r with _ | (e | status)
      · trivial
      · exact hok
      · trivial
  | counted r =>
      cases r with
      | ok n => trivial
      | error e => exact hok
  | start | watching | count => trivial
  | _ => cases haside

theorem Sound.running (h : Sound cfg tasks s) : s.monitor.status = .running := by
  obtain ⟨ms, hinv, hall⟩ := h.requests
  exact BlockMonitor.run_ordinary hinv.heard hall

theorem Sound.step (h : Sound cfg tasks s) (hdistinct : (tasks.map (·.tx.hash)).Nodup)
    (hok : Ordinary s i) (hs : step cfg s i = some s') : Sound cfg tasks s' := by
  obtain ⟨ms, hinv, hall⟩ := h.requests
  obtain ⟨past, hsink⟩ := h.sink
  have hnext := hinv.step hdistinct hs
  have hevents : ∀ e ∈ ms ++ events s i, e.ordinary = true := by
    intro e he
    rcases List.mem_append.mp he with he | he
    · exact hall e he
    · cases step_trans hs with
      | take hch ht =>
          simp only [events, hch, List.head?_cons, Option.bind_some, ht, List.mem_singleton] at he
          rw [he]
          rfl
      | node =>
          rw [List.mem_singleton.mp he]
          exact hok
      | _ => cases he
  have hended : s.sink.monitorEnded ≠ true := fun he => hinv.ended.mp he h.running
  refine ⟨⟨_, hnext, hevents⟩, ?_⟩
  cases step_trans hs with
  | @sink j u haside hu => exact ⟨past ++ [j], hsink.step (survivable hended haside hok) hu⟩
  | @queued id u _ hu => exact ⟨past ++ [.queued id], hsink.step (i := .queued id) trivial hu⟩
  | refused hu =>
      obtain ⟨js, hjs, _⟩ := Subxt.step_parts hu
      simp only [Subxt.calls, Option.ite_none_right_eq_some] at hjs
      exact absurd hjs.1.2 hended
  | take => exact ⟨past, hsink⟩
  | @node e m _ hm =>
      have hrun : m.status = .running := BlockMonitor.run_ordinary hnext.heard hevents
      refine ⟨past, ?_⟩
      simpa only [State.handled, hrun, ↓reduceIte] using hsink
  | @answered id k r u _ _ hu =>
      exact ⟨past ++ [.answered id r], hsink.step (i := .answered id r) trivial hu⟩
  | abandoned hk _ hclosed =>
      rw [hinv.not_closed hk h.running] at hclosed
      cases hclosed

/-- Over an ordinary node, with distinct transactions and a clock that starts at the epoch or after
it, the monitor runs until `run` returns, `run` does not panic, and a run that has left its loop has
saved its journal. -/
theorem ordinary_survived (hdistinct : (tasks.map (·.tx.hash)).Nodup) (hwall : 0 ≤ wall)
    (hok : (machine H cfg).Meets (fun _ => Ordinary) [] (new cfg tasks wall) is)
    (h : (machine H cfg).run (new cfg tasks wall) is = some s) :
    s.monitor.status = .running ∧ (∀ why, s.runner.phase ≠ .panicked why) ∧
      (∀ how, s.runner.phase = .reporting how ∨ s.runner.phase = .returned how →
        s.runner.journal = some s.runner.logs) := by
  have hstep : ∀ (past : List (Input H)) (u : State H) i v, Sound cfg tasks u → Ordinary u i →
      (machine H cfg).step u i = some v → Sound cfg tasks v :=
    fun _ _ _ _ hsound hord hs => hsound.step hdistinct hord hs
  have h₀ : Sound cfg tasks (new cfg tasks wall) :=
    ⟨⟨[], new_inv, fun _ he => by cases he⟩, ⟨[], Subxt.new_inv hwall⟩⟩
  have hsound := Machine.Meets.invariant hstep h₀ hok h
  obtain ⟨_, hsink⟩ := hsound.sink
  exact ⟨hsound.running, hsink.healthy.alive, hsink.saved⟩

theorem ordinary_survived_mortal : ∃ s, (machine Nat mortalConfig).run
      (new mortalConfig mortalTasks 0) askedInputs = some s ∧ s.monitor.status = .running := by
  obtain ⟨s, h, _⟩ := Option.map_eq_some_iff.mp asked_reached
  exact ⟨s, h, (ordinary_survived (by decide) (Int.le_refl 0) (by decide +kernel) h).1⟩

end TxTestTool.Monitored
