import TxTestTool.Monitored.Lemmas.Requests
import TxTestTool.Runner.Lemmas.Answers

/-!
# What the workers are told
-/

namespace TxTestTool.Monitored

open Runner (Config)
open BlockMonitor (finalizedBlocks registrations decides verdict)

variable {H : Type*} [DecidableEq H] {cfg : Config} {tasks : List (DefaultTxTask H)}
  {wall : SystemTime} {is : List (Input H)} {s s' : State H} {i : Input H}
  {ms : List (BlockMonitor.Event H)} {u : Subxt.State H} {t : DefaultTxTask H}

/-- Of the blocks finalized since the monitor took the request for `t`, `block` is the first that
decides about it. -/
def DecidedBy (ms : List (BlockMonitor.Event H)) (t : DefaultTxTask H) (block : Block H) : Prop :=
  ∃ before after, ms = before ++ .request t.tx.hash t.tx.validUntil :: after ∧
    (finalizedBlocks after).find? (decides t.tx.hash t.tx.validUntil) = some block

/-- The monitor has taken the request for `t`, and no block finalized since decides about it. -/
def Undecided (ms : List (BlockMonitor.Event H)) (t : DefaultTxTask H) : Prop :=
  ∃ before after, ms = before ++ .request t.tx.hash t.tx.validUntil :: after ∧
    (finalizedBlocks after).find? (decides t.tx.hash t.tx.validUntil) = none

theorem DecidedBy.append {block : Block H} (h : DecidedBy ms t block)
    (es : List (BlockMonitor.Event H)) : DecidedBy (ms ++ es) t block := by
  obtain ⟨before, after, rfl, hfind⟩ := h
  refine ⟨before, after ++ es, by simp, ?_⟩
  rw [BlockMonitor.finalizedBlocks_append, List.find?_append, hfind]
  rfl

/-- The answer `r` about the transaction `a` is the verdict of the block that decides about it. -/
def Founded (tasks : List (DefaultTxTask H)) (ms : List (BlockMonitor.Event H)) (a : H)
    (r : Except BlockNumber H) : Prop :=
  ∃ t ∈ tasks, t.tx.hash = a ∧ ∃ block, DecidedBy ms t block ∧
    verdict t.tx.hash block = r.mapError .mortalLifetimeSurpassed

omit [DecidableEq H] in
theorem told_sent {c : Channel H} {r : Except BlockNumber H} (h : told c = some r) :
    ∃ rest, c.sent = r.mapError .mortalLifetimeSurpassed :: rest := by
  unfold told at h
  split at h <;> cases h <;> exact ⟨_, ‹_›⟩

theorem told_verdict {c : Channel H} {hash : H} {block : Block H}
    (h : c.sent = [verdict hash block]) :
    ∃ r, told c = some r ∧ verdict hash block = r.mapError .mortalLifetimeSurpassed := by
  unfold verdict at h ⊢
  by_cases hin : hash ∈ block.hashes
  · rw [if_pos hin] at h ⊢
    exact ⟨.ok block.hash, by rw [told, h], rfl⟩
  · rw [if_neg hin] at h ⊢
    exact ⟨.error block.number, by rw [told, h], rfl⟩

theorem Inv.task_mem {id : Nat} (h : Inv tasks ms s) (ht : s.runner.popped[id]? = some t) :
    t ∈ tasks := by
  have horder : s.runner.popped ++ s.runner.transactions.reverse = tasks.reverse :=
    h.good.inv.order
  have hmem : t ∈ tasks.reverse := horder ▸ List.mem_append_left _ (List.mem_of_getElem? ht)
  exact List.mem_reverse.mp hmem

/-- What the monitor has told the worker whose request it took as the `k`-th. -/
theorem Inv.served {id k : Nat} (h : Inv tasks ms s) (hk : s.listeners.lookup id = some k) :
    ∃ t before after, s.runner.popped[id]? = some t ∧
      ms = before ++ .request t.tx.hash t.tx.validUntil :: after ∧
      BlockMonitor.Served t.tx.hash t.tx.validUntil k (finalizedBlocks after) s.monitor := by
  obtain ⟨t, before, after, ht, rfl, rfl⟩ := h.taken id k hk
  exact ⟨t, before, after, ht, rfl,
    BlockMonitor.run_served h.undisturbed (BlockMonitor.registered_once h.once) h.heard⟩

theorem Inv.founded {id k : Nat} {r : Except BlockNumber H} (h : Inv tasks ms s)
    (hk : s.listeners.lookup id = some k) (hr : told (s.monitor.channels k) = some r) :
    ∃ t, s.runner.popped[id]? = some t ∧ Founded tasks ms t.tx.hash r := by
  obtain ⟨t, before, after, ht, hms, hserved⟩ := h.served hk
  obtain ⟨rest, hsent⟩ := told_sent hr
  rcases hserved.sent with hnone | ⟨block, hfind, hone⟩
  · rw [hnone] at hsent
    cases hsent
  · rw [hone, List.cons.injEq] at hsent
    exact ⟨t, ht, t, h.task_mem ht, rfl, block, ⟨before, after, hms, hfind⟩, hsent.1⟩

/-- As long as the monitor runs it drops no listener. -/
theorem Inv.not_closed {id k : Nat} (h : Inv tasks ms s) (hk : s.listeners.lookup id = some k)
    (hrun : s.monitor.status = .running) : (s.monitor.channels k).closed = false := by
  obtain ⟨_, _, _, _, _, hserved⟩ := h.served hk
  exact (hserved.follows hrun).opened

/-! ## The records of a run -/

/-- The submission of the task popped as the `id`-th failed, or its listener was dropped. -/
def Failed (is : List (Input H)) (id : Nat) : Prop :=
  (∃ msg, .sink (.submitted id (.error msg)) ∈ is) ∨ .abandoned id ∈ is

theorem Inv.tells_answered {id k : Nat} {r : Except BlockNumber H} (h : Inv tasks ms s)
    (hk : s.listeners.lookup id = some k) (hr : told (s.monitor.channels k) = some r) :
    Runner.Tells (Founded tasks ms) (Failed is) s.runner (.poll id (answerReply r)) := by
  refine ⟨fun id' r' w he hw => ?_, fun _ e he => ?_, fun id' r' he hf => ?_⟩
  · obtain ⟨t, ht, hfounded⟩ := h.founded hk hr
    simp only [Runner.Input.poll.injEq, answerReply, Reply.wait.injEq] at he
    obtain ⟨rfl, he⟩ := he
    have hsame : r = r' := by
      cases r <;> cases r' <;> simp_all [Except.mapError]
    have hfresh : s.runner.popped[id]? = some w.task := h.good.inv.fresh id w hw
    rw [ht, Option.some.injEq] at hfresh
    rw [← hfresh, ← hsame]
    exact hfounded
  · cases he
  · simp only [Runner.Input.poll.injEq] at he
    obtain ⟨_, rfl⟩ := he
    cases r <;> cases hf

theorem tells_abandoned {id : Nat} (hid : .abandoned id ∈ is) :
    Runner.Tells (Founded tasks ms) (Failed is) s.runner
      (.poll id (.wait (.error Subxt.closedError))) := by
  refine ⟨fun _ r w he _ => ?_, fun _ e he => ?_, fun id' r he _ => ?_⟩
  · cases r <;> simp [answerReply, Except.mapError, Subxt.closedError] at he
  · cases he
  · simp only [Runner.Input.poll.injEq] at he
    exact Or.inr (he.1 ▸ hid)

theorem step_records (hinv : Inv tasks ms s) (hi : i ∈ is) (hs : step cfg s i = some s')
    (h : Runner.Recorded (Founded tasks ms) (Failed is) s.runner) :
    Runner.Recorded (Founded tasks (ms ++ events s i)) (Failed is) s'.runner := by
  have hmore : ∀ a r, Founded tasks ms a r → Founded tasks (ms ++ events s i) a r := by
    rintro a r ⟨t, ht, ha, block, hdecided, hr⟩
    exact ⟨t, ht, ha, block, hdecided.append _, hr⟩
  have hone : ∀ {j} {v : Subxt.State H},
      (Runner.machine H (config cfg)).run s.runner [j] = some v.runner →
      Runner.Tells (Founded tasks ms) (Failed is) s.runner j →
      Runner.Recorded (Founded tasks (ms ++ events s i)) (Failed is) v.runner := by
    intro j v hrun htells
    obtain ⟨r, hr, hnil⟩ := Machine.run_cons.mp hrun
    cases hnil
    have hstep : Runner.step (config cfg) s.runner j = some v.runner := hr
    exact ((Runner.step_trans hstep).recorded rfl hinv.good h htells).mono hmore
  cases step_trans hs with
  | sink haside hu =>
      obtain ⟨js, hjs, hrun, _⟩ := Subxt.step_parts hu
      obtain ⟨hwait, _, hrefused⟩ := Subxt.calls_aside haside hjs
      refine (Runner.run_unanswered rfl hinv.good hrun hwait (fun id e he => ?_) h).mono hmore
      obtain ⟨msg, rfl⟩ := hrefused id e he
      exact Or.inl ⟨msg, hi⟩
  | queued _ hu =>
      obtain ⟨js, hjs, hrun, _⟩ := Subxt.step_parts hu
      simp only [Subxt.calls, Option.ite_none_right_eq_some, Option.some.injEq] at hjs
      obtain ⟨_, rfl⟩ := hjs
      exact (Runner.run_unanswered rfl hinv.good hrun (by simp) (by simp) h).mono hmore
  | refused hu =>
      obtain ⟨js, hjs, hrun, _⟩ := Subxt.step_parts hu
      simp only [Subxt.calls, Option.ite_none_right_eq_some, Option.some.injEq] at hjs
      obtain ⟨_, rfl⟩ := hjs
      exact (Runner.run_unanswered rfl hinv.good hrun (by simp) (by simp) h).mono hmore
  | take => exact h.mono hmore
  | node =>
      simp only [State.handled, State.runner]
      split <;> exact h.mono hmore
  | answered hk hr hu =>
      obtain ⟨js, hjs, hrun, _⟩ := Subxt.step_parts hu
      simp only [Subxt.calls, Option.ite_none_left_eq_some, Option.some.injEq] at hjs
      obtain ⟨_, rfl⟩ := hjs
      exact hone hrun (hinv.tells_answered hk hr)
  | abandoned _ _ _ hu =>
      obtain ⟨js, hjs, hrun, _⟩ := Subxt.step_parts hu
      simp only [Subxt.calls, Option.ite_none_left_eq_some, Option.some.injEq] at hjs
      obtain ⟨_, rfl⟩ := hjs
      exact hone hrun (tells_abandoned hi)

theorem run_records (hdistinct : (tasks.map (·.tx.hash)).Nodup)
    (h : (machine H cfg).run (new cfg tasks wall) is = some s) :
    Runner.Recorded (Founded tasks (monitorEvents cfg tasks wall is)) (Failed is) s.runner := by
  let Records : List (BlockMonitor.Event H) → State H → Prop := fun past v =>
    Inv tasks past v ∧ Runner.Recorded (Founded tasks past) (Failed is) v.runner
  have hstep : ∀ past (v w : State H), ∀ i ∈ is, Records past v →
      (machine H cfg).step v i = some w → Records (past ++ events v i) w :=
    fun _ _ _ _ hi ⟨hinv, hrec⟩ hs => ⟨hinv.step hdistinct hs, step_records hinv hi hs hrec⟩
  have h₀ : Records [] (new cfg tasks wall) := ⟨new_inv, Runner.new_recorded⟩
  exact (Machine.translate_invariant_of_mem hstep h₀ h).2

/-! ## As long as the monitor runs -/

/-- A monitor that has ended stays so. -/
theorem step_running (h : step cfg s i = some s') (hrun : s'.monitor.status = .running) :
    s.monitor.status = .running :=
  BlockMonitor.run_running (step_monitor h) hrun

theorem run_not_abandoned (hdistinct : (tasks.map (·.tx.hash)).Nodup)
    (h : (machine H cfg).run (new cfg tasks wall) is = some s)
    (hrun : s.monitor.status = .running) (id : Nat) : .abandoned id ∉ is := by
  let Kept : List (Input H) → State H → Prop := fun past u =>
    (∃ ms, Inv tasks ms u) ∧ (u.monitor.status = .running → .abandoned id ∉ past)
  have hstep : ∀ past (u : State H) i v, Kept past u → (machine H cfg).step u i = some v →
      Kept (past ++ [i]) v := by
    rintro past u i v ⟨⟨ms, hinv⟩, hnone⟩ hs
    refine ⟨⟨_, hinv.step hdistinct hs⟩, fun hlive hid => ?_⟩
    have hbefore := step_running hs hlive
    rcases List.mem_append.mp hid with hid | hid
    · exact hnone hbefore hid
    · have hs : step cfg u (.abandoned id) = some v := List.mem_singleton.mp hid ▸ hs
      cases step_trans hs with
      | abandoned hk _ hclosed =>
          rw [hinv.not_closed hk hbefore] at hclosed
          cases hclosed
  have h₀ : Kept [] (new cfg tasks wall) := ⟨⟨[], new_inv⟩, fun _ => List.not_mem_nil⟩
  exact (Machine.run_history_invariant hstep h₀ h).2 hrun

end TxTestTool.Monitored
