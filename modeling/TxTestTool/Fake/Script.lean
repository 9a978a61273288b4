import TxTestTool.Fake.Sink

/-!
# A task against its script

What every poll of a worker leads to: the replies so far are the beginning of those that the script
stands for, and the worker ends with the outcome of the script.
-/

namespace TxTestTool.Fake

/-! ## The verdict of a script -/

namespace FakeTask

variable {t : FakeTask} {streamDef seen rest : EventsStreamDef} {event : TransactionStatus FakeHash}
  {delay : Nat}

theorem script_eq (hd : t.tx.getCurrentStreamDef = some streamDef) :
    t.script = streamDef.map EventDef.event := by
  rw [script, hd]
  rfl

theorem verdict_watched (hw : t.watched = true)
    (hd : t.tx.getCurrentStreamDef = some (seen ++ ⟨event, delay⟩ :: rest))
    (hn : ∀ d ∈ seen, d.event.isTerminal = false) (ht : event.isTerminal = true) :
    t.verdict = some event := by
  have hseen : (seen.map EventDef.event).find? (·.isTerminal) = none := by
    simpa using hn
  rw [verdict, if_pos hw, script_eq hd, List.map_append, List.find?_append, hseen,
    List.map_cons, List.find?_cons_of_pos ht]
  rfl

theorem verdict_unwatched (hw : t.watched = false)
    (he : t.tx.submitEvent = some ⟨event, delay⟩) : t.verdict = some event := by
  obtain ⟨streamDef, hd, hlast⟩ := Option.bind_eq_some_iff.mp he
  rw [verdict, if_neg (by simp [hw]), script_eq hd, List.getLast?_map, hlast]
  rfl

/-- A stream without a terminal status decides nothing. -/
theorem verdict_none (hw : t.watched = true) (hd : t.tx.getCurrentStreamDef = some streamDef)
    (hn : ∀ d ∈ streamDef, d.event.isTerminal = false) : t.verdict = none := by
  rw [verdict, if_pos hw, script_eq hd]
  simpa using hn

theorem leaks_eq (hw : t.watched = true) : t.leaks = t.verdict.isNone := by
  rw [leaks, hw, verdict, if_pos hw, Bool.true_and]
  cases hf : t.script.find? (·.isTerminal) with
  | none =>
      have hnone : t.script.any (·.isTerminal) = false := by
        rw [List.any_eq_false]
        exact List.find?_eq_none.mp hf
      rw [hnone]
      rfl
  | some status =>
      have hsome : t.script.any (·.isTerminal) = true :=
        List.any_eq_true.mpr ⟨status, List.mem_of_find?_eq_some hf, List.find?_some hf⟩
      rw [hsome]
      rfl

theorem leaks_unwatched (hw : t.watched = false) : t.leaks = false := by
  rw [leaks, hw]
  rfl

theorem outcome_of_verdict (h : t.verdict = some event) :
    t.outcome = if event.isFinalized then .done t.tx.hash else .error t.tx.hash := by
  rw [outcome, succeeds, h]
  rfl

theorem outcome_of_none (h : t.verdict = none) : t.outcome = .error t.tx.hash := by
  rw [outcome, succeeds, h]
  rfl

theorem replies_watched (hw : t.watched = true)
    (hd : t.tx.getCurrentStreamDef = some streamDef) : t.replies =
      .start :: .submitAndWatch (.ok ()) ::
        (streamDef.map (fun d => .next (some d.event)) ++ [.next none]) := by
  rw [replies, if_pos hw, script_eq hd, DefaultTxTask.watchReplies, List.map_map]
  rfl

end FakeTask

/-! ## Where a call is -/

/-- The replies of a stream of which `seen` has been played. -/
def played (seen : EventsStreamDef) : List (Reply FakeHash) :=
  .start :: .submitAndWatch (.ok ()) :: seen.map fun d => .next (some d.event)

/-- A worker that has had `replies` waits at a point, in a call. -/
inductive Waits (t : FakeTask) : AwaitPoint → Option Call → List (Reply FakeHash) → Prop
  | created {call} : Waits t .created call []
  | submitting {deadline event delay} (hw : t.watched = false)
      (he : t.tx.submitEvent = some ⟨event, delay⟩) :
      Waits t .submitting (some (.submitting deadline event)) [.start]
  | yielded {seen rest} (hw : t.watched = true)
      (hd : t.tx.getCurrentStreamDef = some (seen ++ rest))
      (hn : ∀ d ∈ seen, d.event.isTerminal = false) :
      Waits t .streaming (some (.yielded rest)) (played seen)
  | sleeping {deadline event delay seen rest} (hw : t.watched = true)
      (hd : t.tx.getCurrentStreamDef = some (seen ++ ⟨event, delay⟩ :: rest))
      (hn : ∀ d ∈ seen, d.event.isTerminal = false) :
      Waits t .streaming (some (.sleeping deadline event rest)) (played seen)

theorem Waits.created_replies {t : FakeTask} {call : Option Call} {rs : List (Reply FakeHash)}
    (h : Waits t .created call rs) : rs = [] := by
  cases h
  rfl

/-- What the poll `p` does to a worker of `t` that waits at `a` and has had `rs`. -/
inductive Leads (t : FakeTask) (a : AwaitPoint) (rs : List (Reply FakeHash))
    (txs : Finset FakeHash) (p : Polled) : Prop
  | waits {b call}
      (hq : p.replies.foldlM (t.toTask.advance false) (.pending a) = some (.pending b))
      (hb : b ≠ .created) (hcall : p.call = some call)
      (hw : Waits t b (some call) (rs ++ p.replies))
      (htxs : p.txs = if a = .created then insert t.tx.hash txs else txs)
  | ends (hq : p.replies.foldlM (t.toTask.advance false) (.pending a) = some (.ready t.outcome))
      (hcall : p.call = none) (hpre : rs ++ p.replies <+: t.replies)
      (hlate : t.leaks = true → a ≠ .created)
      (htxs : p.txs = if t.leaks then txs else txs.erase t.tx.hash)
  | panics (hq : p.replies.foldlM (t.toTask.advance false) (.pending a) = some .panicked)
      (hun : ¬ t.Playable) (htxs : p.txs = if a = .created then insert t.tx.hash txs else txs)

variable {t : FakeTask} {txs : Finset FakeHash} {now : Nat}

theorem delivered_leads {event : TransactionStatus FakeHash} {delay : Nat}
    {seen rest : EventsStreamDef} (hw : t.watched = true)
    (hd : t.tx.getCurrentStreamDef = some (seen ++ ⟨event, delay⟩ :: rest))
    (hn : ∀ d ∈ seen, d.event.isTerminal = false) :
    Leads t .streaming (played seen) txs (delivered t event rest txs) := by
  have hstep : t.toTask.advance false (.pending .streaming) (.next (some event)) =
      some (if event.isFinalized then .ready (.done t.tx.hash)
        else if event.isError then .ready (.error t.tx.hash) else .pending .streaming) := by
    simp [DefaultTxTask.advance, DefaultTxTask.execute, FakeTask.toTask, hw,
      DefaultTxTask.sendWatchedTx, FakeTransaction.toTransaction]
  unfold delivered
  split
  · rename_i hterm
    have hverdict := FakeTask.verdict_watched hw hd hn hterm
    refine .ends ?_ rfl ?_ (by simp) ?_
    · simp only [List.foldlM_cons, hstep, List.foldlM_nil, Option.bind_eq_bind,
        Option.bind_some, Option.pure_def, FakeTask.outcome_of_verdict hverdict]
      rw [TransactionStatus.isTerminal_eq] at hterm
      cases hf : event.isFinalized with
      | true => rfl
      | false =>
          rw [hf, Bool.false_or] at hterm
          simp [hterm]
    · rw [FakeTask.replies_watched hw hd, played]
      simp
    · rw [FakeTask.leaks_eq hw, hverdict]
      rfl
  · rename_i hterm
    have hnot : event.isTerminal = false := by simpa using hterm
    have hboth := hnot
    rw [TransactionStatus.isTerminal_eq, Bool.or_eq_false_iff] at hboth
    refine .waits (b := .streaming) ?_ (by simp) rfl ?_ (by simp)
    · simp [hstep, hboth.1, hboth.2]
    · have hseen : ∀ d ∈ seen ++ [⟨event, delay⟩], d.event.isTerminal = false := by
        intro d hd
        rcases List.mem_append.mp hd with hd | hd
        · exact hn d hd
        · rw [List.mem_singleton.mp hd]
          exact hnot
      have hplayed : played seen ++ [.next (some event)] = played (seen ++ [⟨event, delay⟩]) := by
        simp [played]
      rw [hplayed]
      exact .yielded hw (by simpa using hd) hseen

theorem start_advance : t.toTask.advance false (.pending .created) .start =
    some (.pending .submitting) := by
  cases hw : t.watched <;> simp [DefaultTxTask.advance, DefaultTxTask.execute, FakeTask.toTask, hw,
    DefaultTxTask.sendTx, DefaultTxTask.sendWatchedTx]

theorem panic_advance : t.toTask.advance false (.pending .submitting) .panic = some .panicked := by
  cases hw : t.watched <;> simp [DefaultTxTask.advance, DefaultTxTask.execute, FakeTask.toTask, hw,
    DefaultTxTask.sendTx, DefaultTxTask.sendWatchedTx]

/-- The end of a submission, in the first poll or after its sleep. -/
theorem submitted_leads {event : TransactionStatus FakeHash} {delay : Nat} {a : AwaitPoint}
    {rs before : List (Reply FakeHash)} {txs' : Finset FakeHash} (hw : t.watched = false)
    (he : t.tx.submitEvent = some ⟨event, delay⟩)
    (hbefore : before.foldlM (t.toTask.advance false) (.pending a) = some (.pending .submitting))
    (hrs : rs ++ before = [.start])
    (htxs : txs' = if a = .created then insert t.tx.hash txs else txs) :
    Leads t a rs txs (submitted t event txs' before) := by
  have hverdict := FakeTask.verdict_unwatched hw he
  unfold submitted
  cases hr : t.tx.submitResult event with
  | none =>
      refine .panics ?_ ?_ htxs
      · rw [List.foldlM_append, hbefore]
        simp [panic_advance]
      · rintro ⟨_, hplay⟩
        have hterm := hplay hw
        rw [hverdict, Option.any_some, ← t.tx.submitResult_isSome event, hr] at hterm
        cases hterm
  | some r =>
      have hlast : t.toTask.advance false (.pending .submitting) (.submit r) =
          some (.ready t.outcome) := by
        rw [FakeTask.outcome_of_verdict hverdict]
        cases event <;> simp only [FakeTransaction.submitResult, Option.some.injEq,
          reduceCtorEq] at hr <;> subst hr <;>
          simp [DefaultTxTask.advance, DefaultTxTask.execute, FakeTask.toTask, hw,
            DefaultTxTask.sendTx, TransactionStatus.isFinalized, FakeTransaction.toTransaction]
      have hnot := FakeTask.leaks_unwatched hw
      refine .ends ?_ rfl ?_ (fun hl => by rw [hnot] at hl; cases hl) ?_
      · rw [List.foldlM_append, hbefore]
        simp [hlast]
      · rw [← List.append_assoc, hrs]
        simp [FakeTask.replies, hw, he, hr]
      · have herase : txs'.erase t.tx.hash = txs.erase t.tx.hash := by
          rw [htxs]
          split
          · exact Finset.erase_insert_eq_erase _ _
          · rfl
        rw [hnot]
        exact herase

theorem firstPoll_leads : Leads t .created [] txs (firstPoll t now txs) := by
  unfold firstPoll
  cases hw : t.watched with
  | true =>
      cases hd : t.tx.getCurrentStreamDef with
      | none =>
          refine .panics ?_ (fun hplay => ?_) (by simp)
          · simp [start_advance, panic_advance]
          · rw [FakeTask.Playable, hd] at hplay
            cases hplay.1
      | some streamDef =>
          refine .waits (b := .streaming) ?_ (by simp) rfl ?_ (by simp)
          · simp [DefaultTxTask.advance, DefaultTxTask.execute, FakeTask.toTask, hw,
              DefaultTxTask.sendWatchedTx]
          · exact @Waits.yielded t [] streamDef hw hd (by simp)
  | false =>
      cases he : t.tx.submitEvent with
      | none =>
          refine .panics ?_ (fun hplay => ?_) (by simp)
          · simp [start_advance, panic_advance]
          · have hterm := hplay.2 hw
            obtain ⟨streamDef, hd⟩ := Option.isSome_iff_exists.mp hplay.1
            have hlast : streamDef.getLast? = none := by
              simpa [FakeTransaction.submitEvent, hd] using he
            rw [FakeTask.verdict, if_neg (by simp [hw]), FakeTask.script_eq hd, List.getLast?_map,
              hlast] at hterm
            cases hterm
      | some e =>
          obtain ⟨event, delay⟩ := e
          simp only [Bool.false_eq_true, ↓reduceIte]
          split
          · refine .waits (b := .submitting) ?_ (by simp) rfl (.submitting hw he) (by simp)
            simp [start_advance]
          · refine submitted_leads hw he ?_ rfl (by simp)
            simp [start_advance]

theorem nextPoll_leads {a : AwaitPoint} {call : Call} {rs : List (Reply FakeHash)} {p : Polled}
    (h : Waits t a (some call) rs) (ha : a ≠ .created) (hp : nextPoll t now txs call = some p) :
    Leads t a rs txs p := by
  cases h with
  | created => exact absurd rfl ha
  | @submitting deadline event delay hw he =>
      simp only [nextPoll, Option.ite_none_right_eq_some, Option.some.injEq] at hp
      obtain ⟨_, rfl⟩ := hp
      exact submitted_leads hw he rfl rfl (by simp)
  | @yielded seen rest hw hd hn =>
      cases rest with
      | nil =>
          simp only [nextPoll, Option.some.injEq] at hp
          subst hp
          rw [List.append_nil] at hd
          have hverdict := FakeTask.verdict_none hw hd hn
          refine .ends ?_ rfl ?_ (by simp) ?_
          · rw [FakeTask.outcome_of_none hverdict]
            simp [DefaultTxTask.advance, DefaultTxTask.execute, FakeTask.toTask, hw,
              DefaultTxTask.sendWatchedTx, FakeTransaction.toTransaction]
          · rw [FakeTask.replies_watched hw hd, played]
            simp
          · rw [FakeTask.leaks_eq hw, hverdict]
            rfl
      | cons d rest =>
          obtain ⟨event, delay⟩ := d
          simp only [nextPoll] at hp
          split at hp <;> simp only [Option.some.injEq] at hp <;> subst hp
          · refine .waits (b := .streaming) rfl (by simp) rfl ?_ (by simp)
            rw [List.append_nil]
            exact .sleeping hw hd hn
          · exact delivered_leads hw hd hn
  | @sleeping deadline event delay seen rest hw hd hn =>
      simp only [nextPoll, Option.ite_none_right_eq_some, Option.some.injEq] at hp
      obtain ⟨_, rfl⟩ := hp
      exact delivered_leads hw hd hn

end TxTestTool.Fake
