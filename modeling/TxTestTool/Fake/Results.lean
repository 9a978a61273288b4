import TxTestTool.Fake.Pending

/-!
# The results of a run over the fake sink

What a run returns depends on the scripts of its tasks alone, whatever the schedule was.
-/

namespace TxTestTool.Fake

open Runner (Config oneAtATime)

variable {cfg : Config} {tasks : List FakeTask} {wall : SystemTime} {is : List Input}
  {s s' : State} {i : Input} {js : List (Runner.Input FakeHash)}

/-! ## No task is left behind -/

/-- Without a worker only the transactions of leaking streams are pending. -/
theorem Scripted.card_le (h : Scripted tasks js s) (hw : s.runner.workers.entries = []) :
    s.txs.card ≤ (tasks.filter (·.leaks)).length := by
  have hsub : s.txs ⊆ ((tasks.filter (·.leaks)).map (·.tx.hash)).toFinset := by
    intro a ha
    rw [List.mem_toFinset]
    cases h.present a ha with
    | worker hlook =>
        rw [AList.lookup, hw] at hlook
        cases hlook
    | leaked hf ht hl hh =>
        exact List.mem_map.mpr ⟨_, List.mem_filter.mpr ⟨taskOf_mem ht, hl⟩, hh⟩
  have hcard := (Finset.card_le_card hsub).trans (List.toFinset_card_le _)
  rwa [List.length_map] at hcard

theorem run_fed (hleak : (tasks.filter (·.leaks)).length < cfg.sendThreshold)
    (h : (machine cfg tasks).run (new cfg tasks wall) is = some s) (halive : s.Alive) :
    s.runner.Fed := by
  let Both : State → Prop := fun s => (∃ js, Inv cfg tasks wall js s) ∧ (s.Alive → s.runner.Fed)
  have hstep : ∀ s i t, Both s → (machine cfg tasks).step s i = some t → Both t := by
    rintro s i t ⟨⟨js, hinv⟩, hfed⟩ hs
    refine ⟨⟨_, hinv.step hs⟩, fun hlive => ?_⟩
    cases step_trans hs with
    | @own j r hown hr =>
        have htrans := Runner.step_trans hr
        have hroom : Runner.RoomWhenIdle (config cfg) s.runner j := by
          cases j with
          | pendingExtrinsics => cases hown
          | _ => trivial
        exact htrans.fed (hfed (htrans.alive_before hlive)) hroom
    | count hr =>
        have htrans := Runner.step_trans hr
        have hbefore := htrans.alive_before hlive
        refine htrans.fed (hfed hbefore) ?_
        intro _ hw _ b hb
        have hzero : s.runner.ledger.unreplied = 0 := by
          simp [Runner.Ledger.unreplied, Runner.State.ledger, AList.values, hw]
        have hbuf : b = 0 := by
          have hexact := hinv.reached.buffered
          rw [hzero] at hexact
          rw [show s.runner.eventCounters.buffered (config cfg).overflowChecks = some 0 from
            hexact] at hb
          cases hb
          rfl
        have hcard := (hinv.scripted hbefore).card_le hw
        show s.txs.card + b < cfg.sendThreshold
        omega
    | @poll id w p _ hp hw hpolled hfollow =>
        have hbefore : s.Alive := fun why => by rw [hp]; simp
        obtain ⟨r, hr, rfl⟩ := Option.map_eq_some_iff.mp hfollow
        refine Machine.run_invariant_of_mem (fun u v j hj hu hv => ?_) (hfed hbefore) hr
        obtain ⟨x, _, rfl⟩ := List.mem_map.mp hj
        have hx : Runner.step (config cfg) u (.poll id x) = some v := hv
        exact (Runner.step_trans hx).fed hu trivial
  have h₀ : Both (new cfg tasks wall) := by
    refine ⟨⟨[], new_inv⟩, fun _ => ?_⟩
    exact Or.inl (Nat.zero_lt_of_lt hleak)
  exact (Machine.run_invariant hstep h₀ h).2 halive

/-! ## The results by the scripts -/

/-- The elements of a list, collected by their indices. -/
theorem filterMap_range {α β : Type*} (l : List α) (g : α → Option β) :
    (List.range l.length).filterMap (fun i => l[i]?.bind g) = l.filterMap g := by
  induction l with
  | nil => rfl
  | cons a l ih =>
      rw [List.length_cons, List.range_succ_eq_map, List.filterMap_cons, List.filterMap_map]
      have htail : (fun i => (a :: l)[i]?.bind g) ∘ Nat.succ = fun i => l[i]?.bind g := by
        funext i
        simp
      rw [htail, ih]
      simp [List.filterMap_cons]

/-- What `g` selects is what `p` selects, mapped by `k`. -/
theorem filterMap_eq_filter {α β : Type*} {p : α → Bool} {k : α → β} {g : α → Option β}
    (h : ∀ a, g a = if p a then some (k a) else none) (l : List α) :
    l.filterMap g = (l.filter p).map k := by
  rw [← List.filterMap_eq_map, List.filterMap_filter]
  exact List.filterMap_congr fun a _ => h a

theorem outcome_done (t : FakeTask) : Runner.ExecutionResult.doneHash t.outcome =
    if t.succeeds then some t.tx.hash else none := by
  unfold FakeTask.outcome
  split <;> rfl

theorem outcome_error (t : FakeTask) : Runner.ExecutionResult.errorHash t.outcome =
    if !t.succeeds then some t.tx.hash else none := by
  unfold FakeTask.outcome
  cases t.succeeds <;> rfl

/-- When every task has a result, the results are those of the scripts. -/
theorem Scripted.results_perm {β : Type*} (h : Scripted tasks js s)
    (hplaced : s.runner.ledger.Placed) (hw : s.runner.workers.entries = [])
    (hall : s.runner.popped.length = tasks.length) (f : ExecutionResult FakeHash → Option β) :
    ((s.runner.finished.map Prod.snd).filterMap f).Perm (tasks.filterMap fun t => f t.outcome) := by
  have hids : (s.runner.finished.map Prod.fst).Perm (List.range tasks.length) := by
    have hkeys : s.runner.workers.keys = [] := by
      simp [AList.keys, List.keys, hw]
    have hperm : (s.runner.workers.keys ++ s.runner.finished.map Prod.fst).Perm
        (List.range s.runner.popped.length) := hplaced
    rwa [hkeys, List.nil_append, hall] at hperm
  have houtcome : s.runner.finished.filterMap (fun p => f p.2) =
      s.runner.finished.filterMap (fun p => (taskOf tasks p.1).bind fun t => f t.outcome) := by
    refine List.filterMap_congr fun p hp => ?_
    obtain ⟨t, ht, hresult, _⟩ := h.ended p.1 p.2 hp
    rw [ht, Option.bind_some, hresult]
  have hsnd : (s.runner.finished.map Prod.snd).filterMap f =
      s.runner.finished.filterMap (fun p => f p.2) := List.filterMap_map
  have hfst : s.runner.finished.filterMap
      (fun p => (taskOf tasks p.1).bind fun t => f t.outcome) =
      (s.runner.finished.map Prod.fst).filterMap
        (fun id => (taskOf tasks id).bind fun t => f t.outcome) := by
    rw [List.filterMap_map]
    rfl
  rw [hsnd, houtcome, hfst]
  refine (hids.filterMap _).trans ?_
  have hrange := filterMap_range tasks.reverse fun t => f t.outcome
  rw [List.length_reverse] at hrange
  rw [show (List.range tasks.length).filterMap
    (fun id => (taskOf tasks id).bind fun t => f t.outcome) =
      tasks.reverse.filterMap fun t => f t.outcome from hrange]
  exact (List.reverse_perm tasks).filterMap _

theorem alive_of_leftBy (hexit : s.runner.phase.leftBy .allDone) : s.Alive := by
  intro why hph
  rcases hexit with hp | hp | hp <;> rw [hp] at hph <;> cases hph

theorem run_emptied (hleak : (tasks.filter (·.leaks)).length < cfg.sendThreshold)
    (h : (machine cfg tasks).run (new cfg tasks wall) is = some s)
    (hexit : s.runner.phase.leftBy .allDone) :
    s.runner.workers.entries = [] ∧ s.runner.transactions = [] := by
  have hfed := run_fed hleak h (alive_of_leftBy hexit)
  unfold Runner.State.Fed at hfed
  rcases hexit with hp | hp | hp <;> rw [hp] at hfed <;> exact hfed

/-- When nothing waits and nothing is under way, the runner's lists are those of the scripts. -/
theorem Inv.classified (hinv : Inv cfg tasks wall js s) (hexit : s.runner.phase.leftBy .allDone)
    (hw : s.runner.workers.entries = []) (ht : s.runner.transactions = []) :
    s.runner.done.Perm ((tasks.filter (·.succeeds)).map (·.tx.hash)) ∧
      s.runner.errors.Perm ((tasks.filter (!·.succeeds)).map (·.tx.hash)) := by
  have hgood := hinv.reached.good
  have hscripted := hinv.scripted (alive_of_leftBy hexit)
  have hheld : s.runner.held = none := by
    rcases hexit with hp | hp | hp <;> exact hgood.idle (by rw [hp]; rfl)
  have hall : s.runner.popped.length = tasks.length := by
    have horder : s.runner.popped ++ s.runner.transactions.reverse =
        (tasks.map FakeTask.toTask).reverse := hgood.inv.order
    rw [ht, List.reverse_nil, List.append_nil] at horder
    rw [horder]
    simp
  have hdone : s.runner.done = (s.runner.finished.map Prod.snd).filterMap
      Runner.ExecutionResult.doneHash := by
    simpa [Runner.State.ledger, hheld] using hgood.inv.doneList
  have herrors : s.runner.errors = (s.runner.finished.map Prod.snd).filterMap
      Runner.ExecutionResult.errorHash := by
    simpa [Runner.State.ledger, hheld] using hgood.inv.errorList
  constructor
  · rw [hdone, ← filterMap_eq_filter outcome_done]
    exact hscripted.results_perm hinv.reached.placed hw hall _
  · rw [herrors, ← filterMap_eq_filter outcome_error]
    exact hscripted.results_perm hinv.reached.placed hw hall _

/-- A run over the fake sink that leaves its loop because no worker is left has sent every task, if
fewer streams than the threshold end without a terminal status; and then `done` and `errors` hold
the tasks whose scripts succeed and the others, whatever the schedule was. -/
theorem run_scripted (hleak : (tasks.filter (·.leaks)).length < cfg.sendThreshold)
    (h : (machine cfg tasks).run (new cfg tasks wall) is = some s)
    (hexit : s.runner.phase.leftBy .allDone) :
    s.runner.transactions = [] ∧
      s.runner.done.Perm ((tasks.filter (·.succeeds)).map (·.tx.hash)) ∧
      s.runner.errors.Perm ((tasks.filter (!·.succeeds)).map (·.tx.hash)) := by
  obtain ⟨hw, ht⟩ := run_emptied hleak h hexit
  exact ⟨ht, (run_inv h).classified hexit hw ht⟩

/-- Both transactions are played to their end. -/
def pairInputs : List Input :=
  pairStart ++ [.poll 0, .poll 0, .count, .own .resume, .own .resume, .poll 1, .count,
    .own .resume, .own .allDone]

theorem run_scripted_pair : ∃ s, (machine oneAtATime pair).run (new oneAtATime pair 0) pairInputs =
    some s ∧ s.runner.done.Perm [.ofIndex 1] ∧ s.runner.errors.Perm [.ofIndex 2] :=
  ⟨_, rfl, (@run_scripted oneAtATime pair 0 pairInputs _ (by decide) rfl (Or.inl rfl)).2⟩

/-! ## The logs by the scripts -/

/-- What a task writes to its log after its pop. -/
def FakeTask.record (t : FakeTask) (now : Nat → SystemTime) : List (ExecutionEvent FakeHash) :=
  if t.watched then DefaultTxTask.watchEvents now (.ok t.script)
  else .sent (now 0) :: ((t.tx.submitEvent.bind fun e => t.tx.submitResult e.event).map fun r =>
    .submitResult (now 1) (ExecutionEvent.resultText (r.map fun _ => ()))).toList

theorem FakeTask.drive_record {t : FakeTask} {now : Nat → SystemTime}
    {es : List (ExecutionEvent FakeHash)} {result : ExecutionResult FakeHash}
    (h : t.toTask.drive false now 0 (.pending .created) t.replies = some (es, .ready result)) :
    es = t.record now := by
  cases hw : t.watched with
  | true =>
      have hwatched : t.toTask.watched = true := hw
      obtain ⟨result', hdrive, _⟩ :=
        @DefaultTxTask.drive_watched _ t.toTask false now hwatched (.ok t.script)
      rw [FakeTask.replies, if_pos hw, hdrive, Option.some.injEq, Prod.mk.injEq] at h
      rw [FakeTask.record, if_pos hw, h.1]
  | false =>
      have hunwatched : t.toTask.watched = false := hw
      rw [FakeTask.replies, if_neg (by simp [hw])] at h
      rw [FakeTask.record, if_neg (by simp [hw])]
      cases hr : t.tx.submitEvent.bind fun e => t.tx.submitResult e.event with
      | none =>
          simp [hr, DefaultTxTask.drive, DefaultTxTask.execute, hunwatched,
            DefaultTxTask.sendTx] at h
      | some r =>
          cases r <;> simp [hr, DefaultTxTask.drive, DefaultTxTask.execute, hunwatched,
            DefaultTxTask.sendTx] at h ⊢
          · exact h.1.symm
          · exact h.1.symm

theorem Reached.popped {r : Runner.State FakeHash} (h : Reached cfg tasks wall r) {id : Nat}
    {t : FakeTask} (hid : id < r.popped.length) (ht : Fake.taskOf tasks id = some t) :
    r.popped[id]? = some t.toTask := by
  have horder : r.popped ++ r.transactions.reverse = (tasks.map FakeTask.toTask).reverse :=
    h.good.inv.order
  have hall : r.popped[id]? = (r.popped ++ r.transactions.reverse)[id]? :=
    (List.getElem?_append_left hid).symm
  rw [hall, horder, ← List.map_reverse, List.getElem?_map]
  exact congrArg _ ht

/-- In every state of every run that has not panicked, the log of a task that has ended holds its
pop and exactly what its script stands for: for a watched task the statuses up to the first terminal
one, for another task the end of the stream as the result of the submission. -/
theorem logs_scripted (hdistinct : (tasks.map (·.tx.hash)).Nodup)
    (h : (machine cfg tasks).run (new cfg tasks wall) is = some s) (halive : s.Alive)
    {id : Nat} {result : ExecutionResult FakeHash} (hf : (id, result) ∈ s.runner.finished) :
    ∃ t now popped log, taskOf tasks id = some t ∧ result = t.outcome ∧
      s.runner.logs.lookup t.tx.hash = some log ∧ log.events = .popped popped :: t.record now := by
  have hinv := run_inv h
  obtain ⟨t, ht, hresult, hprefix⟩ := (hinv.scripted halive).ended id result hf
  have htasks : ((tasks.map FakeTask.toTask).map (·.tx.hash)).Nodup := by
    rw [List.map_map]
    exact hdistinct
  obtain ⟨_, hlogged⟩ := Runner.run_logged htasks (run_runner h) halive
  have hpopped : s.runner.popped[id]? = some t.toTask :=
    hinv.reached.popped (hinv.reached.placed.finished_lt hf) ht
  obtain ⟨q, hat, now, popped, es, log, hdrive, hlog, hevents⟩ := hlogged.wrote id t.toTask hpopped
  have hready : ∃ result', q = .ready result' := by
    rcases hat with ⟨w, hw, _⟩ | ⟨result', _, hq⟩
    · have hnone : s.runner.workers.lookup id = none := hinv.reached.placed.gone hf
      rw [hnone] at hw
      cases hw
    · exact ⟨result', hq⟩
  obtain ⟨result', rfl⟩ := hready
  refine ⟨t, now, popped, log, ht, hresult, hlog, ?_⟩
  -- the replies so far are enough to end the task, so the rest of the script adds nothing
  obtain ⟨rest, hrest⟩ := hprefix
  have hfull : t.toTask.drive false now 0 (.pending .created) t.replies =
      some (es, .ready result') := by
    rw [← hrest]
    exact DefaultTxTask.drive_prefix hdrive
  rw [hevents, FakeTask.drive_record hfull]

theorem logs_scripted_pair : ∃ s, (machine oneAtATime pair).run (new oneAtATime pair 0) pairInputs =
    some s ∧ ∃ t now popped log, taskOf pair 1 = some t ∧ .error (.ofIndex 2) = t.outcome ∧
      s.runner.logs.lookup t.tx.hash = some log ∧ log.events = .popped popped :: t.record now := by
  have hmem : ∃ s, (machine oneAtATime pair).run (new oneAtATime pair 0) pairInputs = some s ∧
      s.Alive ∧ (1, .error (.ofIndex 2)) ∈ s.runner.finished := by
    refine ⟨_, rfl, ?_, by decide⟩
    intro why hph
    cases hph
  obtain ⟨s, hs, halive, hf⟩ := hmem
  exact ⟨s, hs, logs_scripted (by decide) hs halive hf⟩

end TxTestTool.Fake
