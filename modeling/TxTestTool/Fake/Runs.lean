import TxTestTool.Fake.Script
import TxTestTool.Runner.Lemmas.Places

/-!
# What every run over the fake sink keeps

Which replies the workers have had, how tasks end, and whose hashes are in the pool.
-/

namespace TxTestTool.Fake

open Runner (Config)

variable {cfg : Config} {tasks : List FakeTask} {wall : SystemTime} {is : List Input}
  {s s' : State} {i : Input} {js : List (Runner.Input FakeHash)}

def State.Alive (s : State) : Prop := ∀ why, s.runner.phase ≠ .panicked why

/-! ## The steps of the runner -/

/-- The runner is in a state that one of its own runs reaches. -/
def Reached (cfg : Config) (tasks : List FakeTask) (wall : SystemTime)
    (r : Runner.State FakeHash) : Prop :=
  (Runner.machine FakeHash (config cfg)).Reaches
    (Runner.new (config cfg) (tasks.map FakeTask.toTask) wall) r

variable {r u : Runner.State FakeHash}

theorem Reached.good (h : Reached cfg tasks wall r) :
    Runner.Good (tasks.map FakeTask.toTask) r :=
  Runner.run_good h.choose_spec

theorem Reached.placed (h : Reached cfg tasks wall r) : r.ledger.Placed :=
  Runner.run_placed h.choose_spec

/-- There is no monitor, so the counters are exact. -/
theorem Reached.buffered (h : Reached cfg tasks wall r) :
    r.eventCounters.buffered cfg.overflowChecks = some r.ledger.unreplied := by
  show r.eventCounters.buffered (config cfg).overflowChecks = _
  exact Runner.run_buffered_of_no_monitor rfl h.choose_spec

theorem Reached.step {j : Runner.Input FakeHash} (h : Reached cfg tasks wall r)
    (hs : Runner.step (config cfg) r j = some u) : Reached cfg tasks wall u :=
  Machine.Reaches.step h hs

theorem Reached.run (h : Reached cfg tasks wall r)
    (hs : (Runner.machine FakeHash (config cfg)).run r js = some u) : Reached cfg tasks wall u := by
  obtain ⟨before, hbefore⟩ := h
  exact ⟨before ++ js, Machine.run_append.mpr ⟨r, hbefore, hs⟩⟩

/-- The workers are those of the tasks, from the end of the list. -/
theorem Reached.taskOf {id : Nat} {w : Worker FakeHash} (h : Reached cfg tasks wall r)
    (hw : r.workers.lookup id = some w) :
    ∃ t, taskOf tasks id = some t ∧ w.task = t.toTask := by
  have horder : r.popped ++ r.transactions.reverse = (tasks.map FakeTask.toTask).reverse :=
    h.good.inv.order
  have hpopped : r.popped[id]? = some w.task := h.good.inv.fresh id w hw
  have hlt := (List.getElem?_eq_some_iff.mp hpopped).1
  have hall : (r.popped ++ r.transactions.reverse)[id]? = some w.task := by
    rw [List.getElem?_append_left hlt, hpopped]
  rw [horder, ← List.map_reverse, List.getElem?_map] at hall
  obtain ⟨t, ht, he⟩ := Option.map_eq_some_iff.mp hall
  exact ⟨t, ht, he.symm⟩

/-! ## What a poll does to the whole state -/

/-- The state after a poll of worker `id`, which was where `Leads` tells it to be. -/
theorem follow_after (cfg : Config) {id : Nat} {w : Worker FakeHash} {t : FakeTask} {p : Polled}
    {q : Poll FakeHash} (hp : s.runner.phase = .select) (hw : s.runner.workers.lookup id = some w)
    (htask : w.task = t.toTask)
    (hq : p.replies.foldlM (t.toTask.advance false) (.pending w.awaiting) = some q) :
    ∃ s', s.follow cfg id p = some s' ∧ Runner.After s.runner id w q s'.runner ∧
      (Runner.machine FakeHash (config cfg)).run s.runner (p.replies.map (.poll id)) =
        some s'.runner ∧ s'.txs = p.txs ∧
      ∀ k, s'.calls.lookup k = if k = id then p.call else s.calls.lookup k := by
  obtain ⟨r, hrun, hafter⟩ := Runner.polls_run (config cfg) hp hw (by rw [htask]; exact hq)
  refine ⟨_, by rw [State.follow, hrun]; rfl, hafter, hrun, rfl, fun k => ?_⟩
  cases p.call with
  | none => exact AList.lookup_erase_eq k
  | some call => exact AList.lookup_insert_eq k

theorem repliesTo_append (id : Nat) (js js' : List (Runner.Input FakeHash)) :
    Runner.repliesTo id (js ++ js') = Runner.repliesTo id js ++ Runner.repliesTo id js' := by
  simp [Runner.repliesTo]

theorem repliesTo_polls (k id : Nat) (rs : List (Reply FakeHash)) :
    Runner.repliesTo k (rs.map (.poll id)) = if k = id then rs else [] := by
  induction rs with
  | nil => simp [Runner.repliesTo]
  | cons r rs ih =>
      have hcons : Runner.repliesTo k ((r :: rs).map (.poll id)) =
          (Runner.Input.poll id r).received k ++ Runner.repliesTo k (rs.map (.poll id)) := rfl
      rw [hcons, ih]
      by_cases hk : k = id
      · simp [hk, Runner.Input.received, Runner.Input.reply, Runner.repliesOf]
      · simp [hk, Ne.symm hk, Runner.Input.received, Runner.Input.reply, Runner.repliesOf]

/-! ## The workers against the scripts -/

/-- The hash of a task that the sink has got and not let go of: its worker is in a call, or its
stream has ended without a terminal status. -/
inductive Present (tasks : List FakeTask) (s : State) (h : FakeHash) : Prop
  | worker {id w} (hw : s.runner.workers.lookup id = some w) (ha : w.awaiting ≠ .created)
      (hh : w.task.tx.hash = h)
  | leaked {id result t} (hf : (id, result) ∈ s.runner.finished) (ht : taskOf tasks id = some t)
      (hl : t.leaks = true) (hh : t.tx.hash = h)

structure Scripted (tasks : List FakeTask) (js : List (Runner.Input FakeHash)) (s : State) :
    Prop where
  unborn : ∀ id, s.runner.popped.length ≤ id → Runner.repliesTo id js = []
  waits : ∀ id w, s.runner.workers.lookup id = some w → ∃ t, taskOf tasks id = some t ∧
    w.task = t.toTask ∧ Waits t w.awaiting (s.calls.lookup id) (Runner.repliesTo id js)
  ended : ∀ id result, (id, result) ∈ s.runner.finished → ∃ t, taskOf tasks id = some t ∧
    result = t.outcome ∧ Runner.repliesTo id js <+: t.replies
  present : ∀ h ∈ s.txs, Present tasks s h

/-- A step that reaches no worker keeps the scripts. -/
theorem Scripted.quiet {j : Runner.Input FakeHash} (h : Scripted tasks js s)
    (hreached : Reached cfg tasks wall r) (hj : j.reply = none)
    (hquiet : Runner.Quiet s.runner r) : Scripted tasks (js ++ [j]) { s with runner := r } := by
  have hsame : ∀ id, Runner.repliesTo id (js ++ [j]) = Runner.repliesTo id js := by
    intro id
    have hnone : Runner.repliesTo id [j] = [] := by
      simp [Runner.repliesTo, Runner.Input.received, hj, Runner.repliesOf]
    rw [repliesTo_append, hnone, List.append_nil]
  refine ⟨fun id hid => ?_, fun id w hw => ?_, fun id result hf => ?_, fun a ha => ?_⟩
  · rw [hsame]
    exact h.unborn id (hquiet.popped.trans hid)
  · rw [hsame]
    rcases hquiet.started id w hw with hold | ⟨hid, hcreated⟩
    · exact h.waits id w hold
    · obtain ⟨t, ht, htask⟩ := hreached.taskOf hw
      refine ⟨t, ht, htask, ?_⟩
      rw [hcreated, h.unborn id hid]
      exact .created
  · rw [hsame]
    refine h.ended id result ?_
    have hfin : (id, result) ∈ r.finished := hf
    rwa [hquiet.finished] at hfin
  · cases h.present a ha with
    | worker hw hne hh => exact .worker (hquiet.kept _ _ hw) hne hh
    | @leaked id result t hf ht hl hh =>
        have hfin : (id, result) ∈ r.finished := by rwa [hquiet.finished]
        exact .leaked hfin ht hl hh

/-- A poll keeps the scripts, unless it panics. -/
theorem Scripted.poll {id : Nat} {w : Worker FakeHash} {t : FakeTask} {p : Polled}
    (h : Scripted tasks js s) (hplaced : s.runner.ledger.Placed)
    (hw : s.runner.workers.lookup id = some w) (ht : taskOf tasks id = some t)
    (htask : w.task = t.toTask)
    (hleads : Leads t w.awaiting (Runner.repliesTo id js) s.txs p)
    (hafter : ∀ q, p.replies.foldlM (t.toTask.advance false) (.pending w.awaiting) = some q →
      Runner.After s.runner id w q s'.runner)
    (htxs : s'.txs = p.txs)
    (hcalls : ∀ k, s'.calls.lookup k = if k = id then p.call else s.calls.lookup k)
    (halive : s'.Alive) : Scripted tasks (js ++ p.replies.map (.poll id)) s' := by
  have hhash : w.task.tx.hash = t.tx.hash := by rw [htask]; rfl
  have hothers : ∀ k, k ≠ id →
      Runner.repliesTo k (js ++ p.replies.map (.poll id)) = Runner.repliesTo k js := by
    intro k hk
    rw [repliesTo_append, repliesTo_polls, if_neg hk, List.append_nil]
  have hself : Runner.repliesTo id (js ++ p.replies.map (.poll id)) =
      Runner.repliesTo id js ++ p.replies := by
    rw [repliesTo_append, repliesTo_polls, if_pos rfl]
  have hlt : id < s.runner.popped.length := hplaced.worker_lt hw
  have hgone : ∀ {k result}, (k, result) ∈ s.runner.finished → k ≠ id := by
    rintro k result hf rfl
    have hnone : s.runner.workers.lookup k = none := hplaced.gone hf
    rw [hnone] at hw
    cases hw
  cases hleads with
  | @waits b call hq hb hcall hwaits htxs' =>
      have hafter := hafter _ hq
      obtain ⟨_, hfin, hhere⟩ := hafter.pending b rfl
      refine ⟨fun k hk => ?_, fun k v hv => ?_, fun k result hf => ?_, fun a ha => ?_⟩
      · rw [hafter.popped] at hk
        rw [hothers k (by omega)]
        exact h.unborn k hk
      · by_cases hk : k = id
        · subst hk
          rw [hhere] at hv
          cases hv
          refine ⟨t, ht, htask, ?_⟩
          rw [hcalls, if_pos rfl, hself, hcall]
          exact hwaits
        · rw [hafter.others k hk] at hv
          rw [hothers k hk, hcalls, if_neg hk]
          exact h.waits k v hv
      · rw [hfin] at hf
        rw [hothers k (hgone hf)]
        exact h.ended k result hf
      · have hold : a = t.tx.hash ∨ a ∈ s.txs := by
          rw [htxs, htxs'] at ha
          split at ha
          · exact Finset.mem_insert.mp ha
          · exact Or.inr ha
        rcases hold with rfl | hold
        · exact .worker hhere hb hhash
        · cases h.present a hold with
          | @worker k v hv hne hh =>
              by_cases hk : k = id
              · subst hk
                rw [hw] at hv
                cases hv
                exact .worker hhere hb hh
              · exact .worker (by rwa [hafter.others k hk]) hne hh
          | leaked hf hk hl hh => exact .leaked (by rwa [hfin]) hk hl hh
  | ends hq hcall hpre _ htxs' =>
      have hafter := hafter _ hq
      obtain ⟨_, hfin, hhere⟩ := hafter.ready t.outcome rfl
      refine ⟨fun k hk => ?_, fun k v hv => ?_, fun k result hf => ?_, fun a ha => ?_⟩
      · rw [hafter.popped] at hk
        rw [hothers k (by omega)]
        exact h.unborn k hk
      · have hk : k ≠ id := by
          rintro rfl
          rw [hhere] at hv
          cases hv
        rw [hafter.others k hk] at hv
        rw [hothers k hk, hcalls, if_neg hk]
        exact h.waits k v hv
      · rw [hfin] at hf
        rcases List.mem_append.mp hf with hf | hf
        · rw [hothers k (hgone hf)]
          exact h.ended k result hf
        · simp only [List.mem_singleton, Prod.mk.injEq] at hf
          obtain ⟨rfl, rfl⟩ := hf
          exact ⟨t, ht, rfl, by rw [hself]; exact hpre⟩
      · rw [htxs, htxs'] at ha
        have hold : a ∈ s.txs := by
          split at ha
          · exact ha
          · exact Finset.mem_of_mem_erase ha
        cases h.present a hold with
        | @worker k v hv hne hh =>
            by_cases hk : k = id
            · subst hk
              rw [hw] at hv
              cases hv
              rw [hhash] at hh
              subst hh
              -- the hash of a task that ends stays only if its stream leaks
              cases hl : t.leaks with
              | true =>
                  have hmem : (k, t.outcome) ∈ s'.runner.finished := by
                    rw [hfin]
                    exact List.mem_append_right _ (List.mem_singleton.mpr rfl)
                  exact .leaked hmem ht hl rfl
              | false => simp [hl] at ha
            · exact .worker (by rwa [hafter.others k hk]) hne hh
        | leaked hf hk hl hh =>
            exact .leaked (by rw [hfin]; exact List.mem_append_left _ hf) hk hl hh
  | panics hq => exact absurd ((hafter _ hq).panicked rfl) (halive .sink)

structure Inv (cfg : Config) (tasks : List FakeTask) (wall : SystemTime)
    (js : List (Runner.Input FakeHash)) (s : State) : Prop where
  reached : Reached cfg tasks wall s.runner
  scripted : s.Alive → Scripted tasks js s

/-- A poll does what its script says. -/
theorem Scripted.leads {id : Nat} {w : Worker FakeHash} {p : Polled} (h : Scripted tasks js s)
    (hw : s.runner.workers.lookup id = some w) (hpolled : s.polled tasks id w = some p) :
    ∃ t, taskOf tasks id = some t ∧ w.task = t.toTask ∧
      Leads t w.awaiting (Runner.repliesTo id js) s.txs p := by
  obtain ⟨t, ht, htask, hwaits⟩ := h.waits id w hw
  refine ⟨t, ht, htask, ?_⟩
  rw [State.polled, ht, Option.bind_some] at hpolled
  split at hpolled
  · rename_i hcreated
    simp only [Option.some.injEq] at hpolled
    subst hpolled
    rw [hcreated] at hwaits ⊢
    rw [hwaits.created_replies]
    exact firstPoll_leads
  · rename_i hcreated
    obtain ⟨call, hlook, hnext⟩ := Option.bind_eq_some_iff.mp hpolled
    rw [hlook] at hwaits
    exact nextPoll_leads hwaits hcreated hnext

theorem Leads.follows {t : FakeTask} {a : AwaitPoint} {rs : List (Reply FakeHash)}
    {txs : Finset FakeHash} {p : Polled} (h : Leads t a rs txs p) :
    ∃ q, p.replies.foldlM (t.toTask.advance false) (.pending a) = some q := by
  cases h with
  | waits hq => exact ⟨_, hq⟩
  | ends hq => exact ⟨_, hq⟩
  | panics hq => exact ⟨_, hq⟩

theorem Inv.quiet {j : Runner.Input FakeHash} (h : Inv cfg tasks wall js s)
    (hj : j.reply = none) (hr : Runner.step (config cfg) s.runner j = some r) :
    Inv cfg tasks wall (js ++ [j]) { s with runner := r } := by
  have htrans := Runner.step_trans hr
  refine ⟨h.reached.step hr, fun halive => ?_⟩
  exact (h.scripted (htrans.alive_before halive)).quiet (h.reached.step hr) hj
    (htrans.quiet h.reached.placed hj)

theorem Inv.step (h : Inv cfg tasks wall js s) (hs : step cfg tasks s i = some s') :
    Inv cfg tasks wall (js ++ calls tasks s i) s' := by
  cases step_trans hs with
  | @own j r hj hr =>
      have hnone : j.reply = none := by
        cases j with
        | poll => cases hj
        | _ => rfl
      exact h.quiet hnone hr
  | count hr => exact h.quiet rfl hr
  | @poll id w p _ hp hw hpolled hfollow =>
      have halive : s.Alive := fun why => by rw [hp]; simp
      have hcalls : calls tasks s (.poll id) = p.replies.map (.poll id) := by
        simp only [calls, hw, Option.bind_some, hpolled]
      obtain ⟨t, ht, htask, hleads⟩ := (h.scripted halive).leads hw hpolled
      obtain ⟨q, hq⟩ := hleads.follows
      obtain ⟨u, hu, hafter, hrun, htxs, hlook⟩ := follow_after cfg hp hw htask hq
      rw [hfollow] at hu
      cases hu
      rw [hcalls]
      refine ⟨h.reached.run hrun, fun halive' => ?_⟩
      refine (h.scripted halive).poll h.reached.placed hw ht htask hleads (fun q' hq' => ?_) htxs
        hlook halive'
      rw [hq] at hq'
      cases hq'
      exact hafter

theorem new_inv : Inv cfg tasks wall [] (new cfg tasks wall) where
  reached := .refl
  scripted _ := ⟨fun _ _ => rfl, fun _ _ hw => (by cases hw), fun _ _ hf => (by cases hf),
    fun _ ha => absurd ha (Finset.notMem_empty _)⟩

/-- The steps that the runner takes in a run over this sink. -/
def runnerInputs (cfg : Config) (tasks : List FakeTask) (wall : SystemTime) (is : List Input) :
    List (Runner.Input FakeHash) :=
  (machine cfg tasks).translate (calls tasks) (new cfg tasks wall) is

theorem run_inv (h : (machine cfg tasks).run (new cfg tasks wall) is = some s) :
    Inv cfg tasks wall (runnerInputs cfg tasks wall is) s :=
  Machine.translate_invariant (M := machine cfg tasks) (fun _ _ _ _ hi hs => hi.step hs) new_inv h

end TxTestTool.Fake
