import TxTestTool.Fake.Runs
import TxTestTool.Runner.Theorems
import TxTestTool.Sink.Pool

/-!
# The pool of the fake sink

The fake sink is a sink with an exact pool: every run over it is a run over the abstract pool. Its
pending transactions are known exactly, and with them how many tasks are under way.
-/

namespace TxTestTool.Fake

open Runner (Config oneAtATime)

variable {cfg : Config} {tasks : List FakeTask} {wall : SystemTime} {is : List Input}
  {s s' : State} {i : Input} {js : List (Runner.Input FakeHash)}

/-! ## The abstract pool -/

/-- The fake sink as a pool, between two calls of `pending_extrinsics`. -/
def State.pool (s : State) : Pool.State FakeHash := ⟨s.runner, s.txs, none⟩

/-- What an input does to the pool: a hash enters before the first reply, and leaves after the
last. -/
def poolInputs (tasks : List FakeTask) (s : State) : Input → List (Pool.Input FakeHash)
  | .own i => [.runner i]
  | .poll id =>
      match s.runner.workers.lookup id with
      | none => []
      | some w =>
          match s.polled tasks id w with
          | none => []
          | some p =>
              (if w.awaiting = .created then [.enter w.task.tx.hash] else []) ++
                (p.replies.map (.poll id)).map .runner ++
                (if w.task.tx.hash ∈ p.txs then [] else [.leave w.task.tx.hash])
  | .count => [.count, .runner (.pendingExtrinsics (some s.txs.card))]

theorem pool_step (cfg : Config) {r u : Runner.State FakeHash} {txs : Finset FakeHash}
    {j : Runner.Input FakeHash} (hj : ∀ n, j ≠ .pendingExtrinsics n)
    (hr : Runner.step (config cfg) r j = some u) :
    Pool.step (config cfg) ⟨r, txs, none⟩ (.runner j) = some ⟨u, txs, none⟩ := by
  have hadmits : Pool.State.admits ⟨r, txs, none⟩ j = true := by
    cases j with
    | pendingExtrinsics n => exact absurd rfl (hj n)
    | _ => rfl
  simp [Pool.step, hadmits, hr]

theorem pool_polls {r u : Runner.State FakeHash} {txs : Finset FakeHash} {id : Nat}
    {rs : List (Reply FakeHash)}
    (hr : (Runner.machine FakeHash (config cfg)).run r (rs.map (.poll id)) = some u) :
    (Pool.machine FakeHash (config cfg)).run ⟨r, txs, none⟩ ((rs.map (.poll id)).map .runner) =
      some ⟨u, txs, none⟩ := by
  induction rs generalizing r with
  | nil =>
      simp only [List.map_nil, Machine.run_nil, Option.some.injEq] at hr ⊢
      rw [hr]
  | cons x rs ih =>
      obtain ⟨v, hv, hrest⟩ := Machine.run_cons.mp hr
      have hstep : Runner.step (config cfg) r (.poll id x) = some v := hv
      exact Machine.run_cons.mpr ⟨⟨v, txs, none⟩, pool_step cfg (by simp) hstep, ih hrest⟩

/-- The pool of a poll: what has entered, without what has left. -/
theorem Leads.pool {t : FakeTask} {a : AwaitPoint} {rs : List (Reply FakeHash)}
    {txs : Finset FakeHash} {p : Polled} (h : Leads t a rs txs p) :
    p.txs = if t.tx.hash ∈ p.txs then (if a = .created then insert t.tx.hash txs else txs)
      else (if a = .created then insert t.tx.hash txs else txs).erase t.tx.hash := by
  cases h with
  | waits _ _ _ _ htxs =>
      by_cases hmem : t.tx.hash ∈ p.txs
      · rw [if_pos hmem, htxs]
      · rw [if_neg hmem, ← htxs, Finset.erase_eq_of_notMem hmem]
  | panics _ _ htxs =>
      by_cases hmem : t.tx.hash ∈ p.txs
      · rw [if_pos hmem, htxs]
      · rw [if_neg hmem, ← htxs, Finset.erase_eq_of_notMem hmem]
  | ends _ _ _ hlate htxs =>
      cases hl : t.leaks with
      | true =>
          rw [if_neg (hlate hl)]
          rw [hl, if_pos rfl] at htxs
          by_cases hmem : t.tx.hash ∈ p.txs
          · rw [if_pos hmem, htxs]
          · rw [if_neg hmem, ← htxs, Finset.erase_eq_of_notMem hmem]
      | false =>
          have herase : p.txs = txs.erase t.tx.hash := by
            rw [htxs, hl]
            rfl
          have hmem : t.tx.hash ∉ p.txs := by
            rw [herase]
            exact Finset.notMem_erase _ _
          rw [if_neg hmem, herase]
          split
          · rw [Finset.erase_insert_eq_erase]
          · rfl

/-- One input of the fake sink is a run of the abstract pool. -/
theorem Inv.pool (h : Inv cfg tasks wall js s) (hs : Fake.step cfg tasks s i = some s') :
    (Pool.machine FakeHash (config cfg)).run s.pool (poolInputs tasks s i) = some s'.pool := by
  cases step_trans hs with
  | @own j r hown hr =>
      have hj : ∀ n, j ≠ .pendingExtrinsics n := by
        rintro n rfl
        cases hown
      exact Machine.run_cons.mpr ⟨_, pool_step cfg hj hr, rfl⟩
  | @count r hr =>
      have hp : s.runner.phase = .counting := by
        cases Runner.step_trans hr with
        | count hp => exact hp
      have hadmits : Pool.State.admits ⟨s.runner, s.txs, some s.txs.card⟩
          (.pendingExtrinsics (some s.txs.card)) = true := by
        simp [Pool.State.admits]
      have hphase : r.phase ≠ .counting := by
        cases Runner.step_trans hr with
        | count =>
            rcases Runner.startRefill_phase (config cfg) s.runner s.txs.card with he | ⟨b, _, he⟩ <;>
              rw [he] <;> simp
      refine Machine.run_cons.mpr ⟨⟨s.runner, s.txs, some s.txs.card⟩, ?_, ?_⟩
      · simp [Pool.machine, Pool.step, State.pool, hp]
      · refine Machine.run_cons.mpr ⟨⟨r, s.txs, none⟩, ?_, rfl⟩
        simp [Pool.machine, Pool.step, hadmits, hr, hphase]
  | @poll id w p _ hp hw hpolled hfollow =>
      have halive : s.Alive := fun why => by rw [hp]; simp
      obtain ⟨t, _, htask, hleads⟩ := (h.scripted halive).leads hw hpolled
      have hhash : w.task.tx.hash = t.tx.hash := by rw [htask]; rfl
      obtain ⟨r, hr, rfl⟩ := Option.map_eq_some_iff.mp hfollow
      let entered := if w.awaiting = .created then insert t.tx.hash s.txs else s.txs
      have henter : (Pool.machine FakeHash (config cfg)).run s.pool
          (if w.awaiting = .created then [.enter w.task.tx.hash] else []) =
            some ⟨s.runner, entered, none⟩ := by
        by_cases hcreated : w.awaiting = .created
        · have hmem : w.task.tx.hash ∈ s.runner.unrepliedHashes :=
            Runner.State.mem_unrepliedHashes.mpr ⟨id, w, hw, by rw [hcreated]; rfl, rfl⟩
          rw [if_pos hcreated]
          refine Machine.run_cons.mpr ⟨_, if_pos hmem, ?_⟩
          simp [entered, hcreated, State.pool, hhash]
        · simp [entered, hcreated, State.pool]
      have hleave : (Pool.machine FakeHash (config cfg)).run ⟨r, entered, none⟩
          (if w.task.tx.hash ∈ p.txs then [] else [.leave w.task.tx.hash]) =
            some ⟨r, p.txs, none⟩ := by
        have hpool := hleads.pool
        rw [hhash]
        by_cases hmem : t.tx.hash ∈ p.txs
        · rw [if_pos hmem] at hpool ⊢
          simp [entered, hpool]
        · rw [if_neg hmem] at hpool ⊢
          refine Machine.run_cons.mpr ⟨_, rfl, ?_⟩
          simp [entered, hpool]
      simp only [poolInputs, hw, hpolled]
      exact Machine.run_append.mpr ⟨_, Machine.run_append.mpr ⟨_, henter, pool_polls hr⟩, hleave⟩

/-- Every run over the fake sink is a run over a sink with an exact pool, and ends with the same
runner and the same pool. -/
theorem run_pool (h : (machine cfg tasks).run (new cfg tasks wall) is = some s) :
    (Pool.machine FakeHash (config cfg)).run
      (Pool.new (config cfg) (tasks.map FakeTask.toTask) wall)
      ((machine cfg tasks).translate (poolInputs tasks) (new cfg tasks wall) is) = some s.pool := by
  have hinv : ∀ u j v, (∃ js, Inv cfg tasks wall js u) → (machine cfg tasks).step u j = some v →
      ∃ js, Inv cfg tasks wall js v := by
    rintro u j v ⟨js, hu⟩ hv
    exact ⟨_, hu.step hv⟩
  have hsim : ∀ u j v, (∃ js, Inv cfg tasks wall js u) → (machine cfg tasks).step u j = some v →
      (Pool.machine FakeHash (config cfg)).run u.pool (poolInputs tasks u j) = some v.pool := by
    rintro u j v ⟨js, hu⟩ hv
    exact hu.pool hv
  exact Machine.run_translate_of_invariant (f := State.pool) hinv hsim ⟨[], new_inv⟩ h

/-! ## Whose transactions are pending -/

theorem taskOf_mem {id : Nat} {t : FakeTask} (h : taskOf tasks id = some t) : t ∈ tasks :=
  List.mem_reverse.mp (List.mem_of_getElem? h)

theorem taskOf_inj (hdistinct : (tasks.map (·.tx.hash)).Nodup) {id id' : Nat} {t t' : FakeTask}
    (h : taskOf tasks id = some t) (h' : taskOf tasks id' = some t')
    (he : t.tx.hash = t'.tx.hash) : id = id' := by
  obtain ⟨hlt, hget⟩ := List.getElem?_eq_some_iff.mp h
  obtain ⟨hlt', hget'⟩ := List.getElem?_eq_some_iff.mp h'
  have hnodup : (tasks.reverse.map (·.tx.hash)).Nodup := by
    rw [List.map_reverse]
    exact List.nodup_reverse.mpr hdistinct
  have hbound : id < (tasks.reverse.map (·.tx.hash)).length := by simpa using hlt
  have hbound' : id' < (tasks.reverse.map (·.tx.hash)).length := by simpa using hlt'
  have hsame : (tasks.reverse.map (·.tx.hash))[id] = (tasks.reverse.map (·.tx.hash))[id'] := by
    rw [List.getElem_map, List.getElem_map, hget, hget', he]
  exact hnodup.getElem_inj_iff.mp hsame

/-- With distinct hashes nobody else takes the hash of a task out of the pool. -/
def Tracked (tasks : List FakeTask) (s : State) : Prop := ∀ h, Present tasks s h → h ∈ s.txs

theorem Tracked.quiet {r : Runner.State FakeHash} (h : Tracked tasks s)
    (hquiet : Runner.Quiet s.runner r) : Tracked tasks { s with runner := r } := by
  intro a ha
  refine h a ?_
  cases ha with
  | worker hw hne hh =>
      rcases hquiet.started _ _ hw with hold | ⟨_, hcreated⟩
      · exact .worker hold hne hh
      · exact absurd hcreated hne
  | @leaked id result t hf ht hl hh =>
      have hfin : (id, result) ∈ s.runner.finished := by rwa [← hquiet.finished]
      exact .leaked hfin ht hl hh

theorem Tracked.poll {id : Nat} {w : Worker FakeHash} {t : FakeTask} {p : Polled}
    {rs : List (Reply FakeHash)} (h : Tracked tasks s)
    (hdistinct : (tasks.map (·.tx.hash)).Nodup) (hreached : Reached cfg tasks wall s.runner)
    (hw : s.runner.workers.lookup id = some w) (ht : taskOf tasks id = some t)
    (htask : w.task = t.toTask) (hleads : Leads t w.awaiting rs s.txs p)
    (hafter : ∀ q, p.replies.foldlM (t.toTask.advance false) (.pending w.awaiting) = some q →
      Runner.After s.runner id w q s'.runner)
    (htxs : s'.txs = p.txs) (halive : s'.Alive) : Tracked tasks s' := by
  have hhash : w.task.tx.hash = t.tx.hash := by rw [htask]; rfl
  have hworker : ∀ {k v}, k ≠ id → s.runner.workers.lookup k = some v →
      v.task.tx.hash ≠ t.tx.hash := by
    intro k v hk hv he
    obtain ⟨t', ht', htask'⟩ := hreached.taskOf hv
    rw [htask'] at he
    exact hk (taskOf_inj hdistinct ht' ht he)
  have hfinished : ∀ {k result t'}, (k, result) ∈ s.runner.finished → taskOf tasks k = some t' →
      t'.tx.hash ≠ t.tx.hash := by
    intro k result t' hf ht' he
    have hk : k = id := taskOf_inj hdistinct ht' ht he
    have hnone : s.runner.workers.lookup k = none := hreached.placed.gone hf
    rw [hk, hw] at hnone
    cases hnone
  cases hleads with
  | @waits b call hq hb _ _ htxs' =>
      have hafter := hafter _ hq
      obtain ⟨_, hfin, hhere⟩ := hafter.pending b rfl
      have hkept : ∀ {a}, a ∈ s.txs → a ∈ s'.txs := by
        intro a ha
        rw [htxs, htxs']
        split
        · exact Finset.mem_insert_of_mem ha
        · exact ha
      intro a ha
      cases ha with
      | @worker k v hv hne hh =>
          by_cases hk : k = id
          · subst hk
            rw [hhere] at hv
            cases hv
            rw [← hh, htxs, htxs', hhash]
            split
            · exact Finset.mem_insert_self _ _
            · rename_i hcreated
              exact h _ (.worker hw hcreated hhash)
          · rw [hafter.others k hk] at hv
            exact hkept (h a (.worker hv hne hh))
      | leaked hf hk hl hh =>
          rw [hfin] at hf
          exact hkept (h a (.leaked hf hk hl hh))
  | ends hq _ _ hlate htxs' =>
      have hafter := hafter _ hq
      obtain ⟨_, hfin, hhere⟩ := hafter.ready t.outcome rfl
      have hkept : ∀ {a}, a ∈ s.txs → a ≠ t.tx.hash → a ∈ s'.txs := by
        intro a ha hne
        rw [htxs, htxs']
        split
        · exact ha
        · exact Finset.mem_erase.mpr ⟨hne, ha⟩
      intro a ha
      cases ha with
      | @worker k v hv hne hh =>
          have hk : k ≠ id := by
            rintro rfl
            rw [hhere] at hv
            cases hv
          rw [hafter.others k hk] at hv
          refine hkept (h a (.worker hv hne hh)) ?_
          rw [← hh]
          exact hworker hk hv
      | leaked hf hk hl hh =>
          rw [hfin] at hf
          rcases List.mem_append.mp hf with hf | hf
          · refine hkept (h a (.leaked hf hk hl hh)) ?_
            rw [← hh]
            exact hfinished hf hk
          · simp only [List.mem_singleton, Prod.mk.injEq] at hf
            obtain ⟨rfl, rfl⟩ := hf
            rw [ht] at hk
            cases hk
            rw [← hh, htxs, htxs', if_pos hl]
            exact h _ (.worker hw (hlate hl) hhash)
  | panics hq => exact absurd ((hafter _ hq).panicked rfl) (halive .sink)

theorem run_tracked (hdistinct : (tasks.map (·.tx.hash)).Nodup)
    (h : (machine cfg tasks).run (new cfg tasks wall) is = some s) (halive : s.Alive) :
    Tracked tasks s := by
  let Both : State → Prop := fun s => (∃ js, Inv cfg tasks wall js s) ∧ (s.Alive → Tracked tasks s)
  have hstep : ∀ s i t, Both s → (machine cfg tasks).step s i = some t → Both t := by
    rintro s i t ⟨⟨js, hinv⟩, htracked⟩ hs
    refine ⟨⟨_, hinv.step hs⟩, fun hlive => ?_⟩
    have hquiet : ∀ {j r}, j.reply = none → Runner.step (config cfg) s.runner j = some r →
        State.Alive { s with runner := r } → Tracked tasks { s with runner := r } := by
      intro j r hj hr hlive
      have htrans := Runner.step_trans hr
      exact (htracked (htrans.alive_before hlive)).quiet (htrans.quiet hinv.reached.placed hj)
    cases step_trans hs with
    | @own j r hown hr =>
        refine hquiet ?_ hr hlive
        cases j with
        | poll => cases hown
        | _ => rfl
    | count hr => exact hquiet rfl hr hlive
    | @poll id w p _ hp hw hpolled hfollow =>
        have hbefore : s.Alive := fun why => by rw [hp]; simp
        obtain ⟨t', ht, htask, hleads⟩ := (hinv.scripted hbefore).leads hw hpolled
        obtain ⟨q, hq⟩ := hleads.follows
        obtain ⟨u, hu, hafter, _, htxs, _⟩ := follow_after cfg hp hw htask hq
        rw [hfollow] at hu
        cases hu
        refine (htracked hbefore).poll hdistinct hinv.reached hw ht htask hleads (fun q' hq' => ?_)
          htxs hlive
        rw [hq] at hq'
        cases hq'
        exact hafter
  have h₀ : Both (new cfg tasks wall) := by
    refine ⟨⟨[], new_inv⟩, fun _ a ha => ?_⟩
    cases ha with
    | worker hw => cases hw
    | leaked hf => cases hf
  exact (Machine.run_invariant hstep h₀ h).2 halive

/-- The tasks that a run drives. -/
def State.inFlight (s : State) : AList fun _ : Nat => Worker FakeHash :=
  if s.runner.phase.ended then ∅ else s.runner.workers

/-- The futures that `run` dropped when it ended. -/
def State.dropped (s : State) : AList fun _ : Nat => Worker FakeHash :=
  if s.runner.phase.ended then s.runner.workers else ∅

theorem lookup_workers {id : Nat} {w : Worker FakeHash} : s.runner.workers.lookup id = some w ↔
    s.inFlight.lookup id = some w ∨ s.dropped.lookup id = some w := by
  unfold State.inFlight State.dropped
  cases s.runner.phase.ended <;> simp

/-- In every state of every run that has not panicked, the sink counts as pending exactly the
transactions whose task is in a call of the sink, those whose task was dropped in such a call when
`run` returned, and those of the watched tasks that have ended with a stream without a terminal
status. -/
theorem pending_exact (hdistinct : (tasks.map (·.tx.hash)).Nodup)
    (h : (machine cfg tasks).run (new cfg tasks wall) is = some s) (halive : s.Alive)
    (a : FakeHash) : a ∈ s.txs ↔
      (∃ id w, s.inFlight.lookup id = some w ∧ w.awaiting ≠ .created ∧ w.task.tx.hash = a) ∨
      (∃ id w, s.dropped.lookup id = some w ∧ w.awaiting ≠ .created ∧ w.task.tx.hash = a) ∨
      ∃ id result t, (id, result) ∈ s.runner.finished ∧ taskOf tasks id = some t ∧
        t.leaks = true ∧ t.tx.hash = a := by
  have hpresent : a ∈ s.txs ↔ Present tasks s a :=
    ⟨((run_inv h).scripted halive).present a, run_tracked hdistinct h halive a⟩
  rw [hpresent]
  constructor
  · intro hp
    cases hp with
    | @worker id w hw hne hh =>
        rcases lookup_workers.mp hw with hw | hw
        · exact Or.inl ⟨id, w, hw, hne, hh⟩
        · exact Or.inr (Or.inl ⟨id, w, hw, hne, hh⟩)
    | leaked hf ht hl hh => exact Or.inr (Or.inr ⟨_, _, _, hf, ht, hl, hh⟩)
  · rintro (⟨id, w, hw, hne, hh⟩ | ⟨id, w, hw, hne, hh⟩ | ⟨id, result, t, hf, ht, hl, hh⟩)
    · exact .worker (lookup_workers.mpr (Or.inl hw)) hne hh
    · exact .worker (lookup_workers.mpr (Or.inr hw)) hne hh
    · exact .leaked hf ht hl hh

/-- A transaction that is finalized, and one that is dropped on submission. -/
def pair : List FakeTask := [⟨.newDroppable 2 0 0, false⟩, ⟨.newFinalizableQuick 1 0, true⟩]

/-- The first transaction is in its second block. -/
def pairStart : List Input :=
  [.own .resume, .own .resume, .poll 0, .poll 0, .poll 0, .poll 0, .poll 0]

/-- A stop message ends the run there. -/
def pairStopped : List Input :=
  pairStart ++ [.own .sendStop, .own .stop, .own .resume, .own .resume]

theorem pending_exact_stopped : ∃ s, (machine oneAtATime pair).run (new oneAtATime pair 0)
      pairStopped = some s ∧ s.runner.phase = .returned .stop ∧ FakeHash.ofIndex 1 ∈ s.txs := by
  have hreach : ∃ s, (machine oneAtATime pair).run (new oneAtATime pair 0) pairStopped = some s ∧
      s.runner.phase = .returned .stop ∧
      ∃ w, s.dropped.lookup 0 = some w ∧ w.awaiting ≠ .created ∧ w.task.tx.hash = .ofIndex 1 :=
    ⟨_, rfl, rfl, _, rfl, by decide, rfl⟩
  obtain ⟨s, h, hp, w, hw⟩ := hreach
  have halive : s.Alive := fun why => by simp [hp]
  exact ⟨s, h, hp, (pending_exact (by decide) h halive _).mpr (Or.inr (Or.inl ⟨0, w, hw⟩))⟩

/-- No more tasks are under way than the threshold allows, at any point of any run. -/
theorem workers_bounded (hN : cfg.sendThreshold ≠ usizeMax)
    (hdistinct : (tasks.map (·.tx.hash)).Nodup)
    (h : (machine cfg tasks).run (new cfg tasks wall) is = some s) (halive : s.Alive) :
    s.runner.workers.entries.length ≤ cfg.sendThreshold := by
  have hpool : Pool.Inv (config cfg) (tasks.map FakeTask.toTask) wall s.pool :=
    Pool.run_inv hN rfl (run_pool h)
  have hsub : (s.runner.workers.values.map (·.task.tx.hash)).toFinset ⊆
      s.pool.window.outstanding := by
    intro a ha
    obtain ⟨w, hmem, rfl⟩ := List.mem_map.mp (List.mem_toFinset.mp ha)
    obtain ⟨id, hw⟩ := AList.mem_values.mp hmem
    by_cases hcreated : w.awaiting = .created
    · refine Finset.mem_union_right _ (Runner.State.mem_unrepliedHashes.mpr ⟨id, w, hw, ?_, rfl⟩)
      rw [hcreated]
      rfl
    · exact Finset.mem_union_left _ (run_tracked hdistinct h halive _ (.worker hw hcreated rfl))
  have hnodup : (s.runner.workers.values.map (·.task.tx.hash)).Nodup := by
    have htasks : ((tasks.map FakeTask.toTask).map (·.tx.hash)).Nodup := by
      rw [List.map_map]
      exact hdistinct
    have hpopped := (List.nodup_append.mp ((run_inv h).reached.good.hashes_nodup htasks)).1
    rw [← (run_inv h).reached.good.workers_perm.nodup_iff] at hpopped
    rw [List.append_assoc, List.append_assoc] at hpopped
    exact (List.nodup_append.mp hpopped).1
  have hcard := Finset.card_le_card hsub
  rw [List.toFinset_card_of_nodup hnodup, List.length_map, AList.values, List.length_map] at hcard
  exact hcard.trans hpool.bounded.card_le

theorem workers_bounded_pair : ∃ s, (machine oneAtATime pair).run (new oneAtATime pair 0)
      pairStart = some s ∧
    s.runner.workers.entries.length ≤ 1 := by
  refine ⟨_, rfl, @workers_bounded oneAtATime pair 0 pairStart _ (by decide) (by decide) rfl ?_⟩
  intro why hph
  cases hph

end TxTestTool.Fake
