import TxTestTool.Sink.Theorems

/-!
# The cached count against the pool of the node

The sink of `Subxt` over a node whose pool is modelled. The count is exact when the request is
answered, and is used again for a second, while the buffered counter is always that of the moment.
-/

namespace TxTestTool.Cached

open Runner (Config)

structure State (H : Type*) where
  sink : Subxt.State H
  /-- The transactions of this runner in the pool of the node. -/
  pool : Finset H
  /-- History: the pool when the last request for the count was answered. -/
  sampled : Finset H

inductive Input (H : Type*)
  | sink (i : Subxt.Input H)
  | enter (hash : H)
  | leave (hash : H)

variable {H : Type*} [DecidableEq H]

def State.window (s : State H) : Window H := s.sink.runner.window s.pool

/-- The node counts the transactions of others too. -/
def State.admits (s : State H) : Subxt.Input H → Prop
  | .counted (.ok count) => s.pool.card ≤ count
  | _ => True

instance (s : State H) : (i : Subxt.Input H) → Decidable (s.admits i)
  | .counted (.ok count) => inferInstanceAs (Decidable (s.pool.card ≤ count))
  | .counted (.error _) | .own _ | .start _ | .submitted _ _ | .watching _ _ | .item _ _ |
    .queued _ | .refused _ | .answered _ _ | .abandoned _ | .count | .monitorEnds =>
      .isTrue trivial

def State.sample (s : State H) : Subxt.Input H → Finset H
  | .counted (.ok _) => s.pool
  | _ => s.sampled

/-- A transaction enters the pool while its submission is on its way, and not after its result. -/
def step (cfg : Config) (s : State H) : Input H → Option (State H)
  | .sink i =>
      if s.admits i then
        (Subxt.step cfg s.sink i).map fun sink => { s with sink, sampled := s.sample i }
      else none
  | .enter hash =>
      if hash ∈ s.sink.runner.unrepliedHashes then some { s with pool := insert hash s.pool }
      else none
  | .leave hash => some { s with pool := s.pool.erase hash }

def machine (H : Type*) [DecidableEq H] (cfg : Config) : Machine (State H) (Input H) := ⟨step cfg⟩

def new (cfg : Config) (tasks : List (DefaultTxTask H)) (wall : SystemTime) : State H :=
  ⟨Subxt.new cfg tasks wall, ∅, ∅⟩

/-- What `consume_pending` takes for the outstanding transactions when an input gives it a count. -/
def State.estimate (cfg : Config) (s : State H) (i : Subxt.Input H) : Option Nat :=
  match Subxt.calls cfg s.sink i with
  | some [.pendingExtrinsics (some count)] =>
      (s.sink.runner.eventCounters.buffered cfg.overflowChecks).map fun b => count + b
  | _ => none

/-- When a count is used again, every transaction in the pool was there when the count was taken,
or has no submission result. -/
def Unmissed (s : State H) : Input H → Prop
  | .sink .count => s.sink.cached.isSome → s.pool ⊆ s.sampled ∪ s.sink.runner.unrepliedHashes
  | _ => True

instance (s : State H) (i : Input H) : Decidable (Unmissed s i) := by
  unfold Unmissed
  split <;> infer_instance

variable {cfg : Config} {tasks : List (DefaultTxTask H)} {wall : SystemTime}
  {is : List (Input H)} {s s' : State H}

/-! ## Where a count comes from -/

omit [DecidableEq H] in
theorem calls_count {sink : Subxt.State H} {i : Subxt.Input H} {js : List (Runner.Input H)}
    (h : Subxt.calls cfg sink i = some js) :
    (∀ n, Runner.Input.pendingExtrinsics (some n) ∉ js) ∨
      ∃ n, js = [.pendingExtrinsics (some n)] ∧
        (i = .count ∧ sink.cached = some n ∨ i = .counted (.ok n)) := by
  cases i with
  | own j =>
      simp only [Subxt.calls, Option.ite_none_right_eq_some, Option.some.injEq] at h
      obtain ⟨hown, rfl⟩ := h
      refine Or.inl fun n hn => ?_
      rw [← List.mem_singleton.mp hn] at hown
      cases hown
  | submitted id r =>
      simp only [Subxt.calls, Option.some.injEq] at h
      subst h
      refine Or.inl fun n hn => ?_
      split at hn <;> simp at hn
  | item id r =>
      rcases r with _ | _ | status <;> simp [Subxt.calls] at h
      · subst h; exact Or.inl (by simp)
      · obtain ⟨_, rfl⟩ := h; exact Or.inl (by simp)
      · subst h; exact Or.inl (by simp)
  | count =>
      simp only [Subxt.calls, Option.ite_none_right_eq_some] at h
      obtain ⟨_, h⟩ := h
      split at h <;> simp only [Option.some.injEq] at h <;> subst h
      · rename_i n hn
        exact Or.inr ⟨n, rfl, Or.inl ⟨rfl, hn⟩⟩
      · exact Or.inl (by simp)
  | counted r =>
      simp only [Subxt.calls, Option.ite_none_right_eq_some, Option.some.injEq] at h
      obtain ⟨_, rfl⟩ := h
      cases r with
      | error e => exact Or.inl (by simp [Except.toOption])
      | ok n => exact Or.inr ⟨n, rfl, Or.inr rfl⟩
  | _ =>
      simp [Subxt.calls] at h
      first
        | (subst h; exact Or.inl (by simp))
        | (obtain ⟨_, rfl⟩ := h; exact Or.inl (by simp))

/-! ## The invariant -/

structure Inv (cfg : Config) (tasks : List (DefaultTxTask H)) (wall : SystemTime) (s : State H) :
    Prop where
  reached : (Runner.machine H cfg).Reaches (Runner.new cfg tasks wall) s.sink.runner
  entered : ∀ h ∈ s.pool, h ∈ s.sink.runner.popped.map (·.tx.hash)
  sampled : ∀ ts count, s.sink.currentPendingExtrinsics = some (ts, count) →
    s.sampled.card ≤ count
  bounded : cfg.sendThreshold ≠ usizeMax → s.window.Bounded cfg.sendThreshold

theorem Inv.good (h : Inv cfg tasks wall s) : Runner.Good tasks s.sink.runner := by
  obtain ⟨is, his⟩ := h.reached
  exact Runner.run_good his

theorem Inv.buffered (hmon : cfg.monitor = false) (h : Inv cfg tasks wall s) :
    s.sink.runner.eventCounters.buffered cfg.overflowChecks =
      some s.sink.runner.ledger.unreplied := by
  obtain ⟨is, his⟩ := h.reached
  exact Runner.run_buffered_of_no_monitor hmon his

theorem Inv.unreplied_popped (h : Inv cfg tasks wall s) :
    ∀ a ∈ s.sink.runner.unrepliedHashes, a ∈ s.sink.runner.popped.map (·.tx.hash) := by
  intro a ha
  obtain ⟨id, w, hw, _, rfl⟩ := Runner.State.mem_unrepliedHashes.mp ha
  have hpop : s.sink.runner.popped[id]? = some w.task := h.good.inv.fresh id w hw
  exact List.mem_map.mpr ⟨w.task, List.mem_of_getElem? hpop, rfl⟩

/-- A fresh count covers the pool; an old one covers it with the tasks that have no result. -/
theorem Inv.covers (h : Inv cfg tasks wall s) {i : Subxt.Input H} {n : Nat} (hadm : s.admits i)
    (hok : Unmissed s (.sink i)) (hi : i = .count ∧ s.sink.cached = some n ∨ i = .counted (.ok n)) :
    s.window.outstanding.card ≤ n + s.sink.runner.ledger.unreplied := by
  have hunreplied : s.sink.runner.unrepliedHashes.card ≤ s.sink.runner.ledger.unreplied :=
    Runner.State.card_unrepliedHashes_le
  rcases hi with ⟨rfl, hc⟩ | rfl
  · have hsub : s.window.outstanding ⊆ s.sampled ∪ s.sink.runner.unrepliedHashes :=
      Finset.union_subset (hok (by rw [hc]; rfl)) Finset.subset_union_right
    have hsampled : s.sampled.card ≤ n := by
      unfold Subxt.State.cached at hc
      split at hc
      · rename_i ts count hcount
        simp only [Option.ite_none_right_eq_some, Option.some.injEq] at hc
        exact hc.2 ▸ h.sampled ts count hcount
      · cases hc
    calc s.window.outstanding.card
        ≤ (s.sampled ∪ s.sink.runner.unrepliedHashes).card := Finset.card_le_card hsub
      _ ≤ s.sampled.card + s.sink.runner.unrepliedHashes.card := Finset.card_union_le _ _
      _ ≤ n + s.sink.runner.ledger.unreplied := Nat.add_le_add hsampled hunreplied
  · exact s.window.outstanding_card_le.trans (Nat.add_le_add hadm hunreplied)

theorem run_bounded (hN : cfg.sendThreshold ≠ usizeMax) {pool : Finset H}
    {js : List (Runner.Input H)} {r r' : Runner.State H}
    (hjs : ∀ n, .pendingExtrinsics (some n) ∉ js) (h : (Runner.machine H cfg).run r js = some r')
    (hb : (r.window pool).Bounded cfg.sendThreshold) :
    (r'.window pool).Bounded cfg.sendThreshold := by
  induction js generalizing r with
  | nil =>
      simp only [Machine.run_nil, Option.some.injEq] at h
      exact h ▸ hb
  | cons j js ih =>
      obtain ⟨u, hu, h⟩ := Machine.run_cons.mp h
      have hstep : Window.Step cfg.sendThreshold (r.window pool) (u.window pool) :=
        (Runner.step_trans hu).window hN fun n b hj _ =>
          absurd (hj ▸ List.mem_cons_self ..) (hjs n)
      exact ih (fun n hn => hjs n (List.mem_cons_of_mem _ hn)) h (hstep.bounded hb)

omit [DecidableEq H] in
theorem update_counts {sink : Subxt.State H} {i : Subxt.Input H} {ts count : Nat}
    (h : (Subxt.update cfg sink i).currentPendingExtrinsics = some (ts, count)) :
    i = .counted (.ok count) ∨
      sink.currentPendingExtrinsics = some (ts, count) ∧ ∀ n, i ≠ .counted (.ok n) := by
  cases i with
  | counted r =>
      cases r with
      | error e => exact Or.inr ⟨h, by simp⟩
      | ok n =>
          obtain ⟨asked, _, heq⟩ := Option.map_eq_some_iff.mp h
          cases heq
          exact Or.inl rfl
  | submitted id r =>
      refine Or.inr ⟨?_, by simp⟩
      cases r with
      | error e => exact h
      | ok a =>
          simp only [Subxt.update] at h
          split at h <;> exact h
  | count =>
      refine Or.inr ⟨?_, by simp⟩
      simp only [Subxt.update] at h
      split at h <;> exact h
  | _ => exact Or.inr ⟨h, by simp⟩

theorem run_popped {js : List (Runner.Input H)} {r r' : Runner.State H}
    (h : (Runner.machine H cfg).run r js = some r') : r.popped <+: r'.popped := by
  have hstep : ∀ u i v, r.popped <+: u.popped → (Runner.machine H cfg).step u i = some v →
      r.popped <+: v.popped := by
    intro u i v hpre hs
    rcases (Runner.step_trans hs).grows.2 with he | ⟨t, he⟩ <;> rw [he]
    · exact hpre
    · exact hpre.trans (List.prefix_append _ _)
  exact Machine.run_invariant hstep (List.prefix_refl _) h

theorem Inv.bounded_sink (hmon : cfg.monitor = false) {i : Subxt.Input H}
    {js : List (Runner.Input H)} {r : Runner.State H} (h : Inv cfg tasks wall s)
    (hadm : s.admits i) (hok : Unmissed s (.sink i)) (hjs : Subxt.calls cfg s.sink i = some js)
    (hr : (Runner.machine H cfg).run s.sink.runner js = some r)
    (hN : cfg.sendThreshold ≠ usizeMax) : (r.window s.pool).Bounded cfg.sendThreshold := by
  rcases calls_count hjs with hnone | ⟨n, rfl, hi⟩
  · exact run_bounded hN hnone hr (h.bounded hN)
  · obtain ⟨u, hu, hr⟩ := Machine.run_cons.mp hr
    simp only [Machine.run_nil, Option.some.injEq] at hr
    subst hr
    have htrans : Runner.Trans cfg s.sink.runner (.pendingExtrinsics (some n)) u :=
      Runner.step_trans hu
    have hcount : ∀ m b, Runner.Input.pendingExtrinsics (H := H) (some n) =
        .pendingExtrinsics (some m) →
        s.sink.runner.eventCounters.buffered cfg.overflowChecks = some b →
        (s.sink.runner.window s.pool).outstanding.card ≤ m + b := by
      intro m b hm hb
      cases hm
      rw [h.buffered hmon, Option.some.injEq] at hb
      exact hb ▸ h.covers hadm hok hi
    exact (htrans.window hN hcount).bounded (h.bounded hN)

theorem Inv.step (hmon : cfg.monitor = false) {i : Input H} (h : Inv cfg tasks wall s)
    (hok : Unmissed s i) (hs : step cfg s i = some s') : Inv cfg tasks wall s' := by
  cases i with
  | enter hash =>
      simp only [Cached.step, Option.ite_none_right_eq_some, Option.some.injEq] at hs
      obtain ⟨hmem, rfl⟩ := hs
      refine ⟨h.reached, fun a ha => ?_, h.sampled, fun hN => ?_⟩
      · rcases Finset.mem_insert.mp ha with rfl | ha
        · exact h.unreplied_popped _ hmem
        · exact h.entered a ha
      · have hsub : insert hash s.pool ⊆ s.window.outstanding :=
          Finset.insert_subset (Finset.mem_union_right _ hmem) Finset.subset_union_left
        exact (Window.Step.settle hsub (Finset.Subset.refl _) (Nat.le_refl _)).bounded (h.bounded hN)
  | leave hash =>
      simp only [Cached.step, Option.some.injEq] at hs
      subst hs
      refine ⟨h.reached, fun a ha => h.entered a (Finset.mem_of_mem_erase ha), h.sampled,
        fun hN => ?_⟩
      have hsub : s.pool.erase hash ⊆ s.window.outstanding :=
        (Finset.erase_subset _ _).trans Finset.subset_union_left
      exact (Window.Step.settle hsub (Finset.Subset.refl _) (Nat.le_refl _)).bounded (h.bounded hN)
  | sink i =>
      simp only [Cached.step, Option.ite_none_right_eq_some, Option.map_eq_some_iff] at hs
      obtain ⟨hadm, sink, hsink, rfl⟩ := hs
      obtain ⟨js, hjs, hmap⟩ := Option.bind_eq_some_iff.mp hsink
      obtain ⟨r, hr, rfl⟩ := Option.map_eq_some_iff.mp hmap
      refine ⟨?_, fun a ha => ?_, fun ts count hcount => ?_, h.bounded_sink hmon hadm hok hjs hr⟩
      · obtain ⟨past, hpast⟩ := h.reached
        exact ⟨past ++ js, Machine.run_append.mpr ⟨_, hpast, hr⟩⟩
      · exact ((run_popped hr).map _).subset (h.entered a ha)
      · rcases update_counts hcount with rfl | ⟨hold, hne⟩
        · exact hadm
        · have hsame : s.sample i = s.sampled := by
            unfold State.sample
            split
            · exact absurd rfl (hne _)
            · rfl
          show (s.sample i).card ≤ count
          rw [hsame]
          exact h.sampled ts count hold

theorem new_inv : Inv cfg tasks wall (new cfg tasks wall) where
  reached := .refl
  entered _ ha := by cases ha
  sampled _ _ hc := by cases hc
  bounded _ := by
    simp [Window.Bounded, Window.outstanding, new, State.window, Runner.State.window,
      Runner.State.unrepliedHashes, Runner.new, Subxt.new, Runner.Phase.credit]

theorem run_inv (hmon : cfg.monitor = false)
    (hok : (machine H cfg).Meets (fun _ => Unmissed) [] (new cfg tasks wall) is)
    (h : (machine H cfg).run (new cfg tasks wall) is = some s) : Inv cfg tasks wall s := by
  have hstep : ∀ (past : List (Input H)) s i t, Inv cfg tasks wall s → Unmissed s i →
      (machine H cfg).step s i = some t → Inv cfg tasks wall t :=
    fun _ _ _ _ hinv hun hs => hinv.step hmon hun hs
  exact Machine.Meets.invariant hstep new_inv hok h

/-! ## The estimate of `consume_pending` -/

theorem Inv.estimate_covers (hmon : cfg.monitor = false) (h : Inv cfg tasks wall s)
    {i : Subxt.Input H} {e : Nat} (hs : (Cached.step cfg s (.sink i)).isSome)
    (hok : Unmissed s (.sink i)) (he : s.estimate cfg i = some e) :
    s.window.outstanding.card ≤ e := by
  obtain ⟨s', hs'⟩ := Option.isSome_iff_exists.mp hs
  simp only [Cached.step, Option.ite_none_right_eq_some, Option.map_eq_some_iff] at hs'
  obtain ⟨hadm, _⟩ := hs'
  unfold State.estimate at he
  split at he
  · rename_i count hcalls
    rw [h.buffered hmon, Option.map_some, Option.some.injEq] at he
    rcases calls_count hcalls with hnone | ⟨n, hn, hi⟩
    · exact absurd (List.mem_cons_self ..) (hnone count)
    · cases hn
      exact he ▸ h.covers hadm hok hi
  · cases he

theorem Inv.outstanding_card_le (hlen : tasks.length ≤ usizeMax) (h : Inv cfg tasks wall s) :
    s.window.outstanding.card ≤ cfg.sendThreshold := by
  by_cases hN : cfg.sendThreshold = usizeMax
  · have hsub : s.window.outstanding ⊆ (s.sink.runner.popped.map (·.tx.hash)).toFinset := by
      intro a ha
      rcases Finset.mem_union.mp ha with ha | ha
      · exact List.mem_toFinset.mpr (h.entered a ha)
      · exact List.mem_toFinset.mpr (h.unreplied_popped a ha)
    have horder : s.sink.runner.popped ++ s.sink.runner.transactions.reverse = tasks.reverse :=
      h.good.inv.order
    have hpopped : s.sink.runner.popped.length ≤ tasks.length := by
      have hlen := congrArg List.length horder
      simp only [List.length_append, List.length_reverse] at hlen
      omega
    calc s.window.outstanding.card
        ≤ (s.sink.runner.popped.map (·.tx.hash)).toFinset.card := Finset.card_le_card hsub
      _ ≤ s.sink.runner.popped.length := (List.toFinset_card_le _).trans (by simp)
      _ ≤ cfg.sendThreshold := hN ▸ hpopped.trans hlen
  · exact (h.bounded hN).card_le

/-- If a count is used again only while every transaction of the runner in the pool was there when
the count was taken or has no submission result, then every estimate covers the outstanding
transactions, and these never exceed the threshold. -/
theorem estimate_covers_outstanding (hmon : cfg.monitor = false) (hlen : tasks.length ≤ usizeMax)
    (hok : (machine H cfg).Meets (fun _ => Unmissed) [] (new cfg tasks wall) is)
    (h : (machine H cfg).run (new cfg tasks wall) is = some s) :
    (∀ i e, Unmissed s (.sink i) → (step cfg s (.sink i)).isSome → s.estimate cfg i = some e →
      s.window.outstanding.card ≤ e) ∧
    s.window.outstanding.card ≤ cfg.sendThreshold := by
  have hinv := run_inv hmon hok h
  exact ⟨fun i e hun hs he => hinv.estimate_covers hmon hs hun he, hinv.outstanding_card_le hlen⟩

/-- Two refills within a second: the transaction that the first one started has entered the pool
and has its result, and the count says that the pool is empty. -/
def reusedCount (leaves : Bool) : List (Input Nat) :=
  [.sink (.own .resume), .sink (.own .resume), .sink (.own .resume), .sink (.start 0),
    .sink (.start 1), .sink (.submitted 0 (.ok 0)), .sink .count, .sink (.counted (.ok 0)),
    .sink (.own .resume), .sink (.own .resume), .sink (.start 2), .enter 1,
    .sink (.submitted 1 (.ok 1))] ++
  (if leaves then [.leave 1] else []) ++ [.sink .count, .sink (.own .resume)]

def quartet : List (DefaultTxTask Nat) :=
  [Runner.unwatched 3 3, Runner.unwatched 2 2, Runner.unwatched 1 1, Runner.unwatched 0 0]

theorem reused_count_exceeds_threshold :
    ¬ (∀ (cfg : Config) (tasks : List (DefaultTxTask Nat)) wall is s, cfg.monitor = false →
      tasks.length ≤ usizeMax → (machine Nat cfg).run (new cfg tasks wall) is = some s →
        (∀ i e, (step cfg s (.sink i)).isSome → s.estimate cfg i = some e →
          s.window.outstanding.card ≤ e) ∧
        s.window.outstanding.card ≤ cfg.sendThreshold) := by
  intro h
  have hle := (h Subxt.pairConfig quartet 0 (reusedCount false) _ rfl (by decide) rfl).2
  revert hle
  decide

theorem estimate_covers_outstanding_left : ∃ s, (machine Nat Subxt.pairConfig).run
      (new Subxt.pairConfig quartet 0) (reusedCount true) = some s ∧
    s.window.outstanding.card ≤ 2 ∧ s.sink.runner.popped.length = 4 :=
  ⟨_, rfl, (@estimate_covers_outstanding Nat _ Subxt.pairConfig quartet 0 (reusedCount true) _ rfl
    (by decide) (by decide) rfl).2, rfl⟩

end TxTestTool.Cached
