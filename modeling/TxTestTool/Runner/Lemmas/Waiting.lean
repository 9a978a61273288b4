import TxTestTool.Runner.Lemmas.Replay

/-!
# The workers that wait for the monitor
-/

namespace TxTestTool

variable {H : Type*}

namespace DefaultTxTask

variable {t : DefaultTxTask H} {monitor : Bool} {now : SystemTime} {p q : AwaitPoint} {r : Reply H}
  {es : List (ExecutionEvent H)}

/-- Only a submission that succeeds makes a future wait for the monitor. -/
theorem execute_waits (h : t.execute monitor now p r = some (es, .pending .waiting)) :
    p = .submitting ∧ ∃ a, r = .submit (.ok a) := by
  unfold execute sendWatchedTx sendTx at h
  split at h <;> split at h <;> simp only [Option.some.injEq, Prod.mk.injEq, reduceCtorEq] at h
  all_goals try split_ifs at h
  all_goals first | exact ⟨rfl, _, rfl⟩ | simp at h

theorem execute_unwatched (h : t.execute monitor now p r = some (es, .pending .waiting)) :
    t.watched = false := by
  unfold execute sendWatchedTx at h
  split at h
  · split at h <;> simp only [Option.some.injEq, Prod.mk.injEq, reduceCtorEq] at h
    all_goals try split_ifs at h
    all_goals simp at h
  · rename_i hw
    exact Bool.eq_false_iff.mpr hw

/-- A future that waits for the monitor does nothing but end. -/
theorem execute_waiting {next : Poll H}
    (h : t.execute monitor now .waiting r = some (es, next)) :
    r = .panic ∧ next = .panicked ∨ (∃ a, r = .wait a) ∧ ∃ result, next = .ready result := by
  unfold execute sendWatchedTx sendTx at h
  split at h <;> split at h <;> simp only [Option.some.injEq, Prod.mk.injEq, reduceCtorEq] at h
  all_goals obtain ⟨_, rfl⟩ := h
  all_goals first | exact Or.inl ⟨rfl, rfl⟩ | exact Or.inr ⟨⟨_, rfl⟩, _, rfl⟩ | simp_all

theorem execute_wait {a : Except Error H} {next : Poll H}
    (h : t.execute monitor now p (.wait a) = some (es, next)) : p = .waiting := by
  unfold execute sendWatchedTx sendTx at h
  split at h <;> split at h <;> simp_all

/-- Under a monitor a submission that succeeds makes the future wait for it. -/
theorem execute_submitted {a : H} {next : Poll H}
    (h : t.execute true now p (.submit (.ok a)) = some (es, next)) :
    t.watched = false ∧ p = .submitting ∧ next = .pending .waiting := by
  unfold execute sendWatchedTx sendTx at h
  split at h <;> split at h <;> simp_all

end DefaultTxTask

namespace Runner

variable [DecidableEq H] {cfg : Config} {tasks : List (DefaultTxTask H)} {wall : SystemTime}
  {is : List (Input H)} {s s' : State H} {i : Input H} {id : Nat}

/-- Worker `id` waits for an answer of the monitor. -/
def State.Waits (s : State H) (id : Nat) : Prop :=
  ∃ w, s.workers.lookup id = some w ∧ w.awaiting = .waiting

/-- Task `id` has been popped, and if it still has a worker, that waits for the monitor. -/
def State.Asked (s : State H) (id : Nat) : Prop :=
  id < s.popped.length ∧ ∀ w, s.workers.lookup id = some w → w.awaiting = .waiting

theorem State.Waits.asked (hinv : s.ledger.Inv tasks) (h : s.Waits id) : s.Asked id := by
  obtain ⟨w, hw, hwait⟩ := h
  refine ⟨(List.getElem?_eq_some_iff.mp (hinv.fresh id w hw)).1, fun v hv => ?_⟩
  rw [hw, Option.some.injEq] at hv
  exact hv ▸ hwait

/-! ## One step -/

theorem Trans.waits_of (hs : Trans cfg s i s') (h : s'.Waits id) :
    s.Waits id ∨ ∃ a, i = .poll id (.submit (.ok a)) := by
  obtain ⟨v, hv, hwait⟩ := h
  cases hs with
  | pop =>
      simp only [State.launch, AList.lookup_insert_eq] at hv
      split at hv
      · cases hv
        cases hwait
      · exact Or.inl ⟨v, hv, hwait⟩
  | @move k w r es p hp hw hm =>
      simp only [AList.lookup_insert_eq] at hv
      split at hv
      · rename_i hk
        cases hv
        rw [show p = .waiting from hwait] at hm
        obtain ⟨_, a, rfl⟩ := DefaultTxTask.execute_waits hm
        exact Or.inr ⟨a, by rw [hk]⟩
      · exact Or.inl ⟨v, hv, hwait⟩
  | finish =>
      simp only [State.consumePending, State.complete, AList.lookup_erase_eq] at hv
      split at hv
      · cases hv
      · exact Or.inl ⟨v, hv, hwait⟩
  | classify =>
      obtain ⟨_, _, _, _, he⟩ := classify_frame s
      rw [he] at hv
      exact Or.inl ⟨v, hv, hwait⟩
  | @count n =>
      refine Or.inl ⟨v, ?_, hwait⟩
      rcases startRefill_phase cfg s n with he | ⟨b, _, he⟩ <;> rw [he] at hv <;> exact hv
  | _ => exact Or.inl ⟨v, hv, hwait⟩

/-- Only the answer of the monitor ends the wait. -/
theorem Trans.waits_keep (hs : Trans cfg s i s') (hinv : s.ledger.Inv tasks)
    (hi : ∀ a, i ≠ .poll id (.wait a)) (h : s.Waits id) : s'.Waits id := by
  obtain ⟨w, hw, hwait⟩ := h
  have hne : ∀ {k v r es next}, i = .poll k r → s.workers.lookup k = some v →
      v.task.execute cfg.monitor s.wall v.awaiting r = some (es, next) →
      next ≠ .panicked → id ≠ k := by
    rintro k v r es next rfl hv hm hlive rfl
    rw [hw, Option.some.injEq] at hv
    subst hv
    rw [hwait] at hm
    rcases DefaultTxTask.execute_waiting hm with ⟨_, hpanic⟩ | ⟨⟨a, rfl⟩, _⟩
    · exact hlive hpanic
    · exact hi a rfl
  cases hs with
  | @pop next t ts =>
      have hlt := (List.getElem?_eq_some_iff.mp (hinv.fresh id w hw)).1
      have hold : (s.launch t ts next).workers.lookup id = s.workers.lookup id :=
        AList.lookup_insert_ne (Nat.ne_of_lt hlt)
      exact ⟨w, hold.trans hw, hwait⟩
  | move _ hv hm => exact ⟨w, (AList.lookup_insert_ne (hne rfl hv hm (by simp))).trans hw, hwait⟩
  | finish _ hv hm => exact ⟨w, (AList.lookup_erase_ne (hne rfl hv hm (by simp))).trans hw, hwait⟩
  | classify =>
      obtain ⟨_, _, _, _, he⟩ := classify_frame s
      rw [he]
      exact ⟨w, hw, hwait⟩
  | @count n =>
      rcases startRefill_phase cfg s n with he | ⟨b, _, he⟩ <;> rw [he] <;> exact ⟨w, hw, hwait⟩
  | _ => exact ⟨w, hw, hwait⟩

theorem Trans.asked (hs : Trans cfg s i s') (h : s.Asked id) : s'.Asked id := by
  obtain ⟨hlt, hall⟩ := h
  have hpopped : id < s'.popped.length := by
    rcases hs.grows.2 with hp | ⟨t, hp⟩ <;> rw [hp]
    · exact hlt
    · exact Nat.lt_of_lt_of_le hlt (by simp)
  refine ⟨hpopped, fun v hv => ?_⟩
  cases hs with
  | pop =>
      simp only [State.launch, AList.lookup_insert_eq, Nat.ne_of_lt hlt, ↓reduceIte] at hv
      exact hall v hv
  | @move k w r es p hp hw hm =>
      simp only [AList.lookup_insert_eq] at hv
      split at hv
      · rename_i hk
        cases hv
        rw [hall w (hk ▸ hw)] at hm
        rcases DefaultTxTask.execute_waiting hm with ⟨_, hq⟩ | ⟨_, _, hq⟩ <;> cases hq
      · exact hall v hv
  | finish =>
      simp only [State.consumePending, State.complete, AList.lookup_erase_eq] at hv
      split at hv
      · cases hv
      · exact hall v hv
  | classify =>
      obtain ⟨_, _, _, _, he⟩ := classify_frame s
      rw [he] at hv
      exact hall v hv
  | @count n =>
      rcases startRefill_phase cfg s n with he | ⟨b, _, he⟩ <;> rw [he] at hv <;> exact hall v hv
  | _ => exact hall v hv

/-- The answer of the monitor finds the worker waiting and ends it. -/
theorem Trans.waited {a : Except Error H} (hs : Trans cfg s (.poll id (.wait a)) s') :
    s.Waits id ∧ s'.workers.lookup id = none := by
  cases hs with
  | move _ hw hm =>
      have hwait := DefaultTxTask.execute_wait hm
      rw [hwait] at hm
      rcases DefaultTxTask.execute_waiting hm with ⟨_, hq⟩ | ⟨_, _, hq⟩ <;> cases hq
  | finish _ hw hm =>
      exact ⟨⟨_, hw, DefaultTxTask.execute_wait hm⟩, AList.lookup_erase _ _⟩
  | workerPanic _ hw hm =>
      have hwait := DefaultTxTask.execute_wait hm
      rw [hwait] at hm
      rcases DefaultTxTask.execute_waiting hm with ⟨hr, _⟩ | ⟨_, _, hq⟩
      · cases hr
      · cases hq

/-- The workers that wait for the monitor run tasks that watch no stream. -/
def State.Unwatched (s : State H) : Prop :=
  ∀ id w, s.workers.lookup id = some w → w.awaiting = .waiting → w.task.watched = false

theorem Trans.unwatched (hs : Trans cfg s i s') (h : s.Unwatched) : s'.Unwatched := by
  intro id v hv hwait
  cases hs with
  | pop =>
      simp only [State.launch, AList.lookup_insert_eq] at hv
      split at hv
      · cases hv
        cases hwait
      · exact h id v hv hwait
  | @move k w r es p hp hw hm =>
      simp only [AList.lookup_insert_eq] at hv
      split at hv
      · cases hv
        rw [show p = .waiting from hwait] at hm
        exact DefaultTxTask.execute_unwatched hm
      · exact h id v hv hwait
  | finish =>
      simp only [State.consumePending, State.complete, AList.lookup_erase_eq] at hv
      split at hv
      · cases hv
      · exact h id v hv hwait
  | classify =>
      obtain ⟨_, _, _, _, he⟩ := classify_frame s
      rw [he] at hv
      exact h id v hv hwait
  | @count n =>
      rcases startRefill_phase cfg s n with he | ⟨b, _, he⟩ <;> rw [he] at hv <;>
        exact h id v hv hwait
  | _ => exact h id v hv hwait

/-- Under a monitor a worker whose submission succeeds has submitted until now, and waits from now
on. -/
theorem Trans.submitted {a : H} (hmon : cfg.monitor = true)
    (hs : Trans cfg s (.poll id (.submit (.ok a))) s') :
    ¬ s.Asked id ∧ s'.Waits id := by
  have hnot : ∀ {w}, s.workers.lookup id = some w → w.awaiting = .submitting → ¬ s.Asked id := by
    intro w hw hsub hasked
    have hwait := hasked.2 w hw
    rw [hsub] at hwait
    cases hwait
  cases hs with
  | @move _ w _ es p _ hw hm =>
      rw [hmon] at hm
      obtain ⟨_, hsub, hq⟩ := DefaultTxTask.execute_submitted hm
      cases hq
      exact ⟨hnot hw hsub, { w with awaiting := .waiting }, AList.lookup_insert _, rfl⟩
  | finish _ hw hm =>
      rw [hmon] at hm
      cases (DefaultTxTask.execute_submitted hm).2.2
  | workerPanic _ hw hm =>
      rw [hmon] at hm
      cases (DefaultTxTask.execute_submitted hm).2.2

/-! ## Runs -/

theorem run_keeps_good {js : List (Input H)} (hgood : Good tasks s)
    (h : (machine H cfg).run s js = some s') : Good tasks s' :=
  Machine.run_invariant (M := machine H cfg) (fun _ _ _ hg hv => step_good hg hv) hgood h

theorem run_grows {js : List (Input H)} (h : (machine H cfg).run s js = some s') :
    s.popped <+: s'.popped := by
  have hstep : ∀ (u : State H) i v, s.popped <+: u.popped → (machine H cfg).step u i = some v →
      s.popped <+: v.popped := by
    intro u i v hu hv
    rcases (step_trans hv).grows.2 with hp | ⟨t, hp⟩ <;> rw [hp]
    · exact hu
    · exact hu.trans (List.prefix_append _ _)
  exact Machine.run_invariant (M := machine H cfg) hstep (List.prefix_refl _) h

theorem run_asked {js : List (Input H)} (h : (machine H cfg).run s js = some s')
    (hasked : s.Asked id) : s'.Asked id :=
  Machine.run_invariant (M := machine H cfg) (fun _ _ _ hu hv => (step_trans hv).asked hu) hasked h

theorem run_unwatched {js : List (Input H)} (h : (machine H cfg).run s js = some s')
    (hs : s.Unwatched) : s'.Unwatched :=
  Machine.run_invariant (M := machine H cfg) (fun _ _ _ hu hv => (step_trans hv).unwatched hu) hs h

theorem run_waits_of {js : List (Input H)} (h : (machine H cfg).run s js = some s')
    (hjs : ∀ a, .poll id (.submit (.ok a)) ∉ js) (hwait : s'.Waits id) : s.Waits id := by
  let Inv : State H → Prop := fun u => u.Waits id → s.Waits id
  have hstep : ∀ u v, ∀ j ∈ js, Inv u → (machine H cfg).step u j = some v → Inv v := by
    intro u v j hj hu hv hw
    rcases (step_trans hv).waits_of hw with hw | ⟨a, rfl⟩
    · exact hu hw
    · exact absurd hj (hjs a)
  exact Machine.run_invariant_of_mem (M := machine H cfg) hstep (fun h => h) h hwait

theorem run_waits_keep {js : List (Input H)} (hgood : Good tasks s)
    (h : (machine H cfg).run s js = some s') (hjs : ∀ a, .poll id (.wait a) ∉ js)
    (hwait : s.Waits id) : s'.Waits id := by
  let Inv : State H → Prop := fun u => Good tasks u ∧ u.Waits id
  have hstep : ∀ u v, ∀ j ∈ js, Inv u → (machine H cfg).step u j = some v → Inv v := by
    intro u v j hj ⟨hg, hw⟩ hv
    refine ⟨step_good hg hv, (step_trans hv).waits_keep hg.inv (fun a ha => ?_) hw⟩
    exact hjs a (ha ▸ hj)
  exact (Machine.run_invariant_of_mem (M := machine H cfg) hstep ⟨hgood, hwait⟩ h).2

end Runner

end TxTestTool
