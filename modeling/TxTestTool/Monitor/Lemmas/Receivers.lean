import TxTestTool.Monitor.Lemmas.Runs

/-!
# Runs that differ in the receivers

As long as no trigger without a receiver is fired, the monitor does not see which receivers are
still there.
-/

namespace TxTestTool

variable {H : Type*} [DecidableEq H]

def Channel.revive (c : Channel H) : Channel H := { c with receiver := true }

namespace BlockMonitor

variable {s t : State H} {answer : Except Error H} {hash : H} {hs : List H}

def State.revive (s : State H) : State H := { s with channels := Channel.revive ∘ s.channels }

omit [DecidableEq H] in
theorem revive_stop {status : Status} : (s.stop status).revive = s.revive.stop status := by
  simp only [State.stop, State.revive, State.mk.injEq, true_and, and_true]
  funext k
  by_cases hk : k ∈ s.callbacks.values <;> simp [hk, Channel.revive, Channel.close]

theorem revive_register {u : Option BlockNumber} :
    (s.register hash u).revive = s.revive.register hash u := by
  simp only [State.register, State.revive, State.expiring, State.mk.injEq, true_and, and_true]
  cases s.callbacks.lookup hash with
  | none => rfl
  | some old => exact Function.comp_update ..

omit [DecidableEq H] in
theorem revive_refuse {u : Option BlockNumber} :
    (s.refuse hash u).revive = s.revive.refuse hash u := by
  simp only [State.refuse, State.revive, State.mk.injEq, true_and, and_true]
  exact Function.comp_update ..

theorem revive_notify (h : s.notify answer hash = .ok t) :
    s.revive.notify answer hash = .ok t.revive := by
  unfold State.notify at h ⊢
  cases hk : s.callbacks.lookup hash with
  | none =>
      simp only [hk, Except.ok.injEq] at h
      subst h
      simp [State.revive, hk]
  | some k =>
      simp only [hk] at h
      split at h
      · simp only [Except.ok.injEq] at h
        subst h
        simp only [State.revive, hk, Function.comp, Channel.revive, ↓reduceIte, Except.ok.injEq,
          State.mk.injEq, true_and, and_true]
        have hcomp := Function.comp_update (Channel.revive (H := H)) s.channels k
          ((s.channels k).send answer)
        exact hcomp.symm
      · cases h

theorem revive_notifyAll (h : s.notifyAll answer hs = .ok t) :
    s.revive.notifyAll answer hs = .ok t.revive := by
  induction hs generalizing s with
  | nil =>
      simp only [State.notifyAll, List.foldlM_nil, pure, Except.pure, Except.ok.injEq] at h
      subst h
      rfl
  | cons a hs ih =>
      rw [notifyAll_cons] at h ⊢
      cases ha : s.notify answer a with
      | error u => rw [ha] at h; cases h
      | ok u =>
          rw [ha] at h
          rw [revive_notify ha]
          exact ih h

theorem revive_settle {n : BlockNumber} {b : H} {order : List H}
    (h : s.settle n b hs order = .ok t) : s.revive.settle n b hs order = .ok t.revive := by
  unfold State.settle at h ⊢
  cases hu : s.notifyAll (.ok b) hs with
  | error u => rw [hu] at h; cases h
  | ok u =>
      rw [hu] at h
      rw [revive_notifyAll hu]
      exact revive_notifyAll h

def HeardBlock (s : State H) : Event H → Prop
  | .finalized block _ => s.status = .running → block.extrinsics.isSome →
      s.Heard (block.hashes ++ s.expiring block.number)
  | _ => True

instance (hs : List H) : Decidable (s.Heard hs) := by
  unfold State.Heard
  infer_instance

instance : (e : Event H) → Decidable (HeardBlock s e)
  | .finalized block _ => inferInstanceAs (Decidable (s.status = .running →
      block.extrinsics.isSome → s.Heard (block.hashes ++ s.expiring block.number)))
  | .best _ | .request _ _ | .dropReceiver _ | .allDisabled => .isTrue trivial

def Event.isDrop : Event H → Bool
  | .dropReceiver _ => true
  | _ => false

/-- A step among listeners that may leave is the same step among listeners that stay. -/
theorem step_revive {e : Event H} (hw : s.status = .running → s.Wired) (hok : HeardBlock s e)
    (h : step s e = some t) :
    (machine H).run s.revive (if e.isDrop then [] else [e]) = some t.revive := by
  have hone : ∀ {u}, step s.revive e = some u → (machine H).run s.revive [e] = some u := by
    intro u hu
    exact Machine.run_cons.mpr ⟨u, hu, rfl⟩
  cases e with
  | dropReceiver k =>
      simp only [step, Option.some.injEq] at h
      subst h
      simp only [Event.isDrop, ↓reduceIte, Machine.run_nil, Option.some.injEq, State.revive,
        State.mk.injEq, true_and, and_true]
      rw [Function.comp_update]
      exact (Function.update_eq_self_iff.mpr rfl).symm
  | finalized block order =>
      refine hone ?_
      have hexp : s.revive.expiring block.number = s.expiring block.number := rfl
      have hstatus : s.revive.status = s.status := rfl
      by_cases hs : s.status = .running
      · simp only [step, hs, hstatus, hexp, ↓reduceIte, Option.ite_none_right_eq_some,
          Option.some.injEq] at h ⊢
        obtain ⟨hperm, rfl⟩ := h
        refine ⟨hperm, ?_⟩
        by_cases hx : block.extrinsics.isSome
        · obtain ⟨u, hu⟩ := settle_ok (hw hs) hperm (hok hs hx)
          rw [handleBlock_fetched order hx, handleBlock_fetched order hx, hu, revive_settle hu]
        · rw [handleBlock_unfetched hx, handleBlock_unfetched hx, revive_stop]
      · simp only [step, hs, hstatus, ↓reduceIte, Option.some.injEq] at h ⊢
        rw [h]
  | best block =>
      refine hone ?_
      have hstatus : s.revive.status = s.status := rfl
      simp only [step, hstatus, Option.some.injEq] at h ⊢
      subst h
      unfold State.handleBlock
      cases block.extrinsics <;> split <;> simp [revive_stop]
  | request a u =>
      refine hone ?_
      have hstatus : s.revive.status = s.status := rfl
      simp only [step, hstatus, Option.some.injEq] at h ⊢
      subst h
      split
      · exact revive_register.symm
      · exact revive_refuse.symm
  | allDisabled =>
      refine hone ?_
      have hstatus : s.revive.status = s.status := rfl
      simp only [step, hstatus, Option.some.injEq] at h ⊢
      subst h
      split
      · exact revive_stop.symm
      · rfl

omit [DecidableEq H] in
theorem flatMap_isDrop (es : List (Event H)) :
    (es.flatMap fun e => if e.isDrop then [] else [e]) = es.filter (!·.isDrop) := by
  induction es with
  | nil => rfl
  | cons e es ih => cases he : e.isDrop <;> simp [he, ih]

/-- Without the departures the run ends in the same state among listeners that stay. -/
theorem run_revive {es : List (Event H)} (hok : (machine H).Meets (fun _ => HeardBlock) [] new es)
    (h : (machine H).run new es = some s) :
    (machine H).run new (es.filter (!·.isDrop)) = some s.revive := by
  have hinv : ∀ (past : List (Event H)) (s : State H) e t, (s.status = .running → s.Wired) →
      HeardBlock s e → (machine H).step s e = some t → t.status = .running → t.Wired := by
    intro past s e t hw _ ht hrun
    have hs := hw (step_running ht hrun)
    exact (step_live hs ht hrun).wired hs
  have hsim : ∀ (past : List (Event H)) (s : State H) e t, (s.status = .running → s.Wired) →
      HeardBlock s e → (machine H).step s e = some t →
      (machine H).run s.revive (if e.isDrop then [] else [e]) = some t.revive :=
    fun _ _ _ _ hw hheard ht => step_revive hw hheard ht
  rw [← flatMap_isDrop]
  exact Machine.Meets.run_flatMap hinv hsim (fun _ => new_sound.wired) hok h

end BlockMonitor

end TxTestTool
