import TxTestTool.Runner.Lemmas.Waiting

/-!
# What is written about the answers of the monitor
-/

namespace TxTestTool

variable {H : Type*}

/-- The answer that an event reports. -/
def ExecutionEvent.answer : ExecutionEvent H → Option (Except BlockNumber H)
  | .finalizedMonitor _ block => some (.ok block)
  | .mortalDroppedMonitor _ n => some (.error n)
  | _ => none

/-- The reply by which `wait` passes on an answer. -/
def answerReply (r : Except BlockNumber H) : Reply H := .wait (r.mapError .mortalLifetimeSurpassed)

/-- How a task ends upon an answer. -/
def resultOf (hash : H) : Except BlockNumber H → ExecutionResult H
  | .ok _ => .done hash
  | .error _ => .error hash

namespace DefaultTxTask

variable {t : DefaultTxTask H} {now : SystemTime} {p : AwaitPoint} {r : Reply H}
  {es : List (ExecutionEvent H)} {next : Poll H}

theorem execute_answer {monitor : Bool} (h : t.execute monitor now p r = some (es, next))
    {e : ExecutionEvent H} (he : e ∈ es) {a : Except BlockNumber H} (ha : e.answer = some a) :
    r = answerReply a := by
  unfold execute sendWatchedTx sendTx at h
  split at h <;> split at h <;> simp only [Option.some.injEq, Prod.mk.injEq, reduceCtorEq] at h
  all_goals obtain ⟨rfl, _⟩ := h
  all_goals simp only [List.mem_cons, List.not_mem_nil, or_false] at he
  all_goals subst he
  all_goals cases ha <;> rfl

/-- Under a monitor an unwatched task ends as an answer says, or with an error when its submission
or the monitor fails. -/
theorem execute_ready {result : ExecutionResult H}
    (h : t.execute true now p r = some (es, .ready result)) (hw : t.watched = false) :
    (∃ a, r = answerReply a ∧ result = resultOf t.tx.hash a) ∨
      result = .error t.tx.hash ∧ ((∃ e, r = .submit (.error e)) ∨ r.isMonitorFailure = true) := by
  unfold execute sendTx at h
  rw [hw] at h
  simp only [Bool.false_eq_true, ↓reduceIte] at h
  split at h <;> simp only [Option.some.injEq, Prod.mk.injEq, reduceCtorEq, Poll.ready.injEq,
    and_false] at h
  all_goals obtain ⟨_, rfl⟩ := h
  · exact Or.inr ⟨rfl, Or.inl ⟨_, rfl⟩⟩
  · rename_i block _
    exact Or.inl ⟨.ok block, rfl, rfl⟩
  · rename_i n _
    exact Or.inl ⟨.error n, rfl, rfl⟩
  · rename_i err hne _
    refine Or.inr ⟨rfl, Or.inr ?_⟩
    cases err with
    | mortalLifetimeSurpassed n => exact absurd rfl (hne n)
    | _ => rfl

end DefaultTxTask

namespace Runner

variable [DecidableEq H] {cfg : Config} {tasks : List (DefaultTxTask H)} {s s' : State H}
  {i : Input H} {P : H → Except BlockNumber H → Prop} {Q : Nat → Prop}

/-- The answers in the logs all meet `P`, and so do those by which unwatched tasks have ended,
unless `Q` says that they failed otherwise. -/
structure Recorded (P : H → Except BlockNumber H → Prop) (Q : Nat → Prop) (s : State H) :
    Prop where
  logged : ∀ a log, s.logs.lookup a = some log → ∀ e ∈ log.events, ∀ r, e.answer = some r → P a r
  finished : ∀ id result, (id, result) ∈ s.finished → ∃ t, s.popped[id]? = some t ∧
    result.hash = t.tx.hash ∧ (t.watched = false → result = .error t.tx.hash ∧ Q id ∨
      ∃ r, P t.tx.hash r ∧ result = resultOf t.tx.hash r)

theorem Recorded.mono {P' : H → Except BlockNumber H → Prop} (h : Recorded P Q s)
    (hP : ∀ a r, P a r → P' a r) : Recorded P' Q s where
  logged a log hlog e he r hr := hP a r (h.logged a log hlog e he r hr)
  finished id result hf := by
    obtain ⟨t, ht, ha, hresult⟩ := h.finished id result hf
    refine ⟨t, ht, ha, fun hw => (hresult hw).imp_right ?_⟩
    rintro ⟨r, hr, he⟩
    exact ⟨r, hP _ r hr, he⟩

/-- What an input may tell a worker. -/
structure Tells (P : H → Except BlockNumber H → Prop) (Q : Nat → Prop) (s : State H)
    (i : Input H) : Prop where
  answer : ∀ id r w, i = .poll id (answerReply r) → s.workers.lookup id = some w →
    P w.task.tx.hash r
  refused : ∀ id e, i = .poll id (.submit (.error e)) → Q id
  failed : ∀ id r, i = .poll id r → r.isMonitorFailure = true → Q id

theorem Recorded.pushed {hash : H} {es : List (ExecutionEvent H)} (h : Recorded P Q s)
    (hes : ∀ e ∈ es, ∀ r, e.answer = some r → P hash r) :
    ∀ a log, (s.books.pushEvents hash es).logs.lookup a = some log →
      ∀ e ∈ log.events, ∀ r, e.answer = some r → P a r := by
  intro a log hlog e he r hr
  rw [Books.lookup_pushEvents] at hlog
  split at hlog
  · rename_i ha
    obtain ⟨old, hold, rfl⟩ := Option.map_eq_some_iff.mp hlog
    subst ha
    rcases List.mem_append.mp he with he | he
    · exact h.logged a old hold e he r hr
    · exact hes e he r hr
  · exact h.logged a log hlog e he r hr

theorem Trans.recorded (hmon : cfg.monitor = true) (hgood : Good tasks s) (hs : Trans cfg s i s')
    (h : Recorded P Q s) (hi : Tells P Q s i) : Recorded P Q s' := by
  have hnew : ∀ {id r w es q}, i = .poll id r → s.workers.lookup id = some w →
      w.task.execute cfg.monitor s.wall w.awaiting r = some (es, q) →
      ∀ e ∈ es, ∀ a, e.answer = some a → P w.task.tx.hash a := by
    intro id r w es q he hw hm e hmem a ha
    exact hi.answer id a w (DefaultTxTask.execute_answer hm hmem ha ▸ he) hw
  cases hs with
  | @pop next t ts hp ht =>
      refine ⟨h.pushed fun e he r hr => ?_, fun id a hf => ?_⟩
      · rw [List.mem_singleton.mp he] at hr
        cases hr
      · obtain ⟨u, hu, hrest⟩ := h.finished id a hf
        refine ⟨u, ?_, hrest⟩
        exact (List.getElem?_append_left (List.getElem?_eq_some_iff.mp hu).1).trans hu
  | missing =>
      refine ⟨h.logged, fun id a hf => ?_⟩
      obtain ⟨u, hu, hrest⟩ := h.finished id a hf
      exact ⟨u, (List.getElem?_append_left (List.getElem?_eq_some_iff.mp hu).1).trans hu, hrest⟩
  | move _ hw hm => exact ⟨h.pushed (hnew rfl hw hm), h.finished⟩
  | @finish id w r es result _ hw hm =>
      refine ⟨h.pushed (hnew rfl hw hm), fun k a hf => ?_⟩
      rcases List.mem_append.mp hf with hf | hf
      · exact h.finished k a hf
      · simp only [List.mem_singleton, Prod.mk.injEq] at hf
        obtain ⟨rfl, rfl⟩ := hf
        refine ⟨w.task, hgood.inv.fresh k w hw, (DefaultTxTask.execute_move hm).ready_hash,
          fun hwatched => ?_⟩
        rw [hmon] at hm
        rcases DefaultTxTask.execute_ready hm hwatched with ⟨a, rfl, hres⟩ | ⟨hres, ⟨e, rfl⟩ | hf⟩
        · exact Or.inr ⟨a, hi.answer k a w rfl hw, hres⟩
        · exact Or.inl ⟨hres, hi.refused k e rfl⟩
        · exact Or.inl ⟨hres, hi.failed k r rfl hf⟩
  | classify =>
      obtain ⟨_, _, _, _, he⟩ := classify_frame s
      rw [he]
      exact ⟨h.logged, h.finished⟩
  | @count n =>
      rcases startRefill_phase cfg s n with he | ⟨b, _, he⟩ <;> rw [he] <;>
        exact ⟨h.logged, h.finished⟩
  | _ => exact ⟨h.logged, h.finished⟩

/-- A worker that waits takes its answer as soon as it is polled. -/
theorem step_answered {id : Nat} {w : Worker H} {a : Except BlockNumber H}
    (hsel : s.phase = .select) (hw : s.workers.lookup id = some w) (hwait : w.awaiting = .waiting)
    (hunwatched : w.task.watched = false) :
    ∃ v, step cfg s (.poll id (answerReply a)) = some v ∧
      (id, resultOf w.task.tx.hash a) ∈ v.finished := by
  obtain ⟨es, hm⟩ : ∃ es, w.task.execute cfg.monitor s.wall w.awaiting (answerReply a) =
      some (es, .ready (resultOf w.task.tx.hash a)) := by
    rw [hwait, DefaultTxTask.execute, if_neg (by simp [hunwatched])]
    cases a with
    | ok block => exact ⟨_, rfl⟩
    | error n => exact ⟨_, rfl⟩
  refine ⟨(s.complete id w.task.tx.hash es (resultOf w.task.tx.hash a)).consumePending cfg, ?_, ?_⟩
  · simp only [step, hsel, ↓reduceIte, State.pollWorker, hw, hm]
  · simp [State.consumePending, State.complete]

theorem new_recorded {wall : SystemTime} : Recorded P Q (new cfg tasks wall) where
  logged a log hlog e he := by
    rw [collectLogs_events hlog] at he
    cases he
  finished _ _ hf := by cases hf

/-- Inputs that bring no answer. -/
theorem run_unanswered {js : List (Input H)} (hmon : cfg.monitor = true) (hgood : Good tasks s)
    (hrun : (machine H cfg).run s js = some s') (hjs : ∀ id r, .poll id (.wait r) ∉ js)
    (hrefused : ∀ id e, .poll id (.submit (.error e)) ∈ js → Q id) (h : Recorded P Q s) :
    Recorded P Q s' := by
  let Inv : State H → Prop := fun u => Good tasks u ∧ Recorded P Q u
  have hstep : ∀ u v, ∀ j ∈ js, Inv u → (machine H cfg).step u j = some v → Inv v := by
    intro u v j hj ⟨hg, hrec⟩ hv
    refine ⟨step_good hg hv, (step_trans hv).recorded hmon hg hrec ⟨?_, ?_, ?_⟩⟩
    · rintro id r w rfl _
      exact absurd hj (hjs id _)
    · rintro id e rfl
      exact hrefused id e hj
    · rintro id r rfl hf
      cases r with
      | wait r => exact absurd hj (hjs id r)
      | _ => cases hf
  exact (Machine.run_invariant_of_mem (M := machine H cfg) hstep ⟨hgood, h⟩ hrun).2

end Runner

end TxTestTool
