import TxTestTool.Runner.Lemmas.Health

/-!
# A worker depends on its own replies only
-/

namespace TxTestTool

variable {H : Type*}

/-- What the future of a task becomes with the next reply, whatever the time is. -/
def DefaultTxTask.advance (t : DefaultTxTask H) (monitor : Bool) :
    Poll H → Reply H → Option (Poll H)
  | .pending p, r => (t.execute monitor 0 p r).map Prod.snd
  | _, _ => none

def DefaultTxTask.follow (t : DefaultTxTask H) (monitor : Bool) (rs : List (Reply H)) :
    Option (Poll H) :=
  rs.foldlM (t.advance monitor) (.pending .created)

/-- The clock decides about the timestamps only. -/
theorem DefaultTxTask.execute_now (t : DefaultTxTask H) (monitor : Bool) (now now' : SystemTime)
    (p : AwaitPoint) (r : Reply H) :
    (t.execute monitor now p r).map Prod.snd = (t.execute monitor now' p r).map Prod.snd := by
  unfold execute sendWatchedTx sendTx
  split
  · cases p <;> cases r <;> first | rfl | skip
    · rename_i res
      cases res <;> rfl
    · rename_i item
      cases item <;> rfl
  · cases p <;> cases r <;> first | rfl | skip
    · rename_i res
      cases res <;> rfl
    · rename_i res
      cases res with
      | ok => rfl
      | error e => cases e <;> rfl

theorem DefaultTxTask.follow_append {t : DefaultTxTask H} {monitor : Bool} {now : SystemTime}
    {q : AwaitPoint} {rs : List (Reply H)} {r : Reply H} {es : List (ExecutionEvent H)}
    {next : Poll H} (h : t.follow monitor rs = some (.pending q))
    (hm : t.execute monitor now q r = some (es, next)) :
    t.follow monitor (rs ++ [r]) = some next := by
  have hnow := t.execute_now monitor now 0 q r
  rw [hm, Option.map_some] at hnow
  unfold follow at h ⊢
  rw [List.foldlM_append, h]
  simp only [List.foldlM_cons, List.foldlM_nil, Option.bind_eq_bind, Option.bind_some, advance,
    ← hnow, Option.pure_def]

namespace Runner

variable [DecidableEq H] {cfg : Config} {s s' : State H} {i : Input H}

def repliesOf (id : Nat) : Option (Nat × Reply H) → List (Reply H)
  | some (id', r) => if id' = id then [r] else []
  | none => []

def Input.received (id : Nat) (i : Input H) : List (Reply H) := repliesOf id i.reply

/-- Every worker and every finished task is where its own replies lead. -/
structure Replayed (cfg : Config) (replies : Nat → List (Reply H)) (s : State H) : Prop where
  worker : ∀ id w, s.workers.lookup id = some w →
    w.task.follow cfg.monitor (replies id) = some (.pending w.awaiting)
  finished : ∀ id result, (id, result) ∈ s.finished → ∃ t, s.popped[id]? = some t ∧
    t.follow cfg.monitor (replies id) = some (.ready result)
  gone : ∀ id result, (id, result) ∈ s.finished → s.workers.lookup id = none
  unborn : ∀ id, s.popped.length ≤ id → replies id = []

variable {tasks : List (DefaultTxTask H)} {replies : Nat → List (Reply H)}

omit [DecidableEq H] in
theorem Replayed.same (h : Replayed cfg replies s) (hw : s'.workers = s.workers)
    (hf : s'.finished = s.finished) (hp : s'.popped = s.popped) : Replayed cfg replies s' where
  worker := by rw [hw]; exact h.worker
  finished := by rw [hf, hp]; exact h.finished
  gone := by rw [hf, hw]; exact h.gone
  unborn := by rw [hp]; exact h.unborn

omit [DecidableEq H] in
theorem received_ne {id k : Nat} (hne : k ≠ id) (r : Reply H) (rs : List (Reply H)) :
    rs ++ (Input.poll id r).received k = rs := by
  simp [Input.received, Input.reply, repliesOf, Ne.symm hne]

omit [DecidableEq H] in
theorem received_self {id : Nat} (r : Reply H) (rs : List (Reply H)) :
    rs ++ (Input.poll id r).received id = rs ++ [r] := by
  simp [Input.received, Input.reply, repliesOf]

theorem Replayed.launched {t : DefaultTxTask H} {ts : List (DefaultTxTask H)} {next : Phase}
    (h : Replayed cfg replies s) : Replayed cfg replies (s.launch t ts next) where
  worker id w hw := by
    simp only [State.launch, AList.lookup_insert_eq] at hw
    split at hw
    · rename_i hk
      cases hw
      rw [hk, h.unborn _ (Nat.le_refl _)]
      rfl
    · exact h.worker id w hw
  finished id result hf := by
    obtain ⟨t', ht', hrep⟩ := h.finished id result hf
    refine ⟨t', ?_, hrep⟩
    simp only [State.launch]
    rw [List.getElem?_append_left (List.getElem?_eq_some_iff.mp ht').1, ht']
  gone id result hf := by
    obtain ⟨t', ht', _⟩ := h.finished id result hf
    have hne : id ≠ s.popped.length := Nat.ne_of_lt (List.getElem?_eq_some_iff.mp ht').1
    simp only [State.launch, AList.lookup_insert_eq, hne, ↓reduceIte]
    exact h.gone id result hf
  unborn id hid := by
    simp only [State.launch, List.length_append, List.length_singleton] at hid
    exact h.unborn id (by omega)

omit [DecidableEq H] in
theorem Replayed.finished_ne {id k : Nat} {w : Worker H} {result : ExecutionResult H}
    (h : Replayed cfg replies s) (hw : s.workers.lookup id = some w)
    (hf : (k, result) ∈ s.finished) : k ≠ id := by
  rintro rfl
  rw [h.gone k result hf] at hw
  cases hw

theorem Good.unborn_ne {id k : Nat} {w : Worker H} (h : Good tasks s)
    (hw : s.workers.lookup id = some w) (hk : s.popped.length ≤ k) : k ≠ id := by
  have hlt := (List.getElem?_eq_some_iff.mp (h.inv.fresh id w hw)).1
  exact Nat.ne_of_gt (Nat.lt_of_lt_of_le hlt hk)

theorem Replayed.moved {id : Nat} {w : Worker H} {r : Reply H} {es : List (ExecutionEvent H)}
    {p : AwaitPoint} (h : Replayed cfg replies s) (hgood : Good tasks s)
    (hw : s.workers.lookup id = some w)
    (hm : w.task.execute cfg.monitor s.wall w.awaiting r = some (es, .pending p)) :
    Replayed cfg (fun k => replies k ++ (Input.poll id r).received k)
      { s.pushEvents w.task.tx.hash es with
        workers := s.workers.insert id { w with awaiting := p } } where
  worker k v hv := by
    simp only [AList.lookup_insert_eq] at hv
    split at hv
    · rename_i hk
      cases hv
      rw [hk, received_self]
      exact DefaultTxTask.follow_append (h.worker id w hw) hm
    · rename_i hk
      rw [received_ne hk]
      exact h.worker k v hv
  finished k result hf := by
    rw [received_ne (h.finished_ne hw hf)]
    exact h.finished k result hf
  gone k result hf := by
    simp only [AList.lookup_insert_eq, h.finished_ne hw hf, ↓reduceIte]
    exact h.gone k result hf
  unborn k hk := by
    rw [received_ne (hgood.unborn_ne hw hk)]
    exact h.unborn k hk

theorem Replayed.completed {id : Nat} {w : Worker H} {r : Reply H} {es : List (ExecutionEvent H)}
    {result : ExecutionResult H} (h : Replayed cfg replies s) (hgood : Good tasks s)
    (hw : s.workers.lookup id = some w)
    (hm : w.task.execute cfg.monitor s.wall w.awaiting r = some (es, .ready result)) :
    Replayed cfg (fun k => replies k ++ (Input.poll id r).received k)
      (s.complete id w.task.tx.hash es result) where
  worker k v hv := by
    simp only [State.complete, AList.lookup_erase_eq] at hv
    split at hv
    · cases hv
    · rename_i hk
      rw [received_ne hk]
      exact h.worker k v hv
  finished k res hf := by
    rcases List.mem_append.mp hf with hold | hf
    · rw [received_ne (h.finished_ne hw hold)]
      exact h.finished k res hold
    · simp only [List.mem_singleton, Prod.mk.injEq] at hf
      obtain ⟨rfl, rfl⟩ := hf
      refine ⟨w.task, hgood.inv.fresh k w hw, ?_⟩
      rw [received_self]
      exact DefaultTxTask.follow_append (h.worker k w hw) hm
  gone k res hf := by
    simp only [State.complete, AList.lookup_erase_eq]
    split
    · rfl
    · rename_i hne
      rcases List.mem_append.mp hf with hf | hf
      · exact h.gone k res hf
      · simp only [List.mem_singleton, Prod.mk.injEq] at hf
        exact absurd hf.1 hne
  unborn k hk := by
    rw [received_ne (hgood.unborn_ne hw hk)]
    exact h.unborn k hk

theorem Trans.replayed (hs : Trans cfg s i s') (hgood : Good tasks s)
    (halive : ∀ why, s'.phase ≠ .panicked why) (h : Replayed cfg replies s) :
    Replayed cfg (fun id => replies id ++ i.received id) s' := by
  have hquiet : ∀ {u : State H}, (∀ id, i.received id = []) → Replayed cfg replies u →
      Replayed cfg (fun id => replies id ++ i.received id) u := by
    intro u hi h'
    simpa only [hi, List.append_nil] using h'
  cases hs with
  | pop => exact hquiet (fun _ => rfl) h.launched
  | move hp hw hm => exact h.moved hgood hw hm
  | finish hp hw hm => exact (h.completed hgood hw hm).same rfl rfl rfl
  | workerPanic => exact absurd rfl (halive .sink)
  | missing => exact absurd rfl (halive .missingLog)
  | classify =>
      obtain ⟨_, _, _, _, he⟩ := classify_frame s
      rw [he]
      exact hquiet (fun _ => rfl) (h.same rfl rfl rfl)
  | @count n =>
      rcases startRefill_phase cfg s n with he | ⟨b, _, he⟩ <;> rw [he] <;>
        exact hquiet (fun _ => rfl) (h.same rfl rfl rfl)
  | _ => exact hquiet (fun _ => rfl) (h.same rfl rfl rfl)

/-! ## What a step keeps for good -/

theorem Trans.grows (hs : Trans cfg s i s') :
    s.finished <+: s'.finished ∧ (s'.popped = s.popped ∨ ∃ t, s'.popped = s.popped ++ [t]) := by
  cases hs with
  | pop => exact ⟨List.prefix_refl _, Or.inr ⟨_, rfl⟩⟩
  | missing => exact ⟨List.prefix_refl _, Or.inr ⟨_, rfl⟩⟩
  | finish => exact ⟨List.prefix_append _ _, Or.inl rfl⟩
  | classify =>
      obtain ⟨_, _, _, _, he⟩ := classify_frame s
      rw [he]
      exact ⟨List.prefix_refl _, Or.inl rfl⟩
  | @count n =>
      rcases startRefill_phase cfg s n with he | ⟨b, _, he⟩ <;> rw [he] <;>
        exact ⟨List.prefix_refl _, Or.inl rfl⟩
  | _ => exact ⟨List.prefix_refl _, Or.inl rfl⟩

theorem Trans.keeps (hs : Trans cfg s i s') {id : Nat} {t : DefaultTxTask H}
    {result : ExecutionResult H} (h : s.popped[id]? = some t ∧ (id, result) ∈ s.finished) :
    s'.popped[id]? = some t ∧ (id, result) ∈ s'.finished := by
  obtain ⟨hf, hp⟩ := hs.grows
  refine ⟨?_, hf.subset h.2⟩
  rcases hp with hp | ⟨u, hp⟩ <;> rw [hp]
  · exact h.1
  · rw [List.getElem?_append_left (List.getElem?_eq_some_iff.mp h.1).1, h.1]

theorem Trans.failed {id : Nat} {r : Reply H} (hs : Trans cfg s (.poll id r) s')
    (hgood : Good tasks s) (hr : r.isFailure = true) :
    ∃ t, s'.popped[id]? = some t ∧ (id, .error t.tx.hash) ∈ s'.finished := by
  cases hs with
  | move _ _ hm => cases DefaultTxTask.execute_failure hm hr
  | @finish _ w _ es result _ hw hm =>
      have hres : result = .error w.task.tx.hash := by
        simpa using DefaultTxTask.execute_failure hm hr
      refine ⟨w.task, hgood.inv.fresh id w hw, ?_⟩
      rw [hres]
      exact List.mem_append_right _ (List.mem_singleton.mpr rfl)
  | workerPanic _ _ hm => cases DefaultTxTask.execute_failure hm hr

/-- Once the loop is left, the journal is saved before anything else is done. -/
def State.Saved (s : State H) : Prop :=
  ∀ how, s.phase = .reporting how ∨ s.phase = .returned how → s.journal = some s.logs

theorem Trans.saved (hs : Trans cfg s i s') (h : s.Saved) : s'.Saved := by
  intro how hph
  cases hs with
  | save => rfl
  | report hp => exact h _ (Or.inl hp)
  | pop hp =>
      cases hold : s.phase <;> rw [hold] at hp <;> cases hp <;> rcases hph with hph | hph <;> cases hph
  | move hp =>
      have hsel : s.phase = .reporting how ∨ s.phase = .returned how := hph
      rw [hp] at hsel
      rcases hsel with hsel | hsel <;> cases hsel
  | finish =>
      rcases consumePending_phase cfg (s.complete _ _ _ _) with he | he <;> rw [he] at hph <;>
        rcases hph with hph | hph <;> cases hph
  | tick =>
      rcases consumePending_phase cfg s with he | he <;> rw [he] at hph <;>
        rcases hph with hph | hph <;> cases hph
  | classify =>
      obtain ⟨_, _, _, _, he⟩ := classify_frame s
      rw [he] at hph
      rcases hph with hph | hph <;> cases hph
  | @count n =>
      rcases startRefill_phase cfg s n with he | ⟨b, _, he⟩ <;> rw [he] at hph <;>
        rcases hph with hph | hph <;> cases hph
  | sendStop | dropSender | elapse | setClock => exact h how hph
  | _ => rcases hph with hph | hph <;> cases hph

end Runner

end TxTestTool
