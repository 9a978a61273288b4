import TxTestTool.Runner.Lemmas.Replay

/-!
# Where the popped tasks are, and what a series of polls does

Every popped task is in a worker or has one result. Polls of one worker move that worker only.
-/

namespace TxTestTool.Runner

variable {H : Type*} [DecidableEq H]

namespace Ledger

variable {tasks : List (DefaultTxTask H)} {l l' : Ledger H} {monitor : Bool}
  {lbl : Option (Nat × Reply H)}

def Placed (l : Ledger H) : Prop :=
  (l.workers.keys ++ l.finished.map Prod.fst).Perm (List.range l.popped.length)

theorem Step.placed (hs : Step monitor l lbl l') (hinv : l.Inv tasks) (h : l.Placed) :
    l'.Placed := by
  unfold Placed at h ⊢
  cases hs with
  | @pop t ts now =>
      have hnew : l.popped.length ∉ l.workers.keys := by
        rw [← AList.mem_keys]
        exact hinv.next_fresh
      simp only [AList.keys_insert, List.erase_of_not_mem hnew, List.length_append,
        List.length_singleton, List.range_succ, List.cons_append]
      exact (h.cons _).trans (List.perm_append_singleton _ _).symm
  | @move id w r now es p hw =>
      have hmem : id ∈ l.workers.keys := AList.mem_keys.mp (AList.mem_of_lookup hw)
      rw [AList.keys_insert]
      exact ((List.perm_cons_erase hmem).symm.append_right _).trans h
  | @finish id w r now es result hheld hw =>
      have hmem : id ∈ l.workers.keys := AList.mem_keys.mp (AList.mem_of_lookup hw)
      rw [AList.keys_erase, List.map_append, ← List.append_assoc]
      refine List.Perm.trans ?_ h
      refine (List.perm_append_singleton id _).trans ?_
      exact (List.perm_cons_erase hmem).symm.append_right _
  | _ => exact h

namespace Placed

omit [DecidableEq H]

variable {id : Nat} {w : Worker H} {result : ExecutionResult H}

theorem nodup (h : l.Placed) : (l.workers.keys ++ l.finished.map Prod.fst).Nodup :=
  h.nodup_iff.mpr List.nodup_range

theorem worker_lt (h : l.Placed) (hw : l.workers.lookup id = some w) : id < l.popped.length := by
  have hmem : id ∈ l.workers.keys := AList.mem_keys.mp (AList.mem_of_lookup hw)
  exact List.mem_range.mp (h.subset (List.mem_append_left _ hmem))

theorem finished_lt (h : l.Placed) (hf : (id, result) ∈ l.finished) : id < l.popped.length :=
  List.mem_range.mp (h.subset (List.mem_append_right _ (List.mem_map_of_mem hf)))

theorem gone (h : l.Placed) (hf : (id, result) ∈ l.finished) : l.workers.lookup id = none := by
  rw [AList.lookup_eq_none, AList.mem_keys]
  intro hmem
  exact (List.nodup_append.mp h.nodup).2.2 id hmem id (List.mem_map_of_mem hf) rfl

theorem place (h : l.Placed) (hid : id < l.popped.length) :
    (∃ w, l.workers.lookup id = some w) ∨ ∃ result, (id, result) ∈ l.finished := by
  rcases List.mem_append.mp (h.symm.subset (List.mem_range.mpr hid)) with hmem | hmem
  · exact Or.inl (Option.isSome_iff_exists.mp (AList.lookup_isSome.mpr (AList.mem_keys.mpr hmem)))
  · obtain ⟨⟨_, result⟩, hf, rfl⟩ := List.mem_map.mp hmem
    exact Or.inr ⟨result, hf⟩

end Placed

end Ledger

variable {cfg : Config} {tasks : List (DefaultTxTask H)} {wall : SystemTime}
  {is : List (Input H)} {s s' u : State H} {i : Input H}

theorem step_placed (hgood : Good tasks s) (h : s.ledger.Placed) (hs : step cfg s i = some s') :
    s'.ledger.Placed := by
  obtain ⟨hl, _⟩ := (step_trans hs).ledger hgood.idle hgood.transactions_keys
  exact hl.placed hgood.inv h

theorem new_placed : (new cfg tasks wall).ledger.Placed := List.Perm.refl []

theorem run_placed (h : (machine H cfg).run (new cfg tasks wall) is = some s) :
    s.ledger.Placed := by
  let Inv : State H → Prop := fun s => Good tasks s ∧ s.ledger.Placed
  have hstep : ∀ s i t, Inv s → (machine H cfg).step s i = some t → Inv t :=
    fun s i t ⟨hg, hp⟩ ht => ⟨step_good hg ht, step_placed hg hp ht⟩
  exact (Machine.run_invariant hstep (show Inv (new cfg tasks wall) from ⟨new_good, new_placed⟩) h).2

/-! ## Steps without a reply -/

/-- A step that reaches no worker at most starts a new one. -/
structure Quiet (s s' : State H) : Prop where
  finished : s'.finished = s.finished
  popped : s.popped.length ≤ s'.popped.length
  started : ∀ id w, s'.workers.lookup id = some w → s.workers.lookup id = some w ∨
    s.popped.length ≤ id ∧ w.awaiting = .created
  kept : ∀ id w, s.workers.lookup id = some w → s'.workers.lookup id = some w

omit [DecidableEq H] in
theorem Quiet.same (hf : s'.finished = s.finished) (hp : s'.popped = s.popped)
    (hw : s'.workers = s.workers) : Quiet s s' :=
  ⟨hf, by rw [hp], fun id w h => Or.inl (by rwa [hw] at h), fun id w h => by rwa [hw]⟩

theorem Trans.quiet (hs : Trans cfg s i s') (hplaced : s.ledger.Placed) (hi : i.reply = none) :
    Quiet s s' := by
  cases hs with
  | @pop next t ts =>
      refine ⟨rfl, by simp [State.launch], fun id w hw => ?_, fun id w hw => ?_⟩
      · simp only [State.launch, AList.lookup_insert_eq] at hw
        split at hw
        · rename_i hid
          cases hw
          exact Or.inr ⟨Nat.le_of_eq hid.symm, rfl⟩
        · exact Or.inl hw
      · have hlt : id < s.popped.length := hplaced.worker_lt hw
        simpa only [State.launch, AList.lookup_insert_eq, Nat.ne_of_lt hlt, ↓reduceIte] using hw
  | missing => exact ⟨rfl, by simp, fun _ _ h => Or.inl h, fun _ _ h => h⟩
  | move => cases hi
  | finish => cases hi
  | workerPanic => cases hi
  | classify =>
      obtain ⟨_, _, _, _, he⟩ := classify_frame s
      rw [he]
      exact .same rfl rfl rfl
  | @count n =>
      rcases startRefill_phase cfg s n with he | ⟨b, _, he⟩ <;> rw [he] <;> exact .same rfl rfl rfl
  | _ => exact .same rfl rfl rfl

/-! ## Polls of one worker -/

/-- What a series of polls of worker `id` leaves behind, when it leads the future of the worker to
`q`. -/
structure After (s : State H) (id : Nat) (w : Worker H) (q : Poll H) (s' : State H) : Prop where
  popped : s'.popped = s.popped
  transactions : s'.transactions = s.transactions
  wall : s'.wall = s.wall
  now : s'.now = s.now
  others : ∀ k, k ≠ id → s'.workers.lookup k = s.workers.lookup k
  pending : ∀ p, q = .pending p → s'.phase = .select ∧ s'.finished = s.finished ∧
    s'.workers.lookup id = some { w with awaiting := p }
  ready : ∀ result, q = .ready result → (s'.phase = .counting ∨ s'.phase = .refill none usizeMax) ∧
    s'.finished = s.finished ++ [(id, result)] ∧ s'.workers.lookup id = none
  panicked : q = .panicked → s'.phase = .panicked .sink

variable {id : Nat} {w : Worker H} {q : Poll H} {r : Reply H} {es : List (ExecutionEvent H)}

/-- One poll. -/
theorem poll_after (hp : s.phase = .select) (hw : s.workers.lookup id = some w)
    (hm : w.task.execute cfg.monitor s.wall w.awaiting r = some (es, q)) :
    ∃ s', step cfg s (.poll id r) = some s' ∧ After s id w q s' := by
  have hstep : step cfg s (.poll id r) = s.pollWorker cfg id r := if_pos hp
  cases q with
  | pending p =>
      refine ⟨{ s.pushEvents w.task.tx.hash es with
        workers := s.workers.insert id { w with awaiting := p } }, ?_, ?_⟩
      · simp only [hstep, State.pollWorker, hw, hm]
      · refine ⟨rfl, rfl, rfl, rfl, fun k hk => AList.lookup_insert_ne hk, ?_, ?_, ?_⟩
        · intro p' he
          cases he
          exact ⟨hp, rfl, AList.lookup_insert _⟩
        · intro _ he
          cases he
        · intro he
          cases he
  | ready result =>
      refine ⟨(s.complete id w.task.tx.hash es result).consumePending cfg, ?_, ?_⟩
      · simp only [hstep, State.pollWorker, hw, hm]
      · refine ⟨rfl, rfl, rfl, rfl, fun k hk => AList.lookup_erase_ne hk, ?_, ?_, ?_⟩
        · intro _ he
          cases he
        · intro result' he
          cases he
          exact ⟨consumePending_phase cfg _, rfl, AList.lookup_erase _ _⟩
        · intro he
          cases he
  | panicked =>
      refine ⟨{ s with phase := .panicked .sink }, ?_, ?_⟩
      · simp only [hstep, State.pollWorker, hw, hm]
      · refine ⟨rfl, rfl, rfl, rfl, fun k _ => rfl, ?_, ?_, fun _ => rfl⟩
        · intro _ he
          cases he
        · intro _ he
          cases he

omit [DecidableEq H] in
theorem After.refl (hp : s.phase = .select) (hw : s.workers.lookup id = some w) :
    After s id w (.pending w.awaiting) s := by
  refine ⟨rfl, rfl, rfl, rfl, fun _ _ => rfl, ?_, ?_, ?_⟩
  · intro p he
    cases he
    exact ⟨hp, rfl, hw⟩
  · intro _ he
    cases he
  · intro he
    cases he

omit [DecidableEq H] in
theorem After.trans {p : AwaitPoint} (h : After s id w (.pending p) u)
    (h' : After u id { w with awaiting := p } q s') : After s id w q s' := by
  obtain ⟨_, hf, _⟩ := h.pending p rfl
  refine ⟨h'.popped.trans h.popped, h'.transactions.trans h.transactions, h'.wall.trans h.wall,
    h'.now.trans h.now, fun k hk => (h'.others k hk).trans (h.others k hk), ?_, ?_, h'.panicked⟩
  · intro p' he
    obtain ⟨hph, hf', hlook⟩ := h'.pending p' he
    exact ⟨hph, hf'.trans hf, hlook⟩
  · intro result he
    obtain ⟨hph, hf', hlook⟩ := h'.ready result he
    exact ⟨hph, by rw [hf', hf], hlook⟩

/-- A worker that is given replies goes where they lead, if it takes all of them. -/
theorem polls_run (cfg : Config) {rs : List (Reply H)} (hp : s.phase = .select)
    (hw : s.workers.lookup id = some w)
    (hf : rs.foldlM (w.task.advance cfg.monitor) (.pending w.awaiting) = some q) :
    ∃ s', (machine H cfg).run s (rs.map (.poll id)) = some s' ∧ After s id w q s' := by
  induction rs generalizing s w with
  | nil =>
      simp only [List.foldlM_nil, Option.pure_def, Option.some.injEq] at hf
      subst hf
      exact ⟨s, rfl, .refl hp hw⟩
  | cons r rs ih =>
      simp only [List.foldlM_cons, Option.bind_eq_bind, Option.bind_eq_some_iff] at hf
      obtain ⟨q₀, hr, hrest⟩ := hf
      have hnow := w.task.execute_now cfg.monitor 0 s.wall w.awaiting r
      rw [DefaultTxTask.advance, hnow, Option.map_eq_some_iff] at hr
      obtain ⟨⟨es, _⟩, hm, rfl⟩ := hr
      obtain ⟨u, hu, hafter⟩ := poll_after hp hw hm
      cases rs with
      | nil =>
          simp only [List.foldlM_nil, Option.pure_def, Option.some.injEq] at hrest
          subst hrest
          exact ⟨u, Machine.run_cons.mpr ⟨u, hu, rfl⟩, hafter⟩
      | cons r' rs =>
          -- only a future that waits takes another reply
          rename_i q₁
          cases q₁ with
          | pending p =>
              obtain ⟨hph, _, hlook⟩ := hafter.pending p rfl
              obtain ⟨s', hrun, hafter'⟩ := ih hph hlook hrest
              exact ⟨s', Machine.run_cons.mpr ⟨u, hu, hrun⟩, hafter.trans hafter'⟩
          | ready => simp [DefaultTxTask.advance] at hrest
          | panicked => simp [DefaultTxTask.advance] at hrest

end TxTestTool.Runner
