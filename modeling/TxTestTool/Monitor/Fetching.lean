import TxTestTool.Monitor.Lemmas.Runs

/-!
# Blocks whose extrinsics cannot be fetched

A best block is only displayed, and a block without its extrinsics has nothing to say to a
listener. `handle_block` still passes the error of the fetch on, and `run` discards it together
with the monitor.
-/

namespace TxTestTool.BlockMonitor

variable {H : Type*} [DecidableEq H] {s s' t : State H} {es es' before after : List (Event H)}
  {e : Event H} {hash : H} {validUntil : Option BlockNumber}

/-- The event can matter to a listener: it is not a best block, and not a block that failed to
fetch. -/
def Event.counts : Event H → Bool
  | .finalized block _ => block.extrinsics.isSome
  | .best _ => false
  | _ => true

/-- A block that the running monitor takes has its extrinsics. -/
def Fetched (s : State H) : Event H → Prop
  | .finalized block _ | .best block => s.status = .running → block.extrinsics.isSome
  | _ => True

instance (e : Event H) : Decidable (Fetched s e) := by
  unfold Fetched
  split <;> infer_instance

theorem step_ignored (hok : Fetched s e) (he : e.counts = false) : step s e = some s := by
  cases e with
  | finalized block order =>
      have hs : s.status ≠ .running := fun hs => by
        have hx := hok hs
        rw [show block.extrinsics.isSome = false from he] at hx
        cases hx
      simp only [step, hs, ↓reduceIte]
  | best block =>
      by_cases hs : s.status = .running
      · obtain ⟨extrinsics, hx⟩ := Option.isSome_iff_exists.mp (hok hs)
        simp [step, hs, State.handleBlock, hx]
      · simp only [step, hs, ↓reduceIte]
  | _ => cases he

theorem step_ended (hs : s.status ≠ .running) (h : step s e = some t) : t.status = s.status := by
  cases e <;> simp only [step, hs, ↓reduceIte, Option.some.injEq] at h <;> subst h <;> rfl

/-- One failed fetch is the end of the monitor. -/
theorem step_unfetched (hok : ¬ Fetched s e) (h : step s e = some t) : t.status = .failed := by
  cases e with
  | finalized block order =>
      obtain ⟨hs, hx⟩ := Classical.not_imp.mp hok
      simp only [step, hs, ↓reduceIte, Option.ite_none_right_eq_some, Option.some.injEq] at h
      rw [← h.2, handleBlock_unfetched hx]
      rfl
  | best block =>
      obtain ⟨hs, hx⟩ := Classical.not_imp.mp hok
      simp only [step, hs, ↓reduceIte, Option.some.injEq] at h
      rw [← h, handleBlock_unfetched hx]
      rfl
  | _ => exact absurd trivial hok

theorem step_counts (hw : s.status = .running → s.Wired) (he : e.counts = true)
    (hs : s.status ≠ .failed) (h : step s e = some t) : t.status ≠ .failed := by
  by_cases hrun : s.status = .running
  · cases e with
    | finalized block order =>
        simp only [step, hrun, ↓reduceIte, Option.ite_none_right_eq_some, Option.some.injEq] at h
        obtain ⟨hperm, rfl⟩ := h
        rw [handleBlock_fetched order he]
        cases hset : s.settle block.number block.hash block.hashes order with
        | ok u => simpa [(settle_settled (hw hrun) hperm hset).status] using hs
        | error u => simp [settle_error hset]
    | best block => cases he
    | request hash u =>
        simp only [step, hrun, ↓reduceIte, Option.some.injEq] at h
        exact h ▸ hs
    | dropReceiver k =>
        cases h
        exact hs
    | allDisabled =>
        simp only [step, hrun, ↓reduceIte, Option.some.injEq] at h
        subst h
        simp [State.stop]
  · rwa [step_ended hrun h]

theorem run_counts (hes : ∀ e ∈ es, e.counts = true) (h : (machine H).run new es = some s) :
    s.status ≠ .failed := by
  let Inv : List (Event H) → State H → Prop := fun past s => (∀ e ∈ past, e.counts = true) →
    (s.status = .running → s.Wired) ∧ s.status ≠ .failed
  have hstep : ∀ past (s : State H) e t, Inv past s → (machine H).step s e = some t →
      Inv (past ++ [e]) t := by
    intro past s e t hinv ht hall
    obtain ⟨hw, hs⟩ := hinv fun e he => hall e (List.mem_append_left _ he)
    refine ⟨fun hrun => ?_, step_counts hw (hall e (by simp)) hs ht⟩
    have hwired := hw (step_running ht hrun)
    exact (step_live hwired ht hrun).wired hwired
  have h₀ : Inv [] (new : State H) := fun _ => ⟨fun _ => new_sound.wired, by simp [new]⟩
  exact (Machine.run_history_invariant hstep h₀ h hes).2

omit [DecidableEq H] in
theorem registrations_counts (es : List (Event H)) :
    registrations (es.filter (·.counts)) = registrations es := by
  induction es with
  | nil => rfl
  | cons e es ih =>
      cases e with
      | finalized block order =>
          cases hx : block.extrinsics.isSome <;>
            simpa [registrations, Event.counts, hx] using ih
      | best block => simpa [registrations, Event.counts] using ih
      | request hash u => simpa [registrations, Event.counts] using ih
      | dropReceiver k => simpa [registrations, Event.counts] using ih
      | allDisabled => simpa [registrations, Event.counts] using ih

/-- A run is the run without the best blocks and the blocks that failed to fetch exactly if the
running monitor takes no block that fails to fetch. Then such blocks can be put anywhere, and a
transaction registered once gets the verdict of the fetched finalized blocks. -/
theorem unfetched_ignored_iff (h : (machine H).run new es = some s) :
    ((machine H).run new (es.filter (·.counts)) = some s ↔
      (machine H).Meets (fun _ => Fetched) [] new es) ∧
    ((machine H).Meets (fun _ => Fetched) [] new es →
      (∀ es', es'.filter (·.counts) = es.filter (·.counts) →
        (machine H).Meets (fun _ => Fetched) [] new es' → (machine H).run new es' = some s) ∧
      ∀ before after hash validUntil, es = before ++ .request hash validUntil :: after →
        (∀ r ∈ registrations before ++ registrations after, r.1 ≠ hash) → s.status = .running →
          Follows hash validUntil (registrations before).length
            (finalizedBlocks (after.filter (·.counts))) s) := by
  have hsame : ∀ {es : List (Event H)}, (machine H).Meets (fun _ => Fetched) [] new es →
      (machine H).run new (es.filter (·.counts)) = (machine H).run new es := by
    intro es hok
    have hskip : ∀ (past : List (Event H)) s e, Fetched s e → e.counts = false →
        (machine H).step s e = some s := fun _ _ _ hf he => step_ignored hf he
    exact hok.run_filter hskip
  refine ⟨⟨fun hrun => ?_, fun hok => (hsame hok).trans h⟩, fun hok => ⟨?_, ?_⟩⟩
  · have hkeep : ∀ (s : State H) e t, True → s.status = .failed → (machine H).step s e = some t →
        t.status = .failed := fun _ _ _ _ hs ht => (step_ended (by simp [hs]) ht).trans hs
    have henter : ∀ (past : List (Event H)) s e t, True → ¬ Fetched s e →
        (machine H).step s e = some t → t.status = .failed :=
      fun _ _ _ _ _ hf ht => step_unfetched hf ht
    have hinv : ∀ (s : State H) e t, True → (machine H).step s e = some t → True :=
      fun _ _ _ _ _ => trivial
    have hcases : (machine H).Meets (fun _ => Fetched) [] new es ∨ s.status = .failed :=
      Machine.Meets.or_absorbed hinv hkeep henter trivial h
    exact hcases.resolve_right (run_counts (by simp) hrun)
  · intro es' he hok'
    rw [← hsame hok', he, hsame hok, h]
  · rintro before after hash validUntil rfl honce hrun
    have hfiltered := (hsame hok).trans h
    rw [List.filter_append, List.filter_cons_of_pos rfl] at hfiltered
    rw [← registrations_counts before]
    apply run_follows hfiltered hrun
    rw [registrations_counts, registrations_counts]
    exact honce

/-- A best block fails to fetch while a listener waits. -/
def unfetchedEvents : List (Event Nat) :=
  [.request 1 none, .best ⟨5, 49, none⟩, .finalized ⟨5, 50, some [1]⟩ []]

/-- The listener of a transaction that is finalized later loses its answer. -/
theorem unfetched_best_block_ends_monitor :
    ¬ (∀ (es : List (Event Nat)) s t, (machine Nat).run new es = some s →
      (machine Nat).run new (es.filter (·.counts)) = some t →
        ∀ k, (s.channels k).sent = (t.channels k).sent) ∧
    ((machine Nat).run new unfetchedEvents).map (fun s => (s.status, s.channels 0)) =
      some (.failed, { closed := true }) := by
  refine ⟨fun h => ?_, by decide⟩
  have hsame := h unfetchedEvents _ _ rfl rfl 0
  revert hsame
  decide

/-- Best blocks, which are only displayed, before and after the finalized block that decides. -/
def displayedEvents : List (Event Nat) :=
  [.request 1 none, .best ⟨4, 40, some [7]⟩, .finalized ⟨5, 50, some [1]⟩ [],
    .best ⟨6, 60, some [1]⟩]

theorem unfetched_ignored_displayed : ∃ s, (machine Nat).run new displayedEvents = some s ∧
    (machine Nat).run new (displayedEvents.filter (·.counts)) = some s :=
  ⟨_, rfl, (@unfetched_ignored_iff Nat _ _ displayedEvents rfl).1.mpr (by decide)⟩

end TxTestTool.BlockMonitor
