import TxTestTool.Monitor.Listener

/-!
# Runs of the monitor
-/

namespace TxTestTool.BlockMonitor

variable {H : Type*} [DecidableEq H] {s s' t : State H} {es past before after : List (Event H)}
  {e : Event H} {hash : H} {validUntil : Option BlockNumber} {k : Nat}

omit [DecidableEq H] in
theorem finalizedBlocks_append {es' : List (Event H)} :
    finalizedBlocks (es ++ es') = finalizedBlocks es ++ finalizedBlocks es' :=
  List.filterMap_append

omit [DecidableEq H] in
theorem registrations_append {es' : List (Event H)} :
    registrations (es ++ es') = registrations es ++ registrations es' :=
  List.filterMap_append

theorem run_running (h : (machine H).run s es = some t) (hrun : t.status = .running) :
    s.status = .running := by
  by_contra hs
  have hstep : ∀ (s : State H) (e : Event H) t, s.status ≠ .running →
      (machine H).step s e = some t → t.status ≠ .running :=
    fun _ _ _ hs ht hrun => hs (step_running ht hrun)
  exact Machine.run_invariant hstep hs h hrun

/-- What every step keeps that meets `ok` and leaves the monitor running holds as long as the
monitor runs. -/
theorem run_live {ok : List (Event H) → State H → Event H → Prop}
    {Inv : List (Event H) → State H → Prop} (hwired : ∀ past s, Inv past s → s.Wired)
    (hstep : ∀ past s e t, Inv past s → ok past s e → Live s e t → Inv (past ++ [e]) t)
    (h₀ : Inv past s) (hok : (machine H).Meets ok past s es) (h : (machine H).run s es = some t)
    (hrun : t.status = .running) : Inv (past ++ es) t := by
  have hone : ∀ past (s : State H) e t, (s.status = .running → Inv past s) → ok past s e →
      (machine H).step s e = some t → t.status = .running → Inv (past ++ [e]) t := by
    intro past s e t hinv hokay ht hrun
    have hs := hinv (step_running ht hrun)
    exact hstep past s e t hs hokay (step_live (hwired past s hs) ht hrun)
  exact Machine.Meets.invariant hone (fun _ => h₀) hok h hrun

/-! ## What the maps know of the past -/

structure Sound (past : List (Event H)) (s : State H) : Prop where
  wired : s.Wired
  requests : s.requests = registrations past
  fresh : ∀ k, s.requests.length ≤ k → (s.channels k).sent = [] ∧ (s.channels k).closed = false
  marked : ∀ n a, a ∈ s.expiring n → (a, some n) ∈ s.requests

theorem Sound.lt_of_lookup (h : Sound past s) {a : H} (hk : s.callbacks.lookup a = some k) :
    k < s.requests.length := by
  obtain ⟨u, hu⟩ := h.wired a k hk
  exact (List.getElem?_eq_some_iff.mp hu).1

theorem Live.sound (hl : Live s e s') (h : Sound past s) : Sound (past ++ [e]) s' := by
  have hw' := hl.wired h.wired
  cases hl with
  | @finalized block order s' hfetch hset =>
      refine ⟨hw', ?_, fun k hk => ?_, fun n a ha => ?_⟩
      · rw [hset.requests, h.requests, registrations_append]
        simp [registrations]
      · rw [hset.requests] at hk
        rw [hset.silent k]
        · exact h.fresh k hk
        · intro a _ ha
          have := h.lt_of_lookup ha
          omega
      · rw [hset.requests]
        exact h.marked n a (hset.mem_expiring.mp ha).2
  | best =>
      refine ⟨hw', ?_, h.fresh, h.marked⟩
      rw [h.requests, registrations_append]
      simp [registrations]
  | @request hash u =>
      refine ⟨hw', ?_, fun k hk => ?_, fun n a ha => ?_⟩
      · rw [registrations_append, ← h.requests]
        rfl
      · have hlen : s.requests.length + 1 ≤ k := by simpa [State.register] using hk
        rw [register_channels, if_neg]
        · exact h.fresh k (by omega)
        · intro ha
          have := h.lt_of_lookup ha
          omega
      · simp only [State.register, List.mem_append, List.mem_singleton]
        rcases mem_expiring_register.mp ha with ⟨rfl, rfl⟩ | ha
        · exact Or.inr rfl
        · exact Or.inl (h.marked n a ha)
  | @dropReceiver j =>
      refine ⟨hw', ?_, fun k hk => ?_, h.marked⟩
      · rw [h.requests, registrations_append]
        simp [registrations]
      · obtain ⟨hsent, hclosed⟩ := dropReceiver_channel s.channels j k
        rw [hsent, hclosed]
        exact h.fresh k hk

theorem new_sound : Sound [] (new : State H) where
  wired _ _ hk := by cases hk
  requests := rfl
  fresh _ _ := ⟨rfl, rfl⟩
  marked _ _ ha := by cases ha

theorem run_sound (h : (machine H).run new es = some s) (hrun : s.status = .running) :
    Sound es s := by
  have hok : (machine H).Meets (fun _ _ _ => True) [] new es := .of_forall fun _ _ _ => trivial
  exact run_live (fun _ _ hs => hs.wired) (fun _ _ _ _ hs _ hl => hl.sound hs) new_sound hok h hrun

/-! ## A transaction registered once -/

/-- A transaction that was not registered before starts with nothing told and its own mark. -/
theorem Sound.follows (h : Sound past s) (hnew : ∀ r ∈ registrations past, r.1 ≠ hash) :
    Follows hash validUntil (registrations past).length [] (s.register hash validUntil) := by
  have hlen : s.requests.length = (registrations past).length := by rw [h.requests]
  have hfree : s.callbacks.lookup hash ≠ some (registrations past).length := by
    intro hk
    have := h.lt_of_lookup hk
    omega
  obtain ⟨hsent, hclosed⟩ := h.fresh (registrations past).length (by omega)
  refine ⟨?_, fun _ => ⟨?_, ?_, fun n => ?_⟩, fun b hb => (by cases hb), ?_⟩
  · simp [State.register, ← hlen]
  · simp [State.register, ← hlen]
  · rw [register_channels, if_neg hfree]
    exact hsent
  · rw [mem_expiring_register]
    refine ⟨?_, fun hn => Or.inl ⟨hn, rfl⟩⟩
    rintro (⟨hn, _⟩ | hmem)
    · exact hn
    · have hreq := h.marked n hash hmem
      rw [h.requests] at hreq
      exact absurd rfl (hnew _ hreq)
  · rw [register_channels, if_neg hfree]
    exact hclosed

/-- While the monitor runs, the listener of a transaction that is registered once is told what the
blocks after its registration say. -/
theorem run_follows
    (h : (machine H).run new (before ++ .request hash validUntil :: after) = some s)
    (hrun : s.status = .running)
    (honce : ∀ r ∈ registrations before ++ registrations after, r.1 ≠ hash) :
    Follows hash validUntil (registrations before).length (finalizedBlocks after) s := by
  obtain ⟨r, hr, h⟩ := Machine.run_append.mp h
  obtain ⟨t, ht, h⟩ := Machine.run_cons.mp h
  change step r (.request hash validUntil) = some t at ht
  have htrun := run_running h hrun
  have hsound := run_sound hr (step_running ht htrun)
  have hlive := step_live hsound.wired ht htrun
  have hafter : ∀ u, .request hash u ∉ after := by
    intro u hu
    apply honce (hash, u) (List.mem_append_right _ _) rfl
    exact List.mem_filterMap.mpr ⟨_, hu, rfl⟩
  cases hlive with
  | request =>
      have hfollows : Follows hash validUntil (registrations before).length []
          (r.register hash validUntil) :=
        hsound.follows fun q hq => honce q (List.mem_append_left _ hq)
      let Inv : List (Event H) → State H → Prop := fun past s => s.Wired ∧
        ((∀ u, .request hash u ∉ past) →
          Follows hash validUntil (registrations before).length (finalizedBlocks past) s)
      have hstep : ∀ past (s : State H) e t, Inv past s → True → Live s e t →
          Inv (past ++ [e]) t := by
        intro past s e t ⟨hw, hf⟩ _ hl
        refine ⟨hl.wired hw, fun hnot => ?_⟩
        have hpast : ∀ u, .request hash u ∉ past := fun u hu =>
          hnot u (List.mem_append_left _ hu)
        have he : ∀ u, e ≠ .request hash u := by
          rintro u rfl
          exact hnot u (by simp)
        rw [finalizedBlocks_append]
        exact (hf hpast).live hw hl he
      have h₀ : Inv [] (r.register hash validUntil) :=
        ⟨register_wired hsound.wired, fun _ => hfollows⟩
      have hok : (machine H).Meets (fun _ _ _ => True) [] (r.register hash validUntil) after :=
        .of_forall fun _ _ _ => trivial
      exact (run_live (fun _ _ hi => hi.1) hstep h₀ hok h hrun).2 hafter

/-! ## Runs in which nothing goes wrong -/

def Event.ordinary : Event H → Bool
  | .finalized block _ | .best block => block.extrinsics.isSome
  | .request _ _ => true
  | .dropReceiver _ | .allDisabled => false

theorem step_ordinary (hw : s.Wired) (hs : s.status = .running)
    (halive : ∀ k, (s.channels k).receiver = true) (he : e.ordinary = true)
    (h : step s e = some t) : t.status = .running := by
  cases e with
  | finalized block order =>
      simp only [step, hs, ↓reduceIte, Option.ite_none_right_eq_some, Option.some.injEq] at h
      obtain ⟨hperm, rfl⟩ := h
      obtain ⟨u, hu⟩ := settle_ok hw hperm fun _ _ k _ => halive k
      have hstatus := (settle_settled hw hperm hu).status
      rw [handleBlock_fetched order he, hu]
      exact hstatus.trans hs
  | best block =>
      simp only [step, hs, ↓reduceIte, Option.some.injEq] at h
      subst h
      obtain ⟨extrinsics, hx⟩ := Option.isSome_iff_exists.mp he
      simp [State.handleBlock, hx, hs]
  | request hash u =>
      simp only [step, hs, ↓reduceIte, Option.some.injEq] at h
      subst h
      exact hs
  | dropReceiver k => cases he
  | allDisabled => cases he

theorem Live.receiver (hl : Live s e s') (he : e.ordinary = true) (k : Nat) :
    (s'.channels k).receiver = (s.channels k).receiver := by
  cases hl with
  | finalized _ hset => exact hset.receiver k
  | best => rfl
  | request =>
      rw [register_channels]
      split <;> rfl
  | dropReceiver => cases he

theorem run_ordinary (h : (machine H).run new es = some s) (hes : ∀ e ∈ es, e.ordinary = true) :
    s.status = .running := by
  let Inv : List (Event H) → State H → Prop := fun past s => (∀ e ∈ past, e.ordinary = true) →
    s.Wired ∧ s.status = .running ∧ ∀ k, (s.channels k).receiver = true
  have hstep : ∀ past (s : State H) e t, Inv past s → (machine H).step s e = some t →
      Inv (past ++ [e]) t := by
    intro past s e t hinv ht hall
    obtain ⟨hw, hs, halive⟩ := hinv fun e he => hall e (List.mem_append_left _ he)
    have he : e.ordinary = true := hall e (by simp)
    have hrun := step_ordinary hw hs halive he ht
    have hl := step_live hw ht hrun
    exact ⟨hl.wired hw, hrun, fun k => (hl.receiver he k).trans (halive k)⟩
  have h₀ : Inv [] (new : State H) := fun _ => ⟨fun _ _ hk => (by cases hk), rfl, fun _ => rfl⟩
  exact (Machine.run_history_invariant hstep h₀ h hes).2.1

end TxTestTool.BlockMonitor
