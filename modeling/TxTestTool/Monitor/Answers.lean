import TxTestTool.Monitor.Lemmas.Runs

/-!
# The answers of a monitor that may end

A monitor that ends tells nobody anything, but what it has told before stays true.
-/

namespace TxTestTool.BlockMonitor

variable {H : Type*} [DecidableEq H] {s s' t : State H} {es past before after : List (Event H)}
  {e : Event H} {hash : H} {validUntil : Option BlockNumber} {k : Nat} {bs : List (Block H)}

/-- Nobody stops listening, and the node and the handles stay. -/
def Event.undisturbed : Event H → Bool
  | .dropReceiver _ | .allDisabled => false
  | _ => true

/-- Listener `k` has been told nothing or the verdict of the first of the blocks `bs` that decides,
and of a running monitor it has all that it can know. -/
structure Served (hash : H) (validUntil : Option BlockNumber) (k : Nat) (bs : List (Block H))
    (s : State H) : Prop where
  request : s.requests[k]? = some (hash, validUntil)
  sent : (s.channels k).sent = [] ∨ ∃ b, bs.find? (decides hash validUntil) = some b ∧
    (s.channels k).sent = [verdict hash b]
  follows : s.status = .running → Follows hash validUntil k bs s

theorem Follows.served (h : Follows hash validUntil k bs s) : Served hash validUntil k bs s where
  request := h.request
  sent := by
    cases hd : bs.find? (decides hash validUntil) with
    | none => exact Or.inl (h.waiting hd).2.1
    | some b => exact Or.inr ⟨b, rfl, (h.answered b hd).2⟩
  follows _ := h

/-- A step after which the monitor does not run takes requests, and nothing else is seen of it. -/
structure Silent (s : State H) (e : Event H) (s' : State H) : Prop where
  ended : s'.status ≠ .running
  sent : ∀ j, (s'.channels j).sent = (s.channels j).sent
  requests : s'.requests = s.requests ++ registrations [e]

omit [DecidableEq H] in
theorem stop_silent {status : Status} (hs : status ≠ .running) (he : registrations [e] = []) :
    Silent s e (s.stop status) where
  ended := hs
  sent j := by
    simp only [State.stop]
    split <;> rfl
  requests := by rw [he, List.append_nil]; rfl

omit [DecidableEq H] in
theorem refuse_silent (hs : s.status ≠ .running) :
    Silent s (.request hash validUntil) (s.refuse hash validUntil) where
  ended := hs
  sent j := by
    by_cases hj : j = s.requests.length
    · subst hj
      simp [State.refuse, Channel.close]
    · simp [State.refuse, hj]
  requests := rfl

/-- A step of a monitor whose listeners all listen is a step of a monitor that lives on, or it says
nothing. -/
theorem step_live_or_silent (hw : s.status = .running → s.Wired)
    (halive : s.status = .running → ∀ j, (s.channels j).receiver = true)
    (he : e.undisturbed = true) (h : step s e = some s') :
    s'.status = .running ∧ Live s e s' ∨ Silent s e s' := by
  by_cases hs' : s'.status = .running
  · exact Or.inl ⟨hs', step_live (hw (step_running h hs')) h hs'⟩
  · refine Or.inr ?_
    by_cases hs : s.status = .running
    · cases e with
      | finalized block order =>
          simp only [step, hs, ↓reduceIte, Option.ite_none_right_eq_some, Option.some.injEq] at h
          obtain ⟨hperm, rfl⟩ := h
          by_cases hx : block.extrinsics.isSome = true
          · obtain ⟨u, hu⟩ := settle_ok (hw hs) hperm fun _ _ j _ => halive hs j
            rw [handleBlock_fetched order hx, hu] at hs'
            exact absurd ((settle_settled (hw hs) hperm hu).status.trans hs) hs'
          · rw [handleBlock_unfetched hx]
            exact stop_silent (by simp) rfl
      | best block =>
          simp only [step, hs, ↓reduceIte, Option.some.injEq] at h
          subst h
          cases hx : block.extrinsics with
          | some extrinsics =>
              rw [State.handleBlock, hx] at hs'
              exact absurd hs hs'
          | none =>
              rw [State.handleBlock, hx]
              exact stop_silent (by simp) rfl
      | request hash u =>
          simp only [step, hs, ↓reduceIte, Option.some.injEq] at h
          subst h
          exact absurd hs hs'
      | dropReceiver j => cases he
      | allDisabled => cases he
    · cases e with
      | request hash u =>
          simp only [step, hs, ↓reduceIte, Option.some.injEq] at h
          subst h
          exact refuse_silent hs
      | dropReceiver j => cases he
      | allDisabled => cases he
      | _ =>
          simp only [step, hs, ↓reduceIte, Option.some.injEq] at h
          subst h
          exact ⟨hs, fun _ => rfl, by simp [registrations]⟩

theorem Live.keeps_receivers (hl : Live s e s') (he : e.undisturbed = true) (j : Nat) :
    (s'.channels j).receiver = (s.channels j).receiver := by
  cases hl with
  | finalized _ hset => exact hset.receiver j
  | best => rfl
  | request =>
      rw [register_channels]
      split <;> rfl
  | dropReceiver => cases he

theorem Silent.served (hsil : Silent s e s') (h : Served hash validUntil k bs s)
    (more : List (Block H)) : Served hash validUntil k (bs ++ more) s' where
  request := by
    rw [hsil.requests, List.getElem?_append_left (List.getElem?_eq_some_iff.mp h.request).1,
      h.request]
  sent := by
    rw [hsil.sent k]
    rcases h.sent with hnone | ⟨b, hb, hsent⟩
    · exact Or.inl hnone
    · exact Or.inr ⟨b, by rw [List.find?_append, hb]; rfl, hsent⟩
  follows hs := absurd hs hsil.ended

theorem Live.served (hl : Live s e s') (hw : s.Wired) (hs : s.status = .running)
    (h : Served hash validUntil k bs s) (hne : ∀ u, e ≠ .request hash u) :
    Served hash validUntil k (bs ++ finalizedBlocks [e]) s' :=
  ((h.follows hs).live hw hl hne).served

/-! ## Runs in which nobody stops listening -/

structure Attended (past : List (Event H)) (s : State H) : Prop where
  requests : s.requests = registrations past
  fresh : ∀ j, s.requests.length ≤ j → (s.channels j).sent = []
  sound : s.status = .running → Sound past s
  heard : s.status = .running → ∀ j, (s.channels j).receiver = true

theorem new_attended : Attended [] (new : State H) where
  requests := rfl
  fresh _ _ := rfl
  sound _ := new_sound
  heard _ _ := rfl

theorem Attended.cases (h : Attended past s) (he : e.undisturbed = true)
    (hs : step s e = some s') : s'.status = .running ∧ Live s e s' ∨ Silent s e s' :=
  step_live_or_silent (fun hrun => (h.sound hrun).wired) h.heard he hs

theorem Attended.step (h : Attended past s) (he : e.undisturbed = true)
    (hs : step s e = some s') : Attended (past ++ [e]) s' := by
  rcases h.cases he hs with ⟨hrun, hl⟩ | hsil
  · have hs₀ := step_running hs hrun
    have hsound := hl.sound (h.sound hs₀)
    exact ⟨hsound.requests, fun j hj => (hsound.fresh j hj).1, fun _ => hsound,
      fun _ j => (hl.keeps_receivers he j).trans (h.heard hs₀ j)⟩
  · refine ⟨?_, fun j hj => ?_, fun hrun => absurd hrun hsil.ended,
      fun hrun => absurd hrun hsil.ended⟩
    · rw [hsil.requests, h.requests, registrations_append]
    · rw [hsil.requests, List.length_append] at hj
      rw [hsil.sent j]
      exact h.fresh j (by omega)

theorem run_attended (hes : ∀ e ∈ es, e.undisturbed = true)
    (h : (machine H).run new es = some s) : Attended es s := by
  let Inv : List (Event H) → State H → Prop := fun past s =>
    (∀ e ∈ past, e.undisturbed = true) → Attended past s
  have hstep : ∀ past (s : State H) e t, Inv past s → (machine H).step s e = some t →
      Inv (past ++ [e]) t := by
    intro past s e t hinv ht hall
    exact (hinv fun e he => hall e (List.mem_append_left _ he)).step (hall e (by simp)) ht
  have h₀ : Inv [] new := fun _ => new_attended
  exact Machine.run_history_invariant hstep h₀ h hes

omit [DecidableEq H] in
theorem registered_once
    (h : ((registrations (before ++ .request hash validUntil :: after)).map Prod.fst).Nodup) :
    ∀ r ∈ registrations before ++ registrations after, r.1 ≠ hash := by
  intro r hr he
  have hmid : (registrations before ++ (hash, validUntil) :: registrations after).map Prod.fst =
      (registrations before).map Prod.fst ++ hash :: (registrations after).map Prod.fst := by
    rw [List.map_append, List.map_cons]
  have hregs : registrations (before ++ .request hash validUntil :: after) =
      registrations before ++ (hash, validUntil) :: registrations after := by
    simp [registrations]
  rw [hregs, hmid, List.nodup_middle, List.nodup_cons, ← List.map_append] at h
  exact h.1 (List.mem_map.mpr ⟨r, hr, he⟩)

/-- What the monitor has told the listener of a transaction that is registered once comes from the
first block after its registration that decides about it. -/
theorem run_served (hes : ∀ e ∈ before ++ .request hash validUntil :: after, e.undisturbed = true)
    (honce : ∀ r ∈ registrations before ++ registrations after, r.1 ≠ hash)
    (h : (machine H).run new (before ++ .request hash validUntil :: after) = some s) :
    Served hash validUntil (registrations before).length (finalizedBlocks after) s := by
  obtain ⟨r, hr, h⟩ := Machine.run_append.mp h
  obtain ⟨t, ht, h⟩ := Machine.run_cons.mp h
  change BlockMonitor.step r (.request hash validUntil) = some t at ht
  have hatt := run_attended (fun e he => hes e (List.mem_append_left _ he)) hr
  have hfirst : Served hash validUntil (registrations before).length [] t := by
    rcases hatt.cases rfl ht with ⟨hrun, hl⟩ | hsil
    · cases hl with
      | request =>
          have hsound := hatt.sound (step_running ht hrun)
          exact (hsound.follows fun q hq => honce q (List.mem_append_left _ hq)).served
    · refine ⟨?_, Or.inl ?_, fun hrun => absurd hrun hsil.ended⟩
      · rw [hsil.requests, ← hatt.requests]
        simp [registrations]
      · rw [hsil.sent]
        exact hatt.fresh _ (by rw [hatt.requests])
  have hother : ∀ u, .request hash u ∉ after := by
    intro u hu
    apply honce (hash, u) (List.mem_append_right _ _) rfl
    exact List.mem_filterMap.mpr ⟨_, hu, rfl⟩
  let Inv : List (Event H) → State H → Prop := fun past s =>
    (∀ e ∈ past, e.undisturbed = true ∧ ∀ u, e ≠ .request hash u) →
      Attended (before ++ .request hash validUntil :: past) s ∧
        Served hash validUntil (registrations before).length (finalizedBlocks past) s
  have hstep : ∀ past (s : State H) e t, Inv past s → (machine H).step s e = some t →
      Inv (past ++ [e]) t := by
    intro past s e t hinv ht hall
    obtain ⟨hatt, hserved⟩ := hinv fun e he => hall e (List.mem_append_left _ he)
    obtain ⟨he, hne⟩ := hall e (by simp)
    have hnext := hatt.step he ht
    refine ⟨by simpa using hnext, ?_⟩
    rw [finalizedBlocks_append]
    rcases hatt.cases he ht with ⟨hrun, hl⟩ | hsil
    · have hs₀ := step_running ht hrun
      exact hl.served (hatt.sound hs₀).wired hs₀ hserved hne
    · exact hsil.served hserved _
  have h₀ : Inv [] t := fun _ => ⟨hatt.step rfl ht, hfirst⟩
  refine (Machine.run_history_invariant hstep h₀ h fun e he => ⟨?_, ?_⟩).2
  · exact hes e (List.mem_append_right _ (List.mem_cons_of_mem _ he))
  · rintro u rfl
    exact hother u he

end TxTestTool.BlockMonitor
