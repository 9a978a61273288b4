import TxTestTool.Fake.Results

/-!
# No run over the fake sink is stuck

A run whose scripts can be played does not panic, and can always be continued to its regular end.
-/

namespace TxTestTool.Fake

open Runner (Config oneAtATime)

variable {cfg : Config} {tasks : List FakeTask} {wall : SystemTime} {is : List Input}
  {s s' : State} {i : Input} {js : List (Runner.Input FakeHash)}

/-! ## No panic -/

/-- The clock is not set back. -/
def Forward (s : State) : Input → Prop
  | .own i => Runner.Forward s.runner i
  | _ => True

instance (s : State) : (i : Input) → Decidable (Forward s i)
  | .own i => inferInstanceAs (Decidable (Runner.Forward s.runner i))
  | .poll _ | .count => .isTrue trivial

theorem submitted_calm {t : FakeTask} {event : TransactionStatus FakeHash}
    {txs : Finset FakeHash} {before : List (Reply FakeHash)}
    (hbefore : ∀ r ∈ before, r.isMonitorFailure = false) :
    ∀ r ∈ (submitted t event txs before).replies, r.isMonitorFailure = false := by
  intro r hr
  unfold submitted at hr
  split at hr <;> rcases List.mem_append.mp hr with hr | hr
  · exact hbefore r hr
  · rw [List.mem_singleton.mp hr]
    rfl
  · exact hbefore r hr
  · rw [List.mem_singleton.mp hr]
    rfl

theorem delivered_calm {t : FakeTask} {event : TransactionStatus FakeHash} {rest : EventsStreamDef}
    {txs : Finset FakeHash} :
    ∀ r ∈ (delivered t event rest txs).replies, r.isMonitorFailure = false := by
  intro r hr
  unfold delivered at hr
  split at hr <;> rw [List.mem_singleton.mp hr] <;> rfl

/-- The fake sink has no monitor that could fail. -/
theorem polled_calm {id : Nat} {w : Worker FakeHash} {p : Polled}
    (h : s.polled tasks id w = some p) : ∀ r ∈ p.replies, r.isMonitorFailure = false := by
  obtain ⟨t, _, h⟩ := Option.bind_eq_some_iff.mp h
  split at h
  · simp only [Option.some.injEq] at h
    subst h
    unfold firstPoll
    split
    · split <;> simp [Reply.isMonitorFailure]
    · split
      · split
        · simp [Reply.isMonitorFailure]
        · exact submitted_calm (by simp [Reply.isMonitorFailure])
      · simp [Reply.isMonitorFailure]
  · obtain ⟨call, _, hnext⟩ := Option.bind_eq_some_iff.mp h
    cases call with
    | submitting deadline event =>
        simp only [nextPoll, Option.ite_none_right_eq_some, Option.some.injEq] at hnext
        obtain ⟨_, rfl⟩ := hnext
        exact submitted_calm (by simp)
    | yielded rest =>
        cases rest with
        | nil =>
            simp only [nextPoll, Option.some.injEq] at hnext
            subst hnext
            simp [Reply.isMonitorFailure]
        | cons d rest =>
            obtain ⟨event, delay⟩ := d
            simp only [nextPoll] at hnext
            split at hnext <;> simp only [Option.some.injEq] at hnext <;> subst hnext
            · simp
            · exact delivered_calm
    | sleeping deadline event rest =>
        simp only [nextPoll, Option.ite_none_right_eq_some, Option.some.injEq] at hnext
        obtain ⟨_, rfl⟩ := hnext
        exact delivered_calm

theorem execute_panic {t : DefaultTxTask FakeHash} {monitor : Bool} {now : SystemTime}
    {p : AwaitPoint} {es : List (ExecutionEvent FakeHash)} {q : Poll FakeHash}
    (h : t.execute monitor now p .panic = some (es, q)) : q = .panicked := by
  unfold DefaultTxTask.execute at h
  split at h
  · cases p <;> simp [DefaultTxTask.sendWatchedTx] at h
    · exact h.2.symm
    · exact h.2.symm
  · cases p <;> simp [DefaultTxTask.sendTx] at h
    · exact h.2.symm
    · exact h.2.symm

/-- A future that gets a panic has panicked. -/
theorem no_panic {t : DefaultTxTask FakeHash} {q₀ q : Poll FakeHash} {rs : List (Reply FakeHash)}
    (h : rs.foldlM (t.advance false) q₀ = some q) (hq : q ≠ .panicked) : .panic ∉ rs := by
  induction rs generalizing q₀ with
  | nil => simp
  | cons r rs ih =>
      simp only [List.foldlM_cons, Option.bind_eq_bind, Option.bind_eq_some_iff] at h
      obtain ⟨q₁, hr, hrest⟩ := h
      rw [List.mem_cons, not_or]
      refine ⟨?_, ih hrest⟩
      rintro rfl
      have hpanicked : q₁ = .panicked := by
        cases q₀ with
        | pending p =>
            obtain ⟨⟨es, q₂⟩, hm, rfl⟩ := Option.map_eq_some_iff.mp hr
            exact execute_panic hm
        | ready => cases hr
        | panicked => cases hr
      subst hpanicked
      cases rs with
      | nil =>
          simp only [List.foldlM_nil, Option.pure_def, Option.some.injEq] at hrest
          exact hq hrest.symm
      | cons => simp [DefaultTxTask.advance] at hrest

/-- What every state of a run of playable tasks has, when the clock starts at the epoch or after
it and is not set back. -/
structure Sound (cfg : Config) (tasks : List FakeTask) (wall : SystemTime) (s : State) : Prop where
  inv : ∃ js, Inv cfg tasks wall js s
  healthy : Runner.Healthy (config cfg) (tasks.map FakeTask.toTask) s.runner

theorem Sound.alive (h : Sound cfg tasks wall s) : s.Alive := h.healthy.alive

theorem Sound.reached (h : Sound cfg tasks wall s) : Reached cfg tasks wall s.runner := by
  obtain ⟨_, hinv⟩ := h.inv
  exact hinv.reached

theorem Sound.step (h : Sound cfg tasks wall s) (hplay : ∀ t ∈ tasks, t.Playable)
    (hf : Forward s i) (hs : Fake.step cfg tasks s i = some s') : Sound cfg tasks wall s' := by
  obtain ⟨js, hinv⟩ := h.inv
  refine ⟨⟨_, hinv.step hs⟩, ?_⟩
  cases step_trans hs with
  | @own j r hown hr =>
      refine h.healthy.step ?_ hr
      cases j with
      | setClock => exact hf
      | poll => cases hown
      | pendingExtrinsics => cases hown
      | _ => trivial
  | count hr =>
      have hcalm : Runner.Calm (config cfg) s.runner (.pendingExtrinsics (some s.txs.card)) := rfl
      exact h.healthy.step hcalm hr
  | @poll id w p _ hp hw hpolled hfollow =>
      obtain ⟨t, ht, htask, hleads⟩ := (hinv.scripted h.alive).leads hw hpolled
      have hpanic : .panic ∉ p.replies := by
        cases hleads with
        | waits hq => exact no_panic hq (by simp)
        | ends hq => exact no_panic hq (by simp)
        | panics _ hun => exact absurd (hplay t (taskOf_mem ht)) hun
      obtain ⟨r, hr, rfl⟩ := Option.map_eq_some_iff.mp hfollow
      refine Machine.run_invariant_of_mem (fun u v j hj hu hv => ?_) h.healthy hr
      obtain ⟨x, hx, rfl⟩ := List.mem_map.mp hj
      have hne : x ≠ .panic := fun he => hpanic (he ▸ hx)
      exact hu.step (.poll hne (polled_calm hpolled x hx)) hv

theorem new_sound (hwall : 0 ≤ wall) : Sound cfg tasks wall (new cfg tasks wall) :=
  ⟨⟨[], new_inv⟩, Runner.new_healthy hwall⟩

theorem run_sound (hwall : 0 ≤ wall) (hplay : ∀ t ∈ tasks, t.Playable)
    (hf : (machine cfg tasks).Meets (fun _ => Forward) [] (new cfg tasks wall) is)
    (h : (machine cfg tasks).run (new cfg tasks wall) is = some s) : Sound cfg tasks wall s := by
  have hstep : ∀ (past : List Input) s i t, Sound cfg tasks wall s → Forward s i →
      (machine cfg tasks).step s i = some t → Sound cfg tasks wall t :=
    fun _ _ _ _ hs hf ht => hs.step hplay hf ht
  exact Machine.Meets.invariant hstep (new_sound hwall) hf h

/-! ## The loops of the runner come to an end -/

def Popping (p : Runner.Phase) : Prop := (∃ n, p = .burst n) ∨ ∃ c n, p = .refill c n

/-- One iteration leaves the loop or takes a task. -/
theorem resume_popping {r : Runner.State FakeHash}
    (hgood : Runner.Good (tasks.map FakeTask.toTask) r) (hp : Popping r.phase) :
    ∃ u, r.resume = some u ∧ u.finished = r.finished ∧ (u.phase = .select ∨
      Popping u.phase ∧ u.transactions.length < r.transactions.length) := by
  have hpop : ∀ next last, Popping next → last.finished = r.finished → last.phase = .select →
      ∃ u, some ((r.popAndPush next).getD last) = some u ∧ u.finished = r.finished ∧
        (u.phase = .select ∨ Popping u.phase ∧ u.transactions.length < r.transactions.length) := by
    intro next last hnext hfin hsel
    cases hlast : r.transactions.getLast? with
    | none => exact ⟨last, by simp [Runner.State.popAndPush, hlast], hfin, Or.inl hsel⟩
    | some t =>
        have hmem : t ∈ r.transactions := List.mem_of_getLast? hlast
        obtain ⟨log, hlog⟩ := Option.isSome_iff_exists.mp
          (AList.lookup_isSome.mpr (hgood.transactions_keys t hmem))
        refine ⟨r.launch t r.transactions.dropLast next, ?_, rfl, Or.inr ⟨hnext, ?_⟩⟩
        · simp [Runner.State.popAndPush, hlast, hlog]
        · have hpos := List.length_pos_of_mem hmem
          show r.transactions.dropLast.length < r.transactions.length
          rw [List.length_dropLast]
          omega
  have hlast : r.classify.endIteration.finished = r.finished ∧
      r.classify.endIteration.phase = .select := by
    obtain ⟨_, _, _, _, he⟩ := Runner.classify_frame r
    rw [he]
    exact ⟨rfl, rfl⟩
  rcases hp with ⟨n, hp⟩ | ⟨c, n, hp⟩
  · cases n with
    | zero => exact ⟨r.startIteration, by rw [Runner.State.resume, hp], rfl, Or.inl rfl⟩
    | succ n =>
        obtain ⟨u, hu, hrest⟩ := hpop (.burst n) r.startIteration (Or.inl ⟨n, rfl⟩) rfl rfl
        exact ⟨u, by rw [Runner.State.resume, hp]; exact hu, hrest⟩
  · cases n with
    | zero => exact ⟨_, by rw [Runner.State.resume, hp], hlast.1, Or.inl hlast.2⟩
    | succ n =>
        obtain ⟨u, hu, hrest⟩ := hpop (.refill c n) r.classify.endIteration
          (Or.inr ⟨c, n, rfl⟩) hlast.1 hlast.2
        exact ⟨u, by rw [Runner.State.resume, hp]; exact hu, hrest⟩

/-- The continuations that are looked for: the state stays sound. -/
def Leadsto (cfg : Config) (tasks : List FakeTask) (wall : SystemTime) (s s' : State) : Prop :=
  (machine cfg tasks).Reaches s s' ∧ Sound cfg tasks wall s'

theorem Sound.refl (h : Sound cfg tasks wall s) : Leadsto cfg tasks wall s s := ⟨.refl, h⟩

theorem Leadsto.trans {u : State} (h : Leadsto cfg tasks wall s u)
    (h' : Leadsto cfg tasks wall u s') : Leadsto cfg tasks wall s s' := by
  obtain ⟨⟨as, has⟩, _⟩ := h
  obtain ⟨⟨bs, hbs⟩, hsound⟩ := h'
  exact ⟨⟨as ++ bs, Machine.run_append.mpr ⟨u, has, hbs⟩⟩, hsound⟩

theorem Sound.next (h : Sound cfg tasks wall s) (hplay : ∀ t ∈ tasks, t.Playable)
    (hf : Forward s i) (hs : Fake.step cfg tasks s i = some s') : Leadsto cfg tasks wall s s' :=
  ⟨⟨[i], Machine.run_cons.mpr ⟨s', hs, rfl⟩⟩, h.step hplay hf hs⟩

theorem Sound.select (h : Sound cfg tasks wall s) (hplay : ∀ t ∈ tasks, t.Playable)
    (hp : Popping s.runner.phase) : ∃ s', Leadsto cfg tasks wall s s' ∧
      s'.runner.phase = .select ∧ s'.runner.finished = s.runner.finished := by
  induction hn : s.runner.transactions.length using Nat.strongRecOn generalizing s with
  | ind n ih =>
      obtain ⟨u, hu, hfin, hcases⟩ := resume_popping h.reached.good hp
      have hstep : Fake.step cfg tasks s (.own .resume) = some { s with runner := u } := by
        simp [Fake.step, Subxt.isOwn, Runner.step, hu]
      have hforward : Forward s (.own .resume) := trivial
      have hnext := h.next hplay hforward hstep
      rcases hcases with hsel | ⟨hpop, hlt⟩
      · exact ⟨_, hnext, hsel, hfin⟩
      · obtain ⟨s', hs', hsel, hfin'⟩ := ih _ (hn ▸ hlt) hnext.2 hpop rfl
        exact ⟨s', hnext.trans hs', hsel, hfin'.trans hfin⟩

/-- The worker has ended, and the runner refills. -/
def Ended (s s' : State) : Prop :=
  (s'.runner.phase = .counting ∨ s'.runner.phase = .refill none usizeMax) ∧
    s'.runner.finished.length = s.runner.finished.length + 1

theorem Sound.polled (h : Sound cfg tasks wall s) (hplay : ∀ t ∈ tasks, t.Playable)
    (hp : s.runner.phase = .select) {id : Nat} {w : Worker FakeHash} {p : Polled}
    (hw : s.runner.workers.lookup id = some w) (hpolled : s.polled tasks id w = some p) :
    ∃ s', Leadsto cfg tasks wall s s' ∧ (Ended s s' ∨ s'.runner.phase = .select ∧
      s'.runner.finished = s.runner.finished ∧ ∃ v call, s'.runner.workers.lookup id = some v ∧
        v.awaiting ≠ .created ∧ p.call = some call ∧ s'.calls.lookup id = some call) := by
  obtain ⟨js, hinv⟩ := h.inv
  obtain ⟨t, ht, htask, hleads⟩ := (hinv.scripted h.alive).leads hw hpolled
  obtain ⟨q, hq⟩ := hleads.follows
  obtain ⟨s', hfollow, hafter, _, _, hcalls⟩ := follow_after cfg hp hw htask hq
  have hstep : Fake.step cfg tasks s (.poll id) = some s' := by
    simp [Fake.step, hp, hw, hpolled, hfollow]
  have hforward : Forward s (.poll id) := trivial
  refine ⟨s', h.next hplay hforward hstep, ?_⟩
  cases hleads with
  | @waits b call hq' hb hcall =>
      rw [hq] at hq'
      cases hq'
      obtain ⟨hsel, hfin, hhere⟩ := hafter.pending b rfl
      refine Or.inr ⟨hsel, hfin, _, call, hhere, hb, hcall, ?_⟩
      rw [hcalls, if_pos rfl, hcall]
  | ends hq' =>
      rw [hq] at hq'
      cases hq'
      obtain ⟨hphase, hfin, _⟩ := hafter.ready _ rfl
      exact Or.inl ⟨hphase, by rw [hfin]; simp⟩
  | panics _ hun => exact absurd (hplay t (taskOf_mem ht)) hun

end TxTestTool.Fake
