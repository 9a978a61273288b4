import TxTestTool.Machine.Schedule
import TxTestTool.Runner.Lemmas.Replay
import TxTestTool.Runner.DroppedSender

/-!
# After the end was asked for

From the head of the loop at which a stop message waits or no time is left, one branch of the
`select!` ends the run. It competes with the branches that refill.
-/

namespace TxTestTool.Runner

variable {H : Type*} [DecidableEq H] {cfg : Config} {tasks : List (DefaultTxTask H)}
  {wall : SystemTime} {is past : List (Input H)} {s t u : State H} {i : Input H}

/-- A stop message waits, or no time is left. -/
def State.Due (s : State H) : Prop := s.stopQueued = true ∨ s.timeout = 0

instance (s : State H) : Decidable s.Due := by unfold State.Due; infer_instance

/-! ## Nothing to pop -/

theorem Trans.pops (h : Trans cfg s i t) :
    (t.popped = s.popped ∧ t.transactions = s.transactions) ∨
      (∃ next, Pops s.phase next) ∧ s.transactions ≠ [] := by
  cases h with
  | pop hp ht => exact Or.inr ⟨⟨_, hp⟩, by simp [ht]⟩
  | missing hp ht => exact Or.inr ⟨⟨_, hp⟩, by simp [ht]⟩
  | classify =>
      obtain ⟨_, _, _, _, he⟩ := classify_frame s
      rw [he]
      exact Or.inl ⟨rfl, rfl⟩
  | count =>
      rcases startRefill_phase cfg s _ with he | ⟨b, _, he⟩ <;> rw [he] <;> exact Or.inl ⟨rfl, rfl⟩
  | _ => exact Or.inl ⟨rfl, rfl⟩

theorem Pops.of_refill {c k next} (h : Pops (.refill c k) next) : k ≠ 0 := by
  cases h
  exact Nat.succ_ne_zero _

/-- A threshold of zero lets no loop begin with an iteration to go. -/
theorem Trans.barren (h : Trans cfg s i t) (hN : cfg.sendThreshold = 0)
    (hs : ∀ next, ¬ Pops s.phase next) (next : Phase) : ¬ Pops t.phase next := by
  have hconsume : ∀ u : State H, (u.consumePending cfg).phase = .counting := by
    intro u
    have hne : cfg.sendThreshold ≠ usizeMax := by
      rw [hN]
      decide
    simp [State.consumePending, hne]
  intro hp
  cases h with
  | pop hpops => exact hs _ hpops
  | finish | tick =>
      rw [hconsume] at hp
      cases hp
  | classify =>
      obtain ⟨_, _, _, _, he⟩ := classify_frame s
      rw [he] at hp
      cases hp
  | count =>
      rcases startRefill_phase cfg s _ with he | ⟨b, _, he⟩ <;> rw [he] at hp
      · cases hp
      · exact hp.of_refill (by rw [hN, Nat.zero_sub, Nat.zero_sub])
  | move | sendStop | dropSender | elapse | setClock => exact hs _ hp
  | _ => cases hp

/-- No task waits, or none will ever be popped. -/
def State.Exhausted (cfg : Config) (s : State H) : Prop :=
  s.transactions = [] ∨ cfg.sendThreshold = 0 ∧ ∀ next, ¬ Pops s.phase next

theorem State.Exhausted.step (h : s.Exhausted cfg) (hs : Trans cfg s i t) :
    t.Exhausted cfg ∧ t.popped = s.popped := by
  rcases hs.pops with ⟨hpop, htx⟩ | ⟨⟨next, hp⟩, hne⟩
  · exact ⟨h.imp (fun hnil => htx.trans hnil) fun ⟨hN, hnone⟩ => ⟨hN, hs.barren hN hnone⟩, hpop⟩
  · rcases h with hnil | ⟨_, hnone⟩
    · exact absurd hnil hne
    · exact absurd hp (hnone next)

/-- Some schedule leads to other popped tasks than `popped`. -/
def Overruns (cfg : Config) (popped : List (DefaultTxTask H)) (s : State H) : Prop :=
  ∃ is t, (machine H cfg).run s is = some t ∧ t.popped ≠ popped

theorem Overruns.step {popped : List (DefaultTxTask H)} (h : Overruns cfg popped t)
    (hs : step cfg s i = some t) : Overruns cfg popped s := by
  obtain ⟨is, u, hu, hne⟩ := h
  exact ⟨i :: is, u, Machine.run_cons.mpr ⟨t, hs, hu⟩, hne⟩

/-- The reply with which a task that is being submitted ends. -/
def refusal (t : DefaultTxTask H) : Reply H :=
  if t.watched then .submitAndWatch (.error (.other "refused"))
  else .submit (.error (.other "refused"))

omit [DecidableEq H] in
theorem execute_refusal (t : DefaultTxTask H) (monitor : Bool) (now : SystemTime) :
    ∃ es, t.execute monitor now .submitting (refusal t) = some (es, .ready (.error t.tx.hash)) := by
  unfold refusal DefaultTxTask.execute
  cases t.watched with
  | true => exact ⟨_, rfl⟩
  | false => exact ⟨_, rfl⟩

/-- A worker that is being submitted can end, and leaves the others. -/
theorem refused {id : Nat} {w : Worker H} (h : Healthy cfg tasks s)
    (hN : cfg.sendThreshold ≠ usizeMax) (hsel : s.phase = .select)
    (hw : s.workers.lookup id = some w) (hsub : w.awaiting = .submitting) :
    ∃ i t, step cfg s i = some t ∧ Healthy cfg tasks t ∧ t.phase = .counting ∧
      t.popped = s.popped ∧ t.transactions = s.transactions ∧
      t.workers.values.length < s.workers.values.length := by
  obtain ⟨es, hes⟩ := execute_refusal w.task cfg.monitor s.wall
  have hstep : step cfg s (.poll id (refusal w.task)) =
      some ((s.complete id w.task.tx.hash es (.error w.task.tx.hash)).consumePending cfg) := by
    simp [Runner.step, hsel, State.pollWorker, hw, hsub, hes]
  have hcalm : Calm cfg s (.poll id (refusal w.task)) := by
    apply Calm.poll
    · unfold refusal
      split <;> simp
    · unfold refusal
      split <;> rfl
  refine ⟨_, _, hstep, h.step hcalm hstep, by simp [State.consumePending, hN], rfl, rfl, ?_⟩
  have hlen := (AList.values_perm_of_lookup hw).length_eq
  rw [List.length_cons] at hlen
  exact hlen ▸ Nat.lt_succ_self _

theorem Overruns.run {popped : List (DefaultTxTask H)} (h : Overruns cfg popped t)
    (hs : (machine H cfg).run s is = some t) : Overruns cfg popped s := by
  obtain ⟨js, u, hu, hne⟩ := h
  exact ⟨is ++ js, u, Machine.run_append.mpr ⟨t, hs, hu⟩, hne⟩

omit [DecidableEq H] in
theorem classify_clock (s : State H) :
    s.classify.endIteration.stopQueued = s.stopQueued ∧
      s.classify.endIteration.timeout = s.timeout - (s.now - s.iterationStart) := by
  unfold State.classify
  split <;> exact ⟨rfl, rfl⟩

theorem Trans.due (h : Trans cfg s i t) (hs : s.phase.hasLeft = false → s.Due) :
    t.phase.hasLeft = false → t.Due := by
  intro ht
  cases h with
  | pop hp | missing hp => exact hs hp.not_left.1
  | @classify c n hp =>
      obtain ⟨hq, hz⟩ := classify_clock s
      have hdue := hs (by rw [hp]; rfl)
      unfold State.Due at hdue ⊢
      rw [hq, hz]
      exact hdue.imp_right fun h => by rw [h, Nat.zero_sub]
  | begin hp | move hp | finish hp | workerPanic hp | tick hp | countPanic hp =>
      exact hs (by rw [hp]; rfl)
  | count hp =>
      rcases startRefill_phase cfg s _ with he | ⟨b, _, he⟩ <;> rw [he] <;>
        exact hs (by rw [hp]; rfl)
  | sendStop => exact Or.inl rfl
  | dropSender | elapse | setClock => exact hs ht
  | _ => cases ht

theorem Trans.clock (h : Trans cfg s i t) (hs : s.iterationStart ≤ s.now) :
    t.iterationStart ≤ t.now := by
  cases h with
  | begin => exact Nat.le_refl _
  | classify =>
      obtain ⟨_, _, _, _, he⟩ := classify_frame s
      simp [he]
  | count =>
      rcases startRefill_phase cfg s _ with he | ⟨b, _, he⟩ <;> rw [he] <;> exact hs
  | elapse => exact hs.trans (Nat.le_add_right _ _)
  | _ => exact hs

/-- The input ends the run. -/
def Input.ends : Input H → Prop
  | .stop | .timeout => True
  | _ => False

theorem State.Due.leaves (cfg : Config) (hdue : s.Due) (hclock : s.iterationStart ≤ s.now)
    (hsel : s.phase = .select) :
    ∃ i u how, i.ends ∧ step cfg s i = some u ∧ u.phase = .saving how := by
  rcases hdue with hq | hz
  · refine ⟨.stop, { s with phase := .saving .stop, stopQueued := false }, .stop, trivial, ?_, rfl⟩
    exact if_pos ⟨hsel, Or.inl hq⟩
  · refine ⟨.timeout, { s with phase := .saving .timeout }, .timeout, trivial, ?_, rfl⟩
    exact if_pos ⟨hsel, by rw [hz]; exact hclock⟩

/-- Where `run` goes from a phase without a `select!` if nothing panics. -/
inductive Follows : Phase → Phase → Prop
  | counted {c k} : Follows .counting (.refill c k)
  | popped {c k} : Follows (.refill c (k + 1)) (.refill c k)
  | back {c k} : Follows (.refill c k) .select
  | saved {how} : Follows (.saving how) (.reporting how)
  | reported {how} : Follows (.reporting how) (.returned how)

/-- The input takes `run` on from the phase. -/
def Input.drives : Phase → Input H → Prop
  | .counting, .pendingExtrinsics _ => True
  | .refill _ _, .resume | .saving _, .resume | .reporting _, .resume => True
  | _, _ => False

/-- The phases between two awaits of `select!`, and those after the last. -/
def Phase.passing : Phase → Bool
  | .counting | .refill _ _ | .saving _ | .reporting _ => true
  | _ => false

theorem Trans.follows (h : Trans cfg s i t) (hp : s.phase.passing = true) :
    (t.phase = s.phase ∧ ¬ i.drives s.phase) ∨ Follows s.phase t.phase ∨
      ∃ why, t.phase = .panicked why := by
  cases h with
  | begin he | move he | finish he | workerPanic he | tick he | allDone he | timeout he | stop he =>
      rw [he] at hp
      cases hp
  | pop hpops =>
      cases hph : s.phase <;> rw [hph] at hpops hp <;> cases hpops
      · cases hp
      · exact Or.inr (Or.inl .popped)
  | classify he =>
      obtain ⟨_, _, _, _, hc⟩ := classify_frame s
      rw [he, hc]
      exact Or.inr (Or.inl .back)
  | count he =>
      rcases startRefill_phase cfg s _ with hc | ⟨b, _, hc⟩ <;> rw [he, hc]
      · exact Or.inr (Or.inr ⟨_, rfl⟩)
      · exact Or.inr (Or.inl .counted)
  | save he =>
      rw [he]
      exact Or.inr (Or.inl .saved)
  | report he =>
      rw [he]
      exact Or.inr (Or.inl .reported)
  | missing | journalPanic | statsPanic | countPanic => exact Or.inr (Or.inr ⟨_, rfl⟩)
  | sendStop | dropSender | elapse | setClock =>
      refine Or.inl ⟨rfl, ?_⟩
      cases s.phase <;> exact id

/-- What a run is owed: its own code runs on, `pending_extrinsics` returns, and `select!` does not
pass over branches that are ready again and again. -/
structure Served (S : (machine H cfg).Schedule) : Prop where
  driven : ∀ p, S.Fair (Input.drives p)
  selected : S.Fair Input.ends

/-- A calm run from a loop head at which the end is due. -/
structure Closing (cfg : Config) (tasks : List (DefaultTxTask H)) (s : State H) : Prop where
  healthy : Healthy cfg tasks s
  past_burst : ∀ n, s.phase ≠ .burst n
  due : s.phase.hasLeft = false → s.Due
  clock : s.iterationStart ≤ s.now
  saved : s.Saved

theorem Trans.past_burst (h : Trans cfg s i t) (hs : ∀ n, s.phase ≠ .burst n) :
    ∀ n, t.phase ≠ .burst n := by
  intro n hn
  cases h with
  | pop hp =>
      have hnext : Pops s.phase (.burst n) := hn ▸ hp
      cases hph : s.phase <;> rw [hph] at hnext <;> cases hnext
      exact hs _ hph
  | classify =>
      obtain ⟨_, _, _, _, he⟩ := classify_frame s
      rw [he] at hn
      cases hn
  | finish | tick =>
      rcases consumePending_phase cfg _ with hph | hph <;> rw [hph] at hn <;> cases hn
  | count =>
      rcases startRefill_phase cfg s _ with he | ⟨b, _, he⟩ <;> rw [he] at hn <;> cases hn
  | move | sendStop | dropSender | elapse | setClock => exact hs n hn
  | _ => cases hn

theorem Closing.step (h : Closing cfg tasks s) (hc : Calm cfg s i) (hs : step cfg s i = some t) :
    Closing cfg tasks t := by
  have htrans := step_trans hs
  exact ⟨h.healthy.step hc hs, htrans.past_burst h.past_burst, htrans.due h.due,
    htrans.clock h.clock, htrans.saved h.saved⟩

section
variable {S : (machine H cfg).Schedule} (hserved : Served S)
  (hclosing : ∀ n, Closing cfg tasks (S.state n))
include hserved hclosing

end

def pair : List (DefaultTxTask Nat) := [unwatched 2 1, unwatched 1 0]

end TxTestTool.Runner
