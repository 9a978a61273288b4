import TxTestTool.Runner.Lemmas.Health
import TxTestTool.Runner.Lemmas.Sender
import TxTestTool.Runner.Theorems

/-!
# The stop channel and the timeout

`select!` has no priorities. A closed stop channel is ready for ever, and a branch that refills can
be taken while a stop message waits or no time is left.
-/

namespace TxTestTool.Runner

variable {H : Type*} [DecidableEq H] {cfg : Config} {tasks : List (DefaultTxTask H)}
  {wall : SystemTime} {is past : List (Input H)} {s t u : State H} {i : Input H}

/-! ## A dropped `Sender` -/

/-- At the head of the loop the `Sender` is there as long as a worker is in flight. -/
def State.Attended (s : State H) : Prop :=
  s.phase = .select → s.workers.entries ≠ [] → s.senderAlive = true

instance (s : State H) : Decidable s.Attended :=
  have : Decidable (s.workers.entries = []) := decidable_of_iff s.workers.entries.isEmpty (by simp)
  inferInstanceAs (Decidable (_ → _ → _))

/-- `run` has left its loop. -/
def Phase.hasLeft : Phase → Bool
  | .saving _ | .reporting _ | .returned _ | .panicked .journal | .panicked .stats => true
  | _ => false

/-- The same result in a run in which the `Sender` is kept. -/
def State.kept (s : State H) : State H := s.relabel true fun _ => .allDone

/-- Nobody asks for the end of the run. -/
def Input.quiet : Input H → Bool
  | .sendStop | .timeout => false
  | _ => true

theorem Trans.channel (h : Trans cfg s i t) (hstop : i ≠ .stop) (hsend : i ≠ .sendStop) :
    t.stopQueued = s.stopQueued ∧ (i ≠ .dropSender → t.senderAlive = s.senderAlive) := by
  cases h with
  | classify =>
      obtain ⟨_, _, _, _, he⟩ := classify_frame s
      rw [he]
      exact ⟨rfl, fun _ => rfl⟩
  | count =>
      rcases startRefill_phase cfg s _ with he | ⟨b, _, he⟩ <;> rw [he] <;>
        exact ⟨rfl, fun _ => rfl⟩
  | stop => exact absurd rfl hstop
  | sendStop => exact absurd rfl hsend
  | dropSender => exact ⟨rfl, fun hd => absurd rfl hd⟩
  | _ => exact ⟨rfl, fun _ => rfl⟩

theorem step_unqueued (hi : i.quiet = true) (hq : s.stopQueued = false)
    (hs : step cfg s i = some t) : t.stopQueued = false := by
  by_cases hstop : i = .stop
  · subst hstop
    simp only [step, Option.ite_none_right_eq_some, Option.some.injEq] at hs
    obtain ⟨_, rfl⟩ := hs
    rfl
  · have hsend : i ≠ .sendStop := by rintro rfl; cases hi
    exact ((step_trans hs).channel hstop hsend).1.trans hq

/-- With nothing sent, only a dropped `Sender` makes the stop branch ready. -/
theorem State.Attended.idle (ha : s.Attended) (hq : s.stopQueued = false)
    (hs : step cfg s .stop = some t) : s.workers.entries = [] := by
  by_contra hbusy
  simp only [step, Option.ite_none_right_eq_some, hq, Bool.false_eq_true, false_or] at hs
  exact hs.1.2 (ha hs.1.1 hbusy)

theorem Pops.not_left {p next : Phase} (h : Pops p next) :
    p.hasLeft = false ∧ next.hasLeft = false := by
  cases h <;> exact ⟨rfl, rfl⟩

/-- The loop is left by one of its three branches, which touch no worker. -/
theorem Trans.leaves (h : Trans cfg s i t) (ht : t.phase.hasLeft = true) :
    t.workers = s.workers ∧ (s.phase.hasLeft = true ∨ i = .stop ∨ i = .timeout ∨
      i = .allDone ∧ s.workers.entries = []) := by
  cases h with
  | save hp | journalPanic hp | report hp | statsPanic hp => exact ⟨rfl, Or.inl (by rw [hp]; rfl)⟩
  | stop => exact ⟨rfl, Or.inr (Or.inl rfl)⟩
  | timeout => exact ⟨rfl, Or.inr (Or.inr (Or.inl rfl))⟩
  | allDone _ he => exact ⟨rfl, Or.inr (Or.inr (Or.inr ⟨rfl, he⟩))⟩
  | sendStop | dropSender | elapse | setClock => exact ⟨rfl, Or.inl ht⟩
  | pop hp => exact absurd ht (by simp [State.launch, hp.not_left.2])
  | classify =>
      obtain ⟨_, _, _, _, he⟩ := classify_frame s
      rw [he] at ht
      cases ht
  | move hp => exact absurd ht (by simp [State.pushEvents, hp, Phase.hasLeft])
  | finish | tick =>
      rcases consumePending_phase cfg _ with hph | hph <;> rw [hph] at ht <;> cases ht
  | count =>
      rcases startRefill_phase cfg s _ with he | ⟨b, _, he⟩ <;> rw [he] at ht <;> cases ht
  | _ => cases ht

/-- What a run that nobody asked to end has. -/
structure Unasked (s : State H) : Prop where
  unqueued : s.stopQueued = false
  idle : s.phase.hasLeft = true → s.workers.entries = []

theorem Unasked.step (h : Unasked s) (ha : s.Attended) (hi : i.quiet = true)
    (hs : step cfg s i = some t) : Unasked t := by
  refine ⟨step_unqueued hi h.unqueued hs, fun ht => ?_⟩
  obtain ⟨hsame, hcause⟩ := (step_trans hs).leaves ht
  rw [hsame]
  rcases hcause with hp | rfl | rfl | ⟨_, he⟩
  · exact h.idle hp
  · exact ha.idle h.unqueued hs
  · cases hi
  · exact he

end TxTestTool.Runner
