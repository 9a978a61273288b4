import TxTestTool.Runner.Lemmas.Inversion

/-!
# The ledger of a run

Who is where: the tasks, the workers, the results and the logs, without the control of `run`, its
clocks and its channels. A task can be popped, move inside its worker, finish and be classified,
and nothing else happens to it. Every step of the machine is such a step of the ledger or leaves
the ledger as it is, so what the ledger keeps is kept by every run under every schedule.
-/

namespace TxTestTool.Runner

variable {H : Type*}

structure Ledger (H : Type*) where
  books : Books H
  transactions : List (DefaultTxTask H)
  popped : List (DefaultTxTask H)
  workers : AList fun _ : Nat => Worker H
  held : Option (ExecutionResult H)
  done : List H
  errors : List H
  finished : List (Nat × ExecutionResult H)

def State.ledger (s : State H) : Ledger H :=
  ⟨s.books, s.transactions, s.popped, s.workers, s.held, s.done, s.errors, s.finished⟩

variable [DecidableEq H]

/-- The steps of the ledger, labelled with the reply that a worker consumes. -/
inductive Ledger.Step (monitor : Bool) :
    Ledger H → Option (Nat × Reply H) → Ledger H → Prop
  | stutter {l} : Step monitor l none l
  | pop {l : Ledger H} {t ts now} (ht : l.transactions = ts ++ [t])
      (hlog : t.tx.hash ∈ l.books.logs) :
      Step monitor l none
        { l with
          books := l.books.pushEvents t.tx.hash [.popped now]
          transactions := ts
          popped := l.popped ++ [t]
          workers := l.workers.insert l.popped.length ⟨t, .created⟩ }
  | move {l : Ledger H} {id w r now es p} (hw : l.workers.lookup id = some w)
      (hm : w.task.execute monitor now w.awaiting r = some (es, .pending p)) :
      Step monitor l (some (id, r))
        { l with
          books := l.books.pushEvents w.task.tx.hash es
          workers := l.workers.insert id { w with awaiting := p } }
  | finish {l : Ledger H} {id w r now es result} (hheld : l.held = none)
      (hw : l.workers.lookup id = some w)
      (hm : w.task.execute monitor now w.awaiting r = some (es, .ready result)) :
      Step monitor l (some (id, r))
        { l with
          books := l.books.pushEvents w.task.tx.hash es
          workers := l.workers.erase id
          held := some result
          finished := l.finished ++ [(id, result)] }
  | panic {l : Ledger H} {id w r now es} (hw : l.workers.lookup id = some w)
      (hm : w.task.execute monitor now w.awaiting r = some (es, .panicked)) :
      Step monitor l (some (id, r)) l
  | done {l : Ledger H} {hash} (hheld : l.held = some (.done hash)) :
      Step monitor l none { l with done := l.done ++ [hash], held := none }
  | error {l : Ledger H} {hash} (hheld : l.held = some (.error hash)) :
      Step monitor l none { l with errors := l.errors ++ [hash], held := none }

def Input.reply : Input H → Option (Nat × Reply H)
  | .poll id r => some (id, r)
  | _ => none

/-- `run` is inside the branch of the `select!` that holds a result, or has panicked. -/
def Phase.busy : Phase → Bool
  | .counting | .refill _ _ | .panicked _ => true
  | _ => false

def State.Idle (s : State H) : Prop := s.phase.busy = false → s.held = none

/-! ## Every step of `run` is a step of the ledger -/

theorem classify_ledger (s : State H) (monitor : Bool) :
    Ledger.Step monitor s.ledger none s.classify.endIteration.ledger ∧
      s.classify.endIteration.held = none := by
  unfold State.classify
  cases hheld : s.held with
  | none => exact ⟨.stutter, hheld⟩
  | some result =>
      cases result with
      | done hash => exact ⟨Ledger.Step.done (l := s.ledger) hheld, rfl⟩
      | error hash => exact ⟨Ledger.Step.error (l := s.ledger) hheld, rfl⟩

omit [DecidableEq H] in
theorem Pops.held {s : State H} {next} (hp : Pops s.phase next) (h : s.Idle) :
    next.busy = false → s.held = none := by
  intro hb
  cases hph : s.phase with
  | burst => exact h (by rw [hph]; rfl)
  | refill => rw [hph] at hp; cases hp; cases hb
  | _ => rw [hph] at hp; cases hp

/-- A step keeps `Idle`, and unless the lookup of a log fails it is a step of the ledger. -/
theorem Trans.ledger {cfg : Config} {s s' : State H} {i : Input H} (hidle : s.Idle)
    (hlogs : ∀ t ∈ s.transactions, t.tx.hash ∈ s.logs) (h : Trans cfg s i s') :
    Ledger.Step cfg.monitor s.ledger i.reply s'.ledger ∧ s'.Idle := by
  cases h with
  | begin hp => exact ⟨.stutter, fun _ => hidle (by rw [hp]; rfl)⟩
  | pop hp ht hlog =>
      exact ⟨Ledger.Step.pop (l := s.ledger) ht hlog, fun hb => hp.held hidle hb⟩
  | missing hp ht hlog => exact absurd (hlogs _ (by simp [ht])) hlog
  | classify =>
      obtain ⟨hl, hheld⟩ := classify_ledger s cfg.monitor
      exact ⟨hl, fun _ => hheld⟩
  | save hp => exact ⟨.stutter, fun _ => hidle (by rw [hp]; rfl)⟩
  | report hp => exact ⟨.stutter, fun _ => hidle (by rw [hp]; rfl)⟩
  | journalPanic | statsPanic => exact ⟨.stutter, fun hb => by cases hb⟩
  | move hp hw hm =>
      exact ⟨Ledger.Step.move (l := s.ledger) hw hm, fun _ => hidle (by rw [hp]; rfl)⟩
  | finish hp hw hm =>
      refine ⟨Ledger.Step.finish (l := s.ledger) (hidle (by rw [hp]; rfl)) hw hm, fun hb => ?_⟩
      rcases consumePending_phase cfg (s.complete _ _ _ _) with hph | hph <;>
        rw [hph] at hb <;> cases hb
  | workerPanic hp hw hm =>
      exact ⟨Ledger.Step.panic (l := s.ledger) hw hm, fun hb => by cases hb⟩
  | tick hp => exact ⟨.stutter, fun _ => hidle (by rw [hp]; rfl)⟩
  | allDone hp => exact ⟨.stutter, fun _ => hidle (by rw [hp]; rfl)⟩
  | timeout hp => exact ⟨.stutter, fun _ => hidle (by rw [hp]; rfl)⟩
  | stop hp => exact ⟨.stutter, fun _ => hidle (by rw [hp]; rfl)⟩
  | count hp =>
      rcases startRefill_phase cfg s _ with he | ⟨b, _, he⟩ <;> rw [he]
      · exact ⟨.stutter, fun hb => by cases hb⟩
      · exact ⟨.stutter, fun hb => by cases hb⟩
  | countPanic => exact ⟨.stutter, fun hb => by cases hb⟩
  | sendStop => exact ⟨.stutter, hidle⟩
  | dropSender => exact ⟨.stutter, hidle⟩
  | elapse => exact ⟨.stutter, hidle⟩
  | setClock => exact ⟨.stutter, hidle⟩

end TxTestTool.Runner
