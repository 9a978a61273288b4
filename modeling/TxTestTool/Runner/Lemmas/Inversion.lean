import TxTestTool.Runner.Run

/-!
# What one step of `run` can do

The inversion of `step`, stated once. Every invariant is a case analysis of `Trans`.
-/

namespace TxTestTool.Runner

variable {H : Type*} [DecidableEq H]

/-- An iteration of one of the two loops that pop leads from the first phase to the second. -/
inductive Pops : Phase → Phase → Prop
  | burst {n} : Pops (.burst (n + 1)) (.burst n)
  | refill {c n} : Pops (.refill c (n + 1)) (.refill c n)

theorem Pops.not_panicked {p next why} (h : Pops p next) : next ≠ .panicked why := by
  cases h <;> simp

inductive Trans (cfg : Config) (s : State H) : Input H → State H → Prop
  | begin {n} (hp : s.phase = .burst n) (h : n = 0 ∨ s.transactions = []) :
      Trans cfg s .resume s.startIteration
  | pop {next t ts} (hp : Pops s.phase next) (ht : s.transactions = ts ++ [t])
      (hlog : t.tx.hash ∈ s.logs) : Trans cfg s .resume (s.launch t ts next)
  | missing {next t ts} (hp : Pops s.phase next) (ht : s.transactions = ts ++ [t])
      (hlog : t.tx.hash ∉ s.logs) :
      Trans cfg s .resume
        { s with transactions := ts, popped := s.popped ++ [t], phase := .panicked .missingLog }
  | classify {c n} (hp : s.phase = .refill c n) (h : n = 0 ∨ s.transactions = []) :
      Trans cfg s .resume s.classify.endIteration
  | save {how} (hp : s.phase = .saving how) (hsince : s.logs.sinceEpoch = true) :
      Trans cfg s .resume { s with journal := some s.logs, phase := .reporting how }
  | journalPanic {how} (hp : s.phase = .saving how) (hsince : s.logs.sinceEpoch = false) :
      Trans cfg s .resume { s with phase := .panicked .journal }
  | report {how st} (hp : s.phase = .reporting how)
      (hst : TransactionExecutionLog.makeStats s.logs.values = some st) :
      Trans cfg s .resume { s with phase := .returned how }
  | statsPanic {how} (hp : s.phase = .reporting how)
      (hst : TransactionExecutionLog.makeStats s.logs.values = none) :
      Trans cfg s .resume { s with phase := .panicked .stats }
  | move {id w r es p} (hp : s.phase = .select) (hw : s.workers.lookup id = some w)
      (hm : w.task.execute cfg.monitor s.wall w.awaiting r = some (es, .pending p)) :
      Trans cfg s (.poll id r)
        { s.pushEvents w.task.tx.hash es with
          workers := s.workers.insert id { w with awaiting := p } }
  | finish {id w r es result} (hp : s.phase = .select) (hw : s.workers.lookup id = some w)
      (hm : w.task.execute cfg.monitor s.wall w.awaiting r = some (es, .ready result)) :
      Trans cfg s (.poll id r) ((s.complete id w.task.tx.hash es result).consumePending cfg)
  | workerPanic {id w r es} (hp : s.phase = .select) (hw : s.workers.lookup id = some w)
      (hm : w.task.execute cfg.monitor s.wall w.awaiting r = some (es, .panicked)) :
      Trans cfg s (.poll id r) { s with phase := .panicked .sink }
  | tick (hp : s.phase = .select) (hdue : s.iterationStart + tickPeriod ≤ s.now) :
      Trans cfg s .tick (s.consumePending cfg)
  | allDone (hp : s.phase = .select) (hw : s.workers.entries = []) :
      Trans cfg s .allDone { s with phase := .saving .allDone }
  | timeout (hp : s.phase = .select) (hdue : s.iterationStart + s.timeout ≤ s.now) :
      Trans cfg s .timeout { s with phase := .saving .timeout }
  | stop (hp : s.phase = .select) (hrx : s.stopQueued ∨ ¬ s.senderAlive) :
      Trans cfg s .stop { s with phase := .saving .stop, stopQueued := false }
  | count {n} (hp : s.phase = .counting) :
      Trans cfg s (.pendingExtrinsics (some n)) (s.startRefill cfg n)
  | countPanic (hp : s.phase = .counting) :
      Trans cfg s (.pendingExtrinsics none) { s with phase := .panicked .sink }
  | sendStop (halive : s.senderAlive) (hroom : ¬ s.stopQueued) :
      Trans cfg s .sendStop { s with stopQueued := true }
  | dropSender (halive : s.senderAlive) : Trans cfg s .dropSender { s with senderAlive := false }
  | elapse {d} : Trans cfg s (.elapse d) { s with now := s.now + d }
  | setClock {t} : Trans cfg s (.setClock t) { s with wall := t }

variable {cfg : Config} {s s' : State H} {i : Input H}

theorem popAndPush_cases {next last} (hp : Pops s.phase next)
    (hend : s.transactions = [] → Trans cfg s .resume last) :
    Trans cfg s .resume ((s.popAndPush next).getD last) := by
  unfold State.popAndPush
  cases hlast : s.transactions.getLast? with
  | none => exact hend (List.getLast?_eq_none_iff.mp hlast)
  | some t =>
      obtain ⟨ts, hts⟩ := List.getLast?_eq_some_iff.mp hlast
      have hdrop : s.transactions.dropLast = ts := by simp [hts]
      cases hlog : s.logs.lookup t.tx.hash with
      | none =>
          simp only [hlog, Option.getD_some, hdrop]
          exact .missing hp hts (AList.lookup_eq_none.mp hlog)
      | some log =>
          simp only [hlog, Option.getD_some, hdrop]
          exact .pop hp hts (AList.mem_of_lookup hlog)

theorem resume_trans (h : s.resume = some s') : Trans cfg s .resume s' := by
  unfold State.resume at h
  split at h <;> rename_i hp
  · cases h; exact .begin hp (Or.inl rfl)
  · cases h; exact popAndPush_cases (hp ▸ .burst) fun ht => .begin hp (Or.inr ht)
  · cases h; exact .classify hp (Or.inl rfl)
  · cases h; exact popAndPush_cases (hp ▸ .refill) fun ht => .classify hp (Or.inr ht)
  · split at h <;> rename_i hsince <;> simp only [Option.some.injEq] at h <;> subst h
    · exact .save hp hsince
    · exact .journalPanic hp (Bool.eq_false_iff.mpr hsince)
  · split at h <;> rename_i hst <;> simp only [Option.some.injEq] at h <;> subst h
    · exact .statsPanic hp hst
    · exact .report hp hst
  · cases h

theorem pollWorker_trans {id r} (hp : s.phase = .select) (h : s.pollWorker cfg id r = some s') :
    Trans cfg s (.poll id r) s' := by
  unfold State.pollWorker at h
  split at h
  · cases h
  · rename_i w hw
    split at h <;> rename_i hm
    · cases h
    all_goals simp only [Option.some.injEq] at h; subst h
    · exact .move hp hw hm
    · exact .finish hp hw hm
    · exact .workerPanic hp hw hm

theorem step_trans (h : step cfg s i = some s') : Trans cfg s i s' := by
  cases i with
  | resume => exact resume_trans h
  | poll id r =>
      obtain ⟨hp, h⟩ := Option.ite_none_right_eq_some.mp h
      exact pollWorker_trans hp h
  | allDone =>
      simp only [step, Option.ite_none_right_eq_some, Option.some.injEq] at h
      obtain ⟨⟨hp, hw⟩, rfl⟩ := h
      exact .allDone hp hw
  | tick =>
      simp only [step, Option.ite_none_right_eq_some, Option.some.injEq] at h
      obtain ⟨⟨hp, hdue⟩, rfl⟩ := h
      exact .tick hp hdue
  | timeout =>
      simp only [step, Option.ite_none_right_eq_some, Option.some.injEq] at h
      obtain ⟨⟨hp, hdue⟩, rfl⟩ := h
      exact .timeout hp hdue
  | stop =>
      simp only [step, Option.ite_none_right_eq_some, Option.some.injEq] at h
      obtain ⟨⟨hp, hrx⟩, rfl⟩ := h
      exact .stop hp hrx
  | pendingExtrinsics count =>
      simp only [step] at h
      split at h <;> rename_i hp
      · cases h
        exact .count hp
      · cases h
        exact .countPanic hp
      · cases h
  | sendStop =>
      simp only [step, Option.ite_none_right_eq_some, Option.some.injEq] at h
      obtain ⟨⟨halive, hroom⟩, rfl⟩ := h
      exact .sendStop halive hroom
  | dropSender =>
      simp only [step, Option.ite_none_right_eq_some, Option.some.injEq] at h
      obtain ⟨halive, rfl⟩ := h
      exact .dropSender halive
  | elapse d =>
      cases h
      exact .elapse
  | setClock t =>
      cases h
      exact .setClock

/-! ## What the parts of a step leave alone -/

omit [DecidableEq H] in
theorem consumePending_phase (cfg : Config) (s : State H) : (s.consumePending cfg).phase = .counting ∨
    (s.consumePending cfg).phase = .refill none usizeMax := by
  simp only [State.consumePending]
  split
  · exact Or.inr rfl
  · exact Or.inl rfl

omit [DecidableEq H] in
theorem startRefill_phase (cfg : Config) (s : State H) (n : Nat) :
    s.startRefill cfg n = { s with phase := .panicked .buffered } ∨
    ∃ b, s.eventCounters.buffered cfg.overflowChecks = some b ∧
      s.startRefill cfg n =
        { s with phase := .refill (some n) (cfg.sendThreshold - n - b) } := by
  unfold State.startRefill
  cases hb : s.eventCounters.buffered cfg.overflowChecks with
  | none => exact Or.inl rfl
  | some b => exact Or.inr ⟨b, rfl, rfl⟩

omit [DecidableEq H] in
/-- Recording the held result touches its lists and the clocks of the iteration. -/
theorem classify_frame (s : State H) : ∃ done errors held timeout, s.classify.endIteration =
    { s with done, errors, held, timeout, phase := .select, iterationStart := s.now } := by
  unfold State.classify
  split <;> exact ⟨_, _, _, _, rfl⟩

/-! ## Panics -/

inductive Panics (cfg : Config) (s : State H) : Input H → Panic → Prop
  | missingLog {t} (ht : t ∈ s.transactions) (hlog : t.tx.hash ∉ s.logs) :
      Panics cfg s .resume .missingLog
  | journal (hsince : s.logs.sinceEpoch = false) : Panics cfg s .resume .journal
  | stats (hst : TransactionExecutionLog.makeStats s.logs.values = none) :
      Panics cfg s .resume .stats
  | worker {id w r es} (hw : s.workers.lookup id = some w)
      (hm : w.task.execute cfg.monitor s.wall w.awaiting r = some (es, .panicked)) :
      Panics cfg s (.poll id r) .sink
  | buffered {n} (hp : s.phase = .counting)
      (hb : s.eventCounters.buffered cfg.overflowChecks = none) :
      Panics cfg s (.pendingExtrinsics (some n)) .buffered
  | sink (hp : s.phase = .counting) : Panics cfg s (.pendingExtrinsics none) .sink

/-- A step to a panic is one of these, or changes nothing about a panic there was. -/
theorem Trans.panics (hs : Trans cfg s i s') {why} (h : s'.phase = .panicked why) :
    Panics cfg s i why ∨ s.phase = .panicked why := by
  cases hs with
  | pop hp => exact absurd h hp.not_panicked
  | missing hp ht hlog =>
      cases h
      exact Or.inl (.missingLog (by simp [ht]) hlog)
  | journalPanic hp hsince =>
      cases h
      exact Or.inl (.journal hsince)
  | statsPanic hp hst =>
      cases h
      exact Or.inl (.stats hst)
  | move => exact Or.inr h
  | finish =>
      rcases consumePending_phase cfg (s.complete _ _ _ _) with hph | hph <;> rw [hph] at h <;>
        cases h
  | workerPanic hp hw hm =>
      cases h
      exact Or.inl (.worker hw hm)
  | tick =>
      rcases consumePending_phase cfg s with hph | hph <;> rw [hph] at h <;> cases h
  | classify =>
      obtain ⟨_, _, _, _, he⟩ := classify_frame s
      rw [he] at h
      cases h
  | count hp =>
      unfold State.startRefill at h
      split at h <;> cases h
      exact Or.inl (.buffered hp ‹_›)
  | countPanic hp =>
      cases h
      exact Or.inl (.sink hp)
  | sendStop | dropSender | elapse | setClock => exact Or.inr h
  | _ => cases h

end TxTestTool.Runner
