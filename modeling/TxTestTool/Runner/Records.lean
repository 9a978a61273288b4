import TxTestTool.Log.Counting
import TxTestTool.Runner.Lemmas.Invariants

/-!
# What a run writes down

The counters against the logs, and the logs of watched tasks against the lists of results.
-/

namespace TxTestTool

variable {H : Type*}

/-! ## A watched task from its start to its end -/

def ExecutionEvent.isFinalized : ExecutionEvent H → Bool
  | .txPoolEvent _ status => status.isFinalized
  | _ => false

namespace DefaultTxTask

/-- The future of `t` given the replies to its calls, the `n`-th of them at `now n`: what it pushes
to its log, and where it is then. A future that has finished is not polled again. -/
def drive (t : DefaultTxTask H) (monitor : Bool) (now : Nat → SystemTime) :
    Nat → Poll H → List (Reply H) → Option (List (ExecutionEvent H) × Poll H)
  | n, .pending p, r :: rs =>
      (t.execute monitor (now n) p r).bind fun (es, q) =>
        (t.drive monitor now (n + 1) q rs).map fun (es', q') => (es ++ es', q')
  | _, q, _ => some ([], q)

/-- The replies of a sink whose `submit_and_watch` fails, or gives a stream that ends. -/
def watchReplies : Except Error (List (TransactionStatus H)) → List (Reply H)
  | .error e => [.start, .submitAndWatch (.error e)]
  | .ok stream =>
      .start :: .submitAndWatch (.ok ()) :: (stream.map (fun s => .next (some s)) ++ [.next none])

/-- The statuses up to the first terminal one, with it. -/
def reported (stream : List (TransactionStatus H)) : List (TransactionStatus H) :=
  stream.takeWhile (!·.isTerminal) ++ (stream.find? (·.isTerminal)).toList

def watchEvents (now : Nat → SystemTime) :
    Except Error (List (TransactionStatus H)) → List (ExecutionEvent H)
  | .error e =>
      [.sent (now 0), .submitAndWatchResult (now 1) (ExecutionEvent.resultText (.error e))]
  | .ok stream =>
      .sent (now 0) :: .submitAndWatchResult (now 1) (ExecutionEvent.resultText (.ok ())) ::
        (reported stream).mapIdx fun i status => .txPoolEvent (now (i + 2)) status

/-- The submission succeeded and the first terminal status is `Finalized`. -/
def Finalizes (reply : Except Error (List (TransactionStatus H))) : Prop :=
  ∃ stream block, reply = .ok stream ∧ stream.find? (·.isTerminal) = some (.finalized block)

variable {t : DefaultTxTask H} {monitor : Bool} {now : Nat → SystemTime}

theorem drive_streaming (hw : t.watched = true) (stream : List (TransactionStatus H)) (n : Nat) :
    t.drive monitor now n (.pending .streaming)
        (stream.map (fun s => .next (some s)) ++ [.next none]) =
      some ((reported stream).mapIdx fun i status => .txPoolEvent (now (i + n)) status,
        .ready (if (stream.find? (·.isTerminal)).any (·.isFinalized) then .done t.tx.hash
          else .error t.tx.hash)) := by
  induction stream generalizing n with
  | nil => simp [drive, execute, hw, sendWatchedTx, reported]
  | cons status stream ih =>
      have hexec : t.execute monitor (now n) .streaming (.next (some status)) =
          some ([.txPoolEvent (now n) status],
            if status.isFinalized then .ready (.done t.tx.hash)
            else if status.isError then .ready (.error t.tx.hash)
            else .pending .streaming) := by
        simp [execute, hw, sendWatchedTx]
      rw [List.map_cons, List.cons_append, drive, hexec, Option.bind_some]
      cases hterm : status.isTerminal with
      | true =>
          have hfirst : reported (status :: stream) = [status] := by simp [reported, hterm]
          rw [hfirst, List.find?_cons_of_pos hterm]
          rw [TransactionStatus.isTerminal_eq] at hterm
          cases hf : status.isFinalized with
          | true => simp [drive, hf]
          | false =>
              rw [hf, Bool.false_or] at hterm
              simp [drive, hf, hterm]
      | false =>
          have hnext : reported (status :: stream) = status :: reported stream := by
            simp [reported, hterm]
          rw [hnext, List.find?_cons_of_neg (by simp [hterm])]
          rw [TransactionStatus.isTerminal_eq, Bool.or_eq_false_iff] at hterm
          simp only [hterm.1, hterm.2, Bool.false_eq_true, ↓reduceIte, ih]
          simp [List.mapIdx_cons, Nat.add_comm, Nat.add_left_comm]

theorem finalizes_ok {stream : List (TransactionStatus H)} : Finalizes (.ok stream) ↔
    (stream.find? (·.isTerminal)).any (·.isFinalized) = true := by
  constructor
  · rintro ⟨_, block, he, hf⟩
    cases he
    rw [hf]
    rfl
  · intro h
    cases hf : stream.find? (·.isTerminal) with
    | none => rw [hf] at h; cases h
    | some status =>
        rw [hf] at h
        cases status with
        | finalized block => exact ⟨stream, block, rfl, hf⟩
        | _ => cases h

theorem drive_watched (hw : t.watched = true)
    (reply : Except Error (List (TransactionStatus H))) : ∃ result,
    t.drive monitor now 0 (.pending .created) (watchReplies reply) =
        some (watchEvents now reply, .ready result) ∧
      (Finalizes reply → result = .done t.tx.hash) ∧
      (¬ Finalizes reply → result = .error t.tx.hash) := by
  cases reply with
  | error e =>
      refine ⟨.error t.tx.hash, ?_, ?_, fun _ => rfl⟩
      · simp [watchReplies, drive, execute, hw, sendWatchedTx, watchEvents]
      · rintro ⟨_, _, h, _⟩
        cases h
  | ok stream =>
      let result := if (stream.find? (·.isTerminal)).any (·.isFinalized) then
        ExecutionResult.done t.tx.hash else .error t.tx.hash
      refine ⟨result, ?_, fun h => if_pos (finalizes_ok.mp h),
        fun h => if_neg (mt finalizes_ok.mpr h)⟩
      · have hstart : t.execute monitor (now 0) .created .start =
            some ([.sent (now 0)], .pending .submitting) := by
          simp [execute, hw, sendWatchedTx]
        have hreply : t.execute monitor (now 1) .submitting (.submitAndWatch (.ok ())) =
            some ([.submitAndWatchResult (now 1) (ExecutionEvent.resultText (.ok ()))],
              .pending .streaming) := by
          simp [execute, hw, sendWatchedTx]
        simp only [watchReplies, drive, hstart, hreply, Option.bind_some, drive_streaming hw]
        rfl

/-- A poll of a watched task pushes a `Finalized` exactly if it ends in `Done`. -/
theorem sendWatchedTx_finalized {now : SystemTime} {p : AwaitPoint} {r : Reply H}
    {es : List (ExecutionEvent H)} {q : Poll H} (h : t.sendWatchedTx now p r = some (es, q)) :
    es.any (·.isFinalized) = true ↔ q = .ready (.done t.tx.hash) := by
  unfold sendWatchedTx at h
  split at h <;> simp only [Option.some.injEq, Prod.mk.injEq, reduceCtorEq] at h
  all_goals obtain ⟨rfl, rfl⟩ := h
  · simp [ExecutionEvent.isFinalized]
  · simp [ExecutionEvent.isFinalized]
  · simp [ExecutionEvent.isFinalized]
  · rename_i status
    cases hf : status.isFinalized with
    | true => simp [ExecutionEvent.isFinalized, hf]
    | false => cases he : status.isError <;> simp [ExecutionEvent.isFinalized, hf]
  · simp
  · simp
  · simp

end DefaultTxTask

/-! ## The logs and the lists of results -/

variable [DecidableEq H]

/-- The log of `a` holds a `Finalized`. -/
def Books.Finalized (b : Books H) (a : H) : Prop :=
  ∃ log, b.logs.lookup a = some log ∧ log.events.any (·.isFinalized) = true

theorem Books.finalized_pushEvents {b : Books H} {hash : H} {es : List (ExecutionEvent H)}
    (h : hash ∈ b.logs) (a : H) : (b.pushEvents hash es).Finalized a ↔
      b.Finalized a ∨ (a = hash ∧ es.any (·.isFinalized) = true) := by
  obtain ⟨old, hold⟩ := Option.isSome_iff_exists.mp (AList.lookup_isSome.mpr h)
  unfold Books.Finalized
  by_cases ha : a = hash
  · subst ha
    simp [lookup_pushEvents, hold, or_and_right, exists_or]
  · simp [lookup_pushEvents, ha]

/-- The shared counters say what the logs say. -/
def Books.Tallied (b : Books H) : Prop := b.eventCounters = Counters.tally b.logs.values

theorem Books.Tallied.push {b : Books H} {hash : H} {e : ExecutionEvent H} (h : b.Tallied) :
    (b.pushEvent hash e).Tallied := by
  unfold Books.pushEvent
  cases hlog : b.logs.lookup hash with
  | none => exact h
  | some log =>
      have hold : b.eventCounters = Counters.tally (log :: (b.logs.erase hash).values) := by
        rw [h, Counters.tally_perm (AList.values_perm_of_lookup hlog)]
      simp only [Books.Tallied, AList.values_insert]
      rw [hold]
      exact Counters.tally_push log e _

theorem Books.Tallied.pushes {b : Books H} {hash : H} {es : List (ExecutionEvent H)}
    (h : b.Tallied) : (b.pushEvents hash es).Tallied := by
  induction es generalizing b with
  | nil => exact h
  | cons e es ih => exact ih h.push

namespace Runner

variable {cfg : Config} {tasks : List (DefaultTxTask H)} {wall : SystemTime}
  {is : List (Input H)} {s s' : State H}

def Watched (tasks : List (DefaultTxTask H)) : Prop := ∀ t ∈ tasks, t.watched = true

namespace Ledger

variable {l l' : Ledger H} {monitor : Bool} {lbl : Option (Nat × Reply H)}

/-- The `Done` results are those of the hashes whose logs hold a `Finalized`. -/
def Recorded (l : Ledger H) : Prop :=
  ∀ a, (∃ id, (id, .done a) ∈ l.finished) ↔ l.books.Finalized a

theorem Inv.watched {id w} (h : l.Inv tasks) (hw : Watched tasks)
    (hlookup : l.workers.lookup id = some w) : w.task.watched = true :=
  hw _ (h.mem_popped (List.mem_of_getElem? (h.fresh id w hlookup)))

theorem Step.recorded (hs : Step monitor l lbl l') (hinv : l.Inv tasks) (hw : Watched tasks)
    (h : l.Recorded) : l'.Recorded := by
  intro a
  have ha := h a
  cases hs with
  | pop ht hlog =>
      rw [Books.finalized_pushEvents hlog]
      simpa [ExecutionEvent.isFinalized] using ha
  | @move id w r now es p hlookup hm =>
      rw [DefaultTxTask.execute, if_pos (hinv.watched hw hlookup)] at hm
      have hpush := DefaultTxTask.sendWatchedTx_finalized hm
      rw [Books.finalized_pushEvents (hinv.worker_keys hlookup), hpush]
      simpa using ha
  | @finish id w r now es result hheld hlookup hm =>
      have hhash := (DefaultTxTask.execute_move hm).ready_hash
      rw [DefaultTxTask.execute, if_pos (hinv.watched hw hlookup)] at hm
      have hpush := DefaultTxTask.sendWatchedTx_finalized hm
      rw [Books.finalized_pushEvents (hinv.worker_keys hlookup), hpush, ← ha]
      simp only [List.mem_append, List.mem_singleton, Prod.mk.injEq, exists_or, exists_eq_left]
      cases result with
      | error hash => simp
      | done hash =>
          simp only [ExecutionResult.hash] at hhash
          simp [hhash]
  | _ => exact ha

theorem Step.tallied (hs : Step monitor l lbl l') (h : l.books.Tallied) : l'.books.Tallied := by
  cases hs with
  | pop => exact h.pushes
  | move => exact h.pushes
  | finish => exact h.pushes
  | _ => exact h

end Ledger

theorem collectLogs_empty (ts : List (DefaultTxTask H)) :
    ∀ log ∈ (collectLogs ts).values, log.events = [] := by
  intro log hlog
  obtain ⟨a, ha⟩ := AList.mem_values.mp hlog
  exact collectLogs_events ha

/-- In every state of every run the counters are exact, whatever the tasks do. -/
theorem run_tallied (h : (machine H cfg).run (new cfg tasks wall) is = some s) :
    s.eventCounters = Counters.tally s.logs.values := by
  let Inv : State H → Prop := fun s => Good tasks s ∧ s.books.Tallied
  have hstep : ∀ s i t, Inv s → (machine H cfg).step s i = some t → Inv t := by
    intro s i t ⟨hg, htallied⟩ ht
    obtain ⟨hl, _⟩ := (step_trans ht).ledger hg.idle hg.transactions_keys
    exact ⟨step_good hg ht, hl.tallied htallied⟩
  have h₀ : Inv (new cfg tasks wall) :=
    ⟨new_good, (Counters.tally_empty (collectLogs_empty tasks)).symm⟩
  exact (Machine.run_invariant hstep h₀ h).2

theorem run_recorded (hw : Watched tasks)
    (h : (machine H cfg).run (new cfg tasks wall) is = some s) : s.ledger.Recorded := by
  let Inv : State H → Prop := fun s => Good tasks s ∧ s.ledger.Recorded
  have hstep : ∀ s i t, Inv s → (machine H cfg).step s i = some t → Inv t := by
    intro s i t ⟨hg, hrec⟩ ht
    obtain ⟨hl, _⟩ := (step_trans ht).ledger hg.idle hg.transactions_keys
    exact ⟨step_good hg ht, hl.recorded hg.inv hw hrec⟩
  have h₀ : Inv (new cfg tasks wall) := by
    refine ⟨new_good, fun a => ⟨fun ⟨_, hid⟩ => (by cases hid), ?_⟩⟩
    rintro ⟨log, hlog, hany⟩
    rw [collectLogs_empty tasks log (AList.mem_values.mpr ⟨a, hlog⟩)] at hany
    cases hany
  exact (Machine.run_invariant hstep h₀ h).2

/-- The results so far are in `done` and `errors`, but for the one that is held. -/
theorem Good.mem_done (h : Good tasks s) (a : H) :
    (a ∈ s.done ∨ s.held = some (.done a)) ↔ ∃ id, (id, .done a) ∈ s.finished := by
  have hlist : s.done ++ s.held.toList.filterMap ExecutionResult.doneHash =
      (s.finished.map Prod.snd).filterMap ExecutionResult.doneHash := h.inv.doneList
  have hheld : a ∈ s.held.toList.filterMap ExecutionResult.doneHash ↔
      s.held = some (.done a) := by
    cases s.held with
    | none => simp
    | some result => cases result <;> simp [ExecutionResult.doneHash, eq_comm]
  have hfinished : a ∈ (s.finished.map Prod.snd).filterMap ExecutionResult.doneHash ↔
      ∃ id, (id, .done a) ∈ s.finished := by
    simp only [List.mem_filterMap, List.mem_map, Prod.exists, exists_eq_right]
    constructor
    · rintro ⟨result, ⟨id, hid⟩, he⟩
      cases result with
      | error => cases he
      | done hash =>
          cases he
          exact ⟨id, hid⟩
    · rintro ⟨id, hid⟩
      exact ⟨_, ⟨id, hid⟩, rfl⟩
  rw [← hheld, ← hfinished, ← hlist, List.mem_append]

/-- What a watched task logs and returns, for every answer to its submission, and what `done` holds
in consequence: outside the branch that records a result, the hashes whose logs hold a
`Finalized`. -/
theorem watched_recorded :
    (∀ (t : DefaultTxTask H) monitor (now : Nat → SystemTime) reply, t.watched = true →
      ∃ result,
        t.drive monitor now 0 (.pending .created) (DefaultTxTask.watchReplies reply) =
            some (DefaultTxTask.watchEvents now reply, .ready result) ∧
          (DefaultTxTask.Finalizes reply → result = .done t.tx.hash) ∧
          (¬ DefaultTxTask.Finalizes reply → result = .error t.tx.hash)) ∧
    ∀ cfg (tasks : List (DefaultTxTask H)) wall is s, Watched tasks →
      (machine H cfg).run (new cfg tasks wall) is = some s → ∀ a,
        ((a ∈ s.done ∨ s.held = some (.done a)) ↔ s.books.Finalized a) ∧
          (s.phase.busy = false → (a ∈ s.done ↔ s.books.Finalized a)) := by
  refine ⟨fun t monitor now reply hw => DefaultTxTask.drive_watched hw reply, ?_⟩
  intro cfg tasks wall is s hw h a
  have hgood := run_good h
  have hdone : (a ∈ s.done ∨ s.held = some (.done a)) ↔ s.books.Finalized a :=
    (hgood.mem_done a).trans (run_recorded hw h a)
  refine ⟨hdone, fun hb => ?_⟩
  have hheld : s.held = none := hgood.idle hb
  simpa [hheld] using hdone

def watched (hash : Nat) : DefaultTxTask Nat :=
  { tx := { hash, nonce := 0, validUntil := none, accountMetadata := .derived hash },
    watched := true }

/-- One transaction is retracted and finalized, the other is dropped. -/
def watchedInputs : List (Input Nat) :=
  [.resume, .resume, .poll 0 .start, .poll 0 (.submitAndWatch (.ok ())),
    .poll 0 (.next (some (.inBlock 7))), .poll 0 (.next (some .noLongerInBestBlock)),
    .poll 0 (.next (some (.finalized 8))), .pendingExtrinsics (some 0), .resume, .resume,
    .poll 1 .start, .poll 1 (.submitAndWatch (.ok ())), .poll 1 (.next (some (.dropped "full"))),
    .pendingExtrinsics (some 0), .resume, .allDone]

/-- A stream that goes on after its terminal status. -/
def talkative : Except Error (List (TransactionStatus Nat)) :=
  .ok [.validated, .inBlock 7, .finalized 8, .dropped "late"]

theorem watched_recorded_two :
    (watched 1).drive false (fun n => n) 0 (.pending .created)
        (DefaultTxTask.watchReplies talkative) =
      some ([.sent 0, .submitAndWatchResult 1 (.ok ()), .txPoolEvent 2 .validated,
        .txPoolEvent 3 (.inBlock 7), .txPoolEvent 4 (.finalized 8)], .ready (.done 1)) ∧
    ∃ s, (machine Nat oneAtATime).run (new oneAtATime [watched 2, watched 1] 0) watchedInputs =
        some s ∧
      (1 ∈ s.done ↔ s.books.Finalized 1) ∧ (2 ∈ s.done ↔ s.books.Finalized 2) ∧ s.done = [1] := by
  obtain ⟨hdrive, hrun⟩ := @watched_recorded Nat _
  obtain ⟨result, hresult, hdone, _⟩ := hdrive (watched 1) false (fun n => n) talkative rfl
  have hall := hrun oneAtATime [watched 2, watched 1] 0 watchedInputs _
    (by simp [Watched, watched]) rfl
  refine ⟨?_, _, rfl, (hall 1).2 rfl, (hall 2).2 rfl, rfl⟩
  rw [hresult, hdone ⟨_, 8, rfl, rfl⟩]
  rfl

end Runner

end TxTestTool
