import TxTestTool.Log.ExecutionLog

/-!
# The future of one task

`DefaultTxTask::execute` is cut at its `await` points. A `Reply` is what the awaited call of the
sink or of the monitor returns; between two replies the future runs without interruption.
-/

namespace TxTestTool

variable {H : Type*}

structure DefaultTxTask (H : Type*) where
  tx : Transaction H
  watched : Bool
deriving DecidableEq, Repr

inductive ExecutionResult (H : Type*)
  | error (hash : H)
  | done (hash : H)
deriving DecidableEq, Repr

def ExecutionResult.hash : ExecutionResult H → H
  | .error h => h
  | .done h => h

/-- Where the future waits. A future just pushed to the set of workers has not run at all. -/
inductive AwaitPoint
  | created
  | submitting
  | streaming
  | waiting
deriving DecidableEq, Repr

/-- The task has been popped and its submission call has not returned. -/
def AwaitPoint.unreplied : AwaitPoint → Bool
  | .created | .submitting => true
  | .streaming | .waiting => false

inductive Reply (H : Type*)
  | start
  | submit (r : Except Error H)
  | submitAndWatch (r : Except Error Unit)
  /-- The next item of the status stream, or its end. -/
  | next (item : Option (TransactionStatus H))
  | wait (r : Except Error H)
  | panic
deriving DecidableEq, Repr

/-- The monitor answers with an error that is not the end of a mortal transaction. -/
def Reply.isMonitorFailure : Reply H → Bool
  | .wait (.error (.mortalLifetimeSurpassed _)) => false
  | .wait (.error _) => true
  | _ => false

def Reply.isFailure : Reply H → Bool
  | .submit (.error _) | .submitAndWatch (.error _) | .wait (.error _) => true
  | _ => false

inductive Poll (H : Type*)
  | pending (at_ : AwaitPoint)
  | ready (result : ExecutionResult H)
  | panicked
deriving DecidableEq, Repr

def Poll.unreplied : Poll H → Bool
  | .pending p => p.unreplied
  | _ => false

namespace DefaultTxTask

/-- `none`: the reply does not answer the call the future waits for. `now` is the wall clock that
stamps the events. -/
def sendWatchedTx (t : DefaultTxTask H) (now : SystemTime) :
    AwaitPoint → Reply H → Option (List (ExecutionEvent H) × Poll H)
  | .created, .start => some ([.sent now], .pending .submitting)
  | .submitting, .submitAndWatch (.ok ()) =>
      some ([.submitAndWatchResult now (ExecutionEvent.resultText (.ok ()))], .pending .streaming)
  | .submitting, .submitAndWatch (.error e) =>
      some ([.submitAndWatchResult now (ExecutionEvent.resultText (.error e))],
        .ready (.error t.tx.hash))
  | .streaming, .next (some status) =>
      some ([.txPoolEvent now status],
        if status.isFinalized then .ready (.done t.tx.hash)
        else if status.isError then .ready (.error t.tx.hash)
        else .pending .streaming)
  | .streaming, .next none => some ([], .ready (.error t.tx.hash))
  | .submitting, .panic | .streaming, .panic => some ([], .panicked)
  | _, _ => none

/-- `monitor` says whether `rpc.transaction_monitor()` is `Some`. -/
def sendTx (t : DefaultTxTask H) (monitor : Bool) (now : SystemTime) :
    AwaitPoint → Reply H → Option (List (ExecutionEvent H) × Poll H)
  | .created, .start => some ([.sent now], .pending .submitting)
  | .submitting, .submit (.ok _) =>
      some ([.submitResult now (ExecutionEvent.resultText (.ok ()))],
        if monitor then .pending .waiting else .ready (.done t.tx.hash))
  | .submitting, .submit (.error e) =>
      some ([.submitResult now (ExecutionEvent.resultText (.error e))],
        .ready (.error t.tx.hash))
  | .waiting, .wait (.ok blockHash) =>
      some ([.finalizedMonitor now blockHash], .ready (.done t.tx.hash))
  | .waiting, .wait (.error (.mortalLifetimeSurpassed blockNumber)) =>
      some ([.mortalDroppedMonitor now blockNumber], .ready (.error t.tx.hash))
  | .waiting, .wait (.error err) =>
      some ([.submitResult now (ExecutionEvent.resultText (.error err))],
        .ready (.error t.tx.hash))
  | .submitting, .panic | .waiting, .panic => some ([], .panicked)
  | _, _ => none

def execute (t : DefaultTxTask H) (monitor : Bool) (now : SystemTime) (p : AwaitPoint)
    (r : Reply H) : Option (List (ExecutionEvent H) × Poll H) :=
  if t.watched then t.sendWatchedTx now p r else t.sendTx monitor now p r

end DefaultTxTask

/-- A worker of the set that `run` drives: a task and the point where its future waits. -/
structure Worker (H : Type*) where
  task : DefaultTxTask H
  awaiting : AwaitPoint
deriving DecidableEq, Repr

/-! ## What one poll can do -/

/-- The inversion of `execute`: the six ways a future can move. -/
inductive Move (t : DefaultTxTask H) (now : SystemTime) :
    AwaitPoint → Reply H → List (ExecutionEvent H) → Poll H → Prop
  | start : Move t now .created .start [.sent now] (.pending .submitting)
  | replied {r e q} (he : e.isResult = true) (hs : e.isSent = false) (ht : e.time = now)
      (hr : r.isMonitorFailure = false) (hq : q = .pending .streaming ∨ q = .pending .waiting ∨
        q = .ready (.done t.tx.hash) ∨ q = .ready (.error t.tx.hash)) :
      Move t now .submitting r [e] q
  | status {status q} (hq : q = .pending .streaming ∨ q = .ready (.done t.tx.hash) ∨
        q = .ready (.error t.tx.hash)) :
      Move t now .streaming (.next (some status)) [.txPoolEvent now status] q
  | streamEnd : Move t now .streaming (.next none) [] (.ready (.error t.tx.hash))
  | answered {r e q} (he : e.isResult = r.isMonitorFailure) (hp : e.isPopped = false)
      (hs : e.isSent = false) (ht : e.time = now)
      (hq : q = .ready (.done t.tx.hash) ∨ q = .ready (.error t.tx.hash)) :
      Move t now .waiting r [e] q
  | panic {p} (hp : p ≠ .created) : Move t now p .panic [] .panicked

theorem DefaultTxTask.execute_move {t : DefaultTxTask H} {monitor now p r es q}
    (h : t.execute monitor now p r = some (es, q)) : Move t now p r es q := by
  unfold execute at h
  split at h
  · unfold sendWatchedTx at h
    split at h <;> simp only [Option.some.injEq, Prod.mk.injEq, reduceCtorEq] at h
    all_goals obtain ⟨rfl, rfl⟩ := h
    · exact .start
    · exact .replied rfl rfl rfl rfl (by simp)
    · exact .replied rfl rfl rfl rfl (by simp)
    · refine .status ?_
      split_ifs <;> simp
    · exact .streamEnd
    · exact .panic (by simp)
    · exact .panic (by simp)
  · unfold sendTx at h
    split at h <;> simp only [Option.some.injEq, Prod.mk.injEq, reduceCtorEq] at h
    all_goals obtain ⟨rfl, rfl⟩ := h
    · exact .start
    · exact .replied rfl rfl rfl rfl (by cases monitor <;> simp)
    · exact .replied rfl rfl rfl rfl (by simp)
    · exact .answered rfl rfl rfl rfl (by simp)
    · exact .answered rfl rfl rfl rfl (by simp)
    · rename_i err _
      refine .answered ?_ rfl rfl rfl (by simp)
      cases err with
      | mortalLifetimeSurpassed n => simp at *
      | _ => rfl
    · exact .panic (by simp)
    · exact .panic (by simp)

variable {t : DefaultTxTask H} {now : SystemTime} {p : AwaitPoint} {r : Reply H}
  {es : List (ExecutionEvent H)} {q : Poll H}

theorem Move.popped_eq_zero (h : Move t now p r es q) : es.countP (·.isPopped) = 0 := by
  cases h with
  | start => rfl
  | @replied r e q he =>
      have hp : e.isPopped = false := by
        cases e with
        | popped => cases he
        | _ => rfl
      simp [hp]
  | status => rfl
  | streamEnd => rfl
  | answered _ hp => simp [hp]
  | panic => rfl

/-- Every poll that does not panic moves the task from "without a submission result" to "with one"
exactly when it counts a result, unless it reports a failure of the monitor. -/
theorem Move.results (h : Move t now p r es q) (hq : q ≠ .panicked) :
    es.countP (·.isResult) + q.unreplied.toNat = p.unreplied.toNat + r.isMonitorFailure.toNat := by
  cases h with
  | start => rfl
  | replied he _ _ hr hq =>
      rcases hq with rfl | rfl | rfl | rfl <;>
        simp [he, hr, Poll.unreplied, AwaitPoint.unreplied]
  | status hq =>
      rcases hq with rfl | rfl | rfl <;>
        simp [ExecutionEvent.isResult, Poll.unreplied, AwaitPoint.unreplied,
          Reply.isMonitorFailure]
  | streamEnd => rfl
  | answered he _ _ _ hq =>
      rcases hq with rfl | rfl <;>
        simp [List.countP_cons, he, Poll.unreplied, AwaitPoint.unreplied] <;>
        cases r.isMonitorFailure <;> rfl
  | panic => exact absurd rfl hq

theorem Move.panicked_reply (h : Move t now p r es .panicked) : r.isMonitorFailure = false := by
  cases h with
  | replied _ _ _ _ hq => simp at hq
  | status hq => simp at hq
  | answered _ _ _ _ hq => simp at hq
  | panic => rfl

theorem Move.ready_hash {res : ExecutionResult H} (h : Move t now p r es (.ready res)) :
    res.hash = t.tx.hash := by
  cases h with
  | replied _ _ _ _ hq => simp at hq; rcases hq with rfl | rfl <;> rfl
  | status hq => simp at hq; rcases hq with rfl | rfl <;> rfl
  | streamEnd => rfl
  | answered _ _ _ _ hq => simp at hq; rcases hq with rfl | rfl <;> rfl

/-- Only a task that waits on the monitor is told of its failures. -/
theorem Move.waiting_of_failure (h : Move t now p r es q) (hr : r.isMonitorFailure = true) :
    p = .waiting := by
  cases h with
  | answered => rfl
  | replied _ _ _ hr' => rw [hr'] at hr; cases hr
  | _ => cases hr

/-- A task whose submission call has returned is never again without a reply. -/
theorem Move.unreplied_of_pending {q : AwaitPoint} (h : Move t now p r es (.pending q))
    (hq : q.unreplied = true) : p.unreplied = true := by
  cases h with
  | start => rfl
  | replied => rfl
  | status hs => simp at hs; subst hs; cases hq
  | answered _ _ _ _ hs => simp at hs

theorem DefaultTxTask.execute_unwaited {q : AwaitPoint}
    (h : t.execute false now p r = some (es, .pending q)) : q ≠ .waiting := by
  unfold execute sendWatchedTx sendTx at h
  split at h <;> split at h <;>
    simp only [Option.some.injEq, Prod.mk.injEq, reduceCtorEq, Bool.false_eq_true, ↓reduceIte,
      and_false, Poll.pending.injEq] at h
  all_goals try split_ifs at h
  all_goals rintro rfl
  all_goals simp at h

theorem Move.times (h : Move t now p r es q) : ∀ e ∈ es, e.time = now := by
  intro e he
  cases h with
  | start => rw [List.mem_singleton.mp he]; rfl
  | replied _ _ ht => rw [List.mem_singleton.mp he]; exact ht
  | status => rw [List.mem_singleton.mp he]; rfl
  | streamEnd => cases he
  | answered _ _ _ ht => rw [List.mem_singleton.mp he]; exact ht
  | panic => cases he

theorem Move.created (h : Move t now .created r es q) : es = [.sent now] := by
  cases h with
  | start => rfl
  | panic hp => exact absurd rfl hp

theorem Move.panic_of_panicked (h : Move t now p r es .panicked) : r = .panic := by
  cases h with
  | replied _ _ _ _ hq => simp at hq
  | status hq => simp at hq
  | answered _ _ _ _ hq => simp at hq
  | panic => rfl

theorem DefaultTxTask.execute_failure {monitor : Bool}
    (h : t.execute monitor now p r = some (es, q)) (hr : r.isFailure = true) :
    q = .ready (.error t.tx.hash) := by
  unfold execute sendWatchedTx sendTx at h
  split at h <;> split at h <;>
    simp only [Option.some.injEq, Prod.mk.injEq, reduceCtorEq] at h <;>
    first | exact h.2.symm | cases hr

end TxTestTool
