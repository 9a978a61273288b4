import Mathlib.Algebra.Group.Nat.Defs
import TxTestTool.Machine.AssocList
import TxTestTool.Log.Transaction

/-!
# Execution events, the shared counters and the per-transaction log
-/

namespace TxTestTool

variable {H : Type*}

inductive ExecutionEvent (H : Type*)
  | popped (i : SystemTime)
  | sent (i : SystemTime)
  | resubmitted (i : SystemTime)
  | submitResult (i : SystemTime) (result : Except String Unit)
  | submitAndWatchResult (i : SystemTime) (result : Except String Unit)
  | txPoolEvent (i : SystemTime) (status : TransactionStatus H)
  | finalizedMonitor (i : SystemTime) (block : H)
  | mortalDroppedMonitor (i : SystemTime) (blockNumber : BlockNumber)

namespace ExecutionEvent

/-- `r.map_err(|e| e.to_string())` -/
def resultText (r : Except Error Unit) : Except String Unit := r.mapError Error.toString

def time : ExecutionEvent H → SystemTime
  | .popped i | .sent i | .resubmitted i | .submitResult i _ | .submitAndWatchResult i _
  | .txPoolEvent i _ | .finalizedMonitor i _ | .mortalDroppedMonitor i _ => i

def isPopped : ExecutionEvent H → Bool
  | .popped _ => true
  | _ => false

def isSent : ExecutionEvent H → Bool
  | .sent _ => true
  | _ => false

/-- The event records a return of `submit` or of `submit_and_watch`. -/
def isResult : ExecutionEvent H → Bool
  | .submitResult _ _ | .submitAndWatchResult _ _ => true
  | _ => false

end ExecutionEvent

/-! ## Counters -/

/-- The atomics are natural numbers: no run pushes `2^64` events. -/
structure Counters where
  popped : Nat := 0
  sent : Nat := 0
  submitSuccess : Nat := 0
  submitError : Nat := 0
  submitAndWatchSuccess : Nat := 0
  submitAndWatchError : Nat := 0
  finalizedMonitor : Nat := 0
  mortalDroppedMonitor : Nat := 0
  tsValidated : Nat := 0
  tsBroadcasted : Nat := 0
  tsInBlock : Nat := 0
  tsFinalized : Nat := 0
  tsDropped : Nat := 0
  tsInvalid : Nat := 0
  tsError : Nat := 0
deriving DecidableEq, Repr

def usizeMax : Nat := 2 ^ 64 - 1

/-- `a - b` on `usize`. Below zero it panics (`none`) when the build checks overflows, and wraps
otherwise. -/
def usizeSub (overflowChecks : Bool) (a b : Nat) : Option Nat :=
  if b ≤ a then some (a - b) else if overflowChecks then none else some (a + 2 ^ 64 - b)

namespace Counters

def buffered (overflowChecks : Bool) (c : Counters) : Option Nat := do
  let d ← usizeSub overflowChecks c.popped (c.submitAndWatchSuccess + c.submitAndWatchError)
  usizeSub overflowChecks d (c.submitSuccess + c.submitError)

def countEvent (c : Counters) : ExecutionEvent H → Counters
  | .popped _ => { c with popped := c.popped + 1 }
  | .sent _ => { c with sent := c.sent + 1 }
  | .submitResult _ (.ok _) => { c with submitSuccess := c.submitSuccess + 1 }
  | .submitResult _ (.error _) => { c with submitError := c.submitError + 1 }
  | .submitAndWatchResult _ (.ok _) =>
      { c with submitAndWatchSuccess := c.submitAndWatchSuccess + 1 }
  | .submitAndWatchResult _ (.error _) =>
      { c with submitAndWatchError := c.submitAndWatchError + 1 }
  | .finalizedMonitor _ _ => { c with finalizedMonitor := c.finalizedMonitor + 1 }
  | .txPoolEvent _ status =>
      match status with
      | .validated => { c with tsValidated := c.tsValidated + 1 }
      | .broadcasted => { c with tsBroadcasted := c.tsBroadcasted + 1 }
      | .finalized _ => { c with tsFinalized := c.tsFinalized + 1 }
      | .dropped _ => { c with tsDropped := c.tsDropped + 1 }
      | .invalid _ => { c with tsInvalid := c.tsInvalid + 1 }
      | .error _ => { c with tsError := c.tsError + 1 }
      | .inBlock _ => { c with tsInBlock := c.tsInBlock + 1 }
      | .noLongerInBestBlock => c
  | .resubmitted _ => c
  | .mortalDroppedMonitor _ _ => { c with mortalDroppedMonitor := c.mortalDroppedMonitor + 1 }

def results (c : Counters) : Nat :=
  (c.submitAndWatchSuccess + c.submitAndWatchError) + (c.submitSuccess + c.submitError)

theorem countEvent_popped (c : Counters) (e : ExecutionEvent H) :
    (c.countEvent e).popped = c.popped + if e.isPopped then 1 else 0 := by
  cases e with
  | txPoolEvent i status => cases status <;> rfl
  | submitResult i r => cases r <;> rfl
  | submitAndWatchResult i r => cases r <;> rfl
  | _ => rfl

theorem countEvent_results (c : Counters) (e : ExecutionEvent H) :
    (c.countEvent e).results = c.results + if e.isResult then 1 else 0 := by
  cases e with
  | txPoolEvent i status => cases status <;> rfl
  | submitResult i r =>
      cases r <;> simp only [countEvent, results, ExecutionEvent.isResult, ↓reduceIte] <;> omega
  | submitAndWatchResult i r =>
      cases r <;> simp only [countEvent, results, ExecutionEvent.isResult, ↓reduceIte] <;> omega
  | _ => rfl

/-- Neither subtraction of `buffered` goes below zero. -/
def InRange (c : Counters) : Prop :=
  c.submitAndWatchSuccess + c.submitAndWatchError ≤ c.popped ∧
    c.submitSuccess + c.submitError ≤
      c.popped - (c.submitAndWatchSuccess + c.submitAndWatchError)

instance : DecidablePred InRange := fun c => by unfold InRange; infer_instance

theorem inRange_iff {c : Counters} : c.InRange ↔ c.results ≤ c.popped := by
  unfold InRange results
  omega

theorem InRange.buffered {c : Counters} (checks : Bool) (h : c.InRange) :
    c.buffered checks = some (c.popped - c.results) := by
  simp only [Counters.buffered, usizeSub, h.1, h.2, ↓reduceIte, Option.bind_eq_bind,
    Option.bind_some, results, Option.some.injEq]
  omega

theorem buffered_of_balance {c : Counters} {n : Nat} (h : c.popped = c.results + n) (checks : Bool) :
    c.InRange ∧ c.buffered checks = some n := by
  have hrange : c.InRange := inRange_iff.mpr (by omega)
  refine ⟨hrange, ?_⟩
  rw [hrange.buffered, h, Nat.add_sub_cancel_left]

end Counters

/-! ## The log of one transaction -/

/-- The counters are shared by all logs, so they are kept beside the logs and not in them. -/
structure TransactionExecutionLog (H : Type*) where
  events : List (ExecutionEvent H)
  accountMetadata : AccountMetadata
  nonce : Nat
  hash : H

namespace TransactionExecutionLog

def newWithTx (t : Transaction H) : TransactionExecutionLog H :=
  { events := [], accountMetadata := t.accountMetadata, nonce := t.nonce, hash := t.hash }

def inBlocks (l : TransactionExecutionLog H) : List H :=
  l.events.filterMap fun
    | .txPoolEvent _ (.inBlock h) => some h
    | _ => none

/-- Only the first `InBlock` of a transaction is counted: the stats line shows transactions
included, not events. -/
def isCounted (l : TransactionExecutionLog H) : ExecutionEvent H → Bool
  | .txPoolEvent _ (.inBlock _) => l.inBlocks.isEmpty
  | _ => true

def pushEvent (l : TransactionExecutionLog H) (c : Counters) (event : ExecutionEvent H) :
    TransactionExecutionLog H × Counters :=
  ({ l with events := l.events ++ [event] }, if l.isCounted event then c.countEvent event else c)

theorem pushEvent_popped (l : TransactionExecutionLog H) (c : Counters) (e : ExecutionEvent H) :
    (l.pushEvent c e).2.popped = c.popped + if e.isPopped then 1 else 0 := by
  simp only [pushEvent]
  split
  · exact Counters.countEvent_popped c e
  · rename_i h
    cases e with
    | txPoolEvent i status => rfl
    | _ => exact absurd rfl h

theorem pushEvent_results (l : TransactionExecutionLog H) (c : Counters) (e : ExecutionEvent H) :
    (l.pushEvent c e).2.results = c.results + if e.isResult then 1 else 0 := by
  simp only [pushEvent]
  split
  · exact Counters.countEvent_results c e
  · rename_i h
    cases e with
    | txPoolEvent i status => rfl
    | _ => exact absurd rfl h

/-! ## Queries -/

def getSentTimeStamp (l : TransactionExecutionLog H) : Option SystemTime :=
  l.events.findSome? fun
    | .sent i => some i
    | _ => none

/-- The outer `none` is the panic of `expect("time goes forward.")`. -/
def durationSinceTimestamp (start stop : Option SystemTime) : Option (Option Duration) :=
  match start, stop with
  | some start, some stop => if start ≤ stop then some (some (stop - start).toNat) else none
  | _, _ => some none

/-- The shape of all `time_to_*` queries: from the first `Sent` to the first event that `sel`
selects. -/
def timeTo (sel : ExecutionEvent H → Option SystemTime) (l : TransactionExecutionLog H) :
    Option (Option Duration) :=
  durationSinceTimestamp l.getSentTimeStamp (l.events.findSome? sel)

def timeToFinalizedMonitor : TransactionExecutionLog H → Option (Option Duration) :=
  timeTo fun
    | .finalizedMonitor i _ => some i
    | _ => none

def timeToMortalDroppedMonitor : TransactionExecutionLog H → Option (Option Duration) :=
  timeTo fun
    | .mortalDroppedMonitor i _ => some i
    | _ => none

def timeToFinalized : TransactionExecutionLog H → Option (Option Duration) :=
  timeTo fun
    | .txPoolEvent i (.finalized _) => some i
    | _ => none

def timeToValidated : TransactionExecutionLog H → Option (Option Duration) :=
  timeTo fun
    | .txPoolEvent i .validated => some i
    | _ => none

def timeToBroadcasted : TransactionExecutionLog H → Option (Option Duration) :=
  timeTo fun
    | .txPoolEvent i .broadcasted => some i
    | _ => none

def timeToInblock : TransactionExecutionLog H → Option (Option Duration) :=
  timeTo fun
    | .txPoolEvent i (.inBlock _) => some i
    | _ => none

def timeToDropped : TransactionExecutionLog H → Option (Option Duration) :=
  timeTo fun
    | .txPoolEvent i (.dropped _) => some i
    | _ => none

def timeToInvalid : TransactionExecutionLog H → Option (Option Duration) :=
  timeTo fun
    | .txPoolEvent i (.invalid _) => some i
    | _ => none

def timeToError : TransactionExecutionLog H → Option (Option Duration) :=
  timeTo fun
    | .txPoolEvent i (.error _) => some i
    | _ => none

def timeToResult : TransactionExecutionLog H → Option (Option Duration) :=
  timeTo fun
    | .submitAndWatchResult i _ | .submitResult i _ => some i
    | _ => none

/-! ## Statistics -/

/-- The sample `v` of one statistic, or `none` when a query panics. -/
def singleStat (method : TransactionExecutionLog H → Option (Option Duration))
    (logs : List (TransactionExecutionLog H)) : Option (List Duration) :=
  (logs.mapM method).map (·.filterMap id)

def makeStats (logs : List (TransactionExecutionLog H)) : Option (List (List Duration)) :=
  [timeToDropped, timeToError, timeToInvalid, timeToResult, timeToValidated, timeToBroadcasted,
    timeToInblock, timeToFinalized, timeToFinalizedMonitor, timeToMortalDroppedMonitor].mapM
    fun method => singleStat method logs

end TransactionExecutionLog

/-! ## The logs of a run -/

abbrev Logs (H : Type*) := AList fun _ : H => TransactionExecutionLog H

structure Books (H : Type*) where
  logs : Logs H
  eventCounters : Counters

namespace Books

variable [DecidableEq H]

/-- `log.push_event(event)` for the log of `hash`. -/
def pushEvent (b : Books H) (hash : H) (event : ExecutionEvent H) : Books H :=
  match b.logs.lookup hash with
  | none => b
  | some log =>
      { logs := b.logs.insert hash (log.pushEvent b.eventCounters event).1
        eventCounters := (log.pushEvent b.eventCounters event).2 }

def pushEvents (b : Books H) (hash : H) (events : List (ExecutionEvent H)) : Books H :=
  events.foldl (fun b e => b.pushEvent hash e) b

variable {b : Books H} {hash : H}

theorem mem_pushEvent {e : ExecutionEvent H} (k : H) :
    k ∈ (b.pushEvent hash e).logs ↔ k ∈ b.logs := by
  unfold pushEvent
  split
  · rfl
  · rename_i log hlog
    simp only [AList.mem_insert]
    refine ⟨?_, Or.inr⟩
    rintro (rfl | h)
    · exact AList.mem_of_lookup hlog
    · exact h

theorem mem_pushEvents {es : List (ExecutionEvent H)} (k : H) :
    k ∈ (b.pushEvents hash es).logs ↔ k ∈ b.logs := by
  induction es generalizing b with
  | nil => rfl
  | cons e es ih => exact ih.trans (mem_pushEvent k)

theorem lookup_pushEvent {e : ExecutionEvent H} (a : H) :
    (b.pushEvent hash e).logs.lookup a =
      if a = hash then (b.logs.lookup hash).map fun log => (log.pushEvent b.eventCounters e).1
      else b.logs.lookup a := by
  unfold pushEvent
  cases hlog : b.logs.lookup hash with
  | none =>
      by_cases ha : a = hash
      · subst ha
        simp [hlog]
      · simp [ha]
  | some log => simp only [AList.lookup_insert_eq, Option.map_some]

theorem lookup_pushEvents {es : List (ExecutionEvent H)} (a : H) :
    (b.pushEvents hash es).logs.lookup a =
      if a = hash then (b.logs.lookup hash).map fun log => { log with events := log.events ++ es }
      else b.logs.lookup a := by
  induction es generalizing b with
  | nil =>
      simp only [pushEvents, List.foldl_nil, List.append_nil, Option.map_id']
      split
      · rename_i ha
        rw [ha]
      · rfl
  | cons e es ih =>
      have htail : (b.pushEvents hash (e :: es)).logs.lookup a =
          ((b.pushEvent hash e).pushEvents hash es).logs.lookup a := rfl
      rw [htail, ih, lookup_pushEvent, lookup_pushEvent]
      by_cases ha : a = hash
      · simp [ha, TransactionExecutionLog.pushEvent, Function.comp_def]
      · simp [ha]

/-- A number that each push on a log raises by one for the events that `sel` selects is raised by
their count. -/
theorem pushEvents_measure (f : Counters → Nat) (sel : ExecutionEvent H → Bool)
    (hf : ∀ (log : TransactionExecutionLog H) c e,
      f (log.pushEvent c e).2 = f c + if sel e then 1 else 0)
    {es : List (ExecutionEvent H)} (h : hash ∈ b.logs) :
    f (b.pushEvents hash es).eventCounters = f b.eventCounters + es.countP sel := by
  induction es generalizing b with
  | nil => rfl
  | cons e es ih =>
      have hi : f ((b.pushEvent hash e).pushEvents hash es).eventCounters =
          f (b.pushEvent hash e).eventCounters + es.countP sel :=
        ih ((mem_pushEvent hash).mpr h)
      have he : f (b.pushEvent hash e).eventCounters =
          f b.eventCounters + if sel e then 1 else 0 := by
        obtain ⟨log, hlog⟩ := Option.isSome_iff_exists.mp (AList.lookup_isSome.mpr h)
        simp only [pushEvent, hlog]
        exact hf log _ _
      rw [List.countP_cons]
      exact hi.trans (by omega)

theorem pushEvents_popped {es : List (ExecutionEvent H)} (h : hash ∈ b.logs) :
    (b.pushEvents hash es).eventCounters.popped =
      b.eventCounters.popped + es.countP (·.isPopped) :=
  pushEvents_measure Counters.popped _ (fun log c e => log.pushEvent_popped c e) h

theorem pushEvents_results {es : List (ExecutionEvent H)} (h : hash ∈ b.logs) :
    (b.pushEvents hash es).eventCounters.results =
      b.eventCounters.results + es.countP (·.isResult) :=
  pushEvents_measure Counters.results _ (fun log c e => log.pushEvent_results c e) h

end Books

end TxTestTool
