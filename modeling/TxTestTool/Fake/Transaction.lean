import TxTestTool.Runner.Records
import TxTestTool.Scenario.FakeBuilder

/-!
# Transactions of the fake chain

A fake transaction carries the stream of statuses that a node would report for it.
-/

namespace TxTestTool.Fake

/-- The delay is in milliseconds. -/
structure EventDef where
  event : TransactionStatus FakeHash
  delay : Nat
deriving DecidableEq

namespace EventDef

def validated (delay : Nat) : EventDef := ⟨.validated, delay⟩

def broadcasted (delay : Nat) : EventDef := ⟨.broadcasted, delay⟩

def inBlock (h delay : Nat) : EventDef := ⟨.inBlock (.ofIndex h), delay⟩

def finalized (h delay : Nat) : EventDef := ⟨.finalized (.ofIndex h), delay⟩

def dropped (delay : Nat) : EventDef := ⟨.dropped "xxx", delay⟩

def invalid (delay : Nat) : EventDef := ⟨.invalid "xxx", delay⟩

def error (delay : Nat) : EventDef := ⟨.error "xxx", delay⟩

end EventDef

abbrev EventsStreamDef := List EventDef

structure FakeTransaction where
  hash : FakeHash
  streamDef : List EventsStreamDef
  currentStreamDef : Nat
  nonce : Nat
  accountMetadata : AccountMetadata

namespace FakeTransaction

/-- What the runner sees of a transaction. -/
def toTransaction (t : FakeTransaction) : Transaction FakeHash :=
  ⟨t.hash, t.nonce, none, t.accountMetadata⟩

/-- `none`: the index is out of bounds. -/
def getCurrentStreamDef (t : FakeTransaction) : Option EventsStreamDef :=
  t.streamDef[t.currentStreamDef]?

def newMultiple (index nonce : Nat) (streamDef : List EventsStreamDef) : FakeTransaction :=
  ⟨.ofIndex index, streamDef, 0, nonce, .derived index⟩

/-- `none`: the name has fewer than four bytes. -/
def newWithKeyring (account : String) (nonce : Nat) (streamDef : List EventsStreamDef) :
    Option FakeTransaction :=
  (TxTestTool.FakeTransaction.newWithKeyring account nonce).map fun tx =>
    ⟨tx.hash, streamDef, 0, tx.nonce, tx.accountMetadata⟩

def new (index nonce : Nat) (streamDef : EventsStreamDef) : FakeTransaction :=
  ⟨.ofIndex index, [streamDef], 0, nonce, .derived index⟩

/-- Three blocks, of which the second is finalized. -/
def finalizedDef (delay : Nat) : EventsStreamDef :=
  [.broadcasted delay, .validated delay, .inBlock 1 delay, .inBlock 2 delay, .inBlock 3 delay,
    .finalized 2 delay]

def newInblockThenDroppable2ndSuccess (hash nonce delay : Nat) : FakeTransaction :=
  newMultiple hash nonce
    [[.broadcasted delay, .validated delay, .inBlock 1 delay, .inBlock 2 delay, .inBlock 3 delay,
      .dropped delay], finalizedDef delay]

def newDroppable2ndSuccess (hash nonce delay : Nat) : FakeTransaction :=
  newMultiple hash nonce [[.dropped delay], finalizedDef delay]

def newDroppableLoop (hash nonce delay : Nat) : FakeTransaction :=
  newMultiple hash nonce
    [[.dropped delay], [.dropped delay], [.dropped delay], [.dropped delay], [.dropped delay]]

def newDroppable (hash nonce delay : Nat) : FakeTransaction := new hash nonce [.dropped delay]

def newInvalid (hash nonce delay : Nat) : FakeTransaction := new hash nonce [.invalid delay]

def newError (hash nonce delay : Nat) : FakeTransaction := new hash nonce [.error delay]

def newFinalizableQuick (hash nonce : Nat) : FakeTransaction := new hash nonce (finalizedDef 0)

def newFinalizable (hash nonce : Nat) : FakeTransaction :=
  new hash nonce
    [.broadcasted 100, .validated 300, .inBlock 1 1000, .inBlock 2 1000, .inBlock 3 1000,
      .finalized 2 2000]

/-- The event that `submit_result` pops. `none`: there is no stream, or `expect` fails. -/
def submitEvent (t : FakeTransaction) : Option EventDef := t.getCurrentStreamDef.bind List.getLast?

/-- What `submit_result` makes of its event. `none`: `todo!()`. -/
def submitResult (t : FakeTransaction) : TransactionStatus FakeHash → Option (Except Error FakeHash)
  | .finalized _ => some (.ok t.hash)
  | .dropped message => some (.error (.other ("submit-error:dropped:" ++ message)))
  | .invalid message => some (.error (.other ("submit-error:invalid:" ++ message)))
  | .error message => some (.error (.other ("submit-error:error:" ++ message)))
  | .validated | .noLongerInBestBlock | .broadcasted | .inBlock _ => none

theorem submitResult_isSome (t : FakeTransaction) (event : TransactionStatus FakeHash) :
    (t.submitResult event).isSome = event.isTerminal := by
  cases event <;> rfl

end FakeTransaction

structure FakeTask where
  tx : FakeTransaction
  watched : Bool

namespace FakeTask

def toTask (t : FakeTask) : DefaultTxTask FakeHash := ⟨t.tx.toTransaction, t.watched⟩

/-! ## What the stream of a task stands for -/

/-- The statuses of the stream that is played. -/
def script (t : FakeTask) : List (TransactionStatus FakeHash) :=
  (t.tx.getCurrentStreamDef.getD []).map EventDef.event

/-- The status that decides the task: the first terminal one of a watched stream, and the last one
of the stream of a submission. -/
def verdict (t : FakeTask) : Option (TransactionStatus FakeHash) :=
  if t.watched then t.script.find? (·.isTerminal) else t.script.getLast?

def succeeds (t : FakeTask) : Bool := t.verdict.any (·.isFinalized)

def outcome (t : FakeTask) : ExecutionResult FakeHash :=
  if t.succeeds then .done t.tx.hash else .error t.tx.hash

/-- The sink can play the task: there is a stream, and a submission ends with its end. -/
def Playable (t : FakeTask) : Prop :=
  t.tx.getCurrentStreamDef.isSome ∧ (t.watched = false → t.verdict.any (·.isTerminal) = true)

instance (t : FakeTask) : Decidable t.Playable := inferInstanceAs (Decidable (_ ∧ _))

/-- The stream of a watched task ends without a terminal status. -/
def leaks (t : FakeTask) : Bool := t.watched && !t.script.any (·.isTerminal)

/-- All that the sink replies to the task, if it plays it to the end. -/
def replies (t : FakeTask) : List (Reply FakeHash) :=
  if t.watched then DefaultTxTask.watchReplies (.ok t.script)
  else
    .start :: ((t.tx.submitEvent.bind fun e => t.tx.submitResult e.event).map Reply.submit).toList

end FakeTask

end TxTestTool.Fake
