import Mathlib.Logic.Function.Basic
import TxTestTool.Log.Transaction
import TxTestTool.Machine.AssocList
import TxTestTool.Machine.Run

/-!
# The block monitor

`block_monitor_inner` is cut at its `select!`: one event is one branch taken. A listener is named
by how many requests were taken before its own. Which blocks are delivered, in which order, and
whether their extrinsics can be fetched is up to the node and to the subscription: a header that is
skipped is a block that never comes.
-/

namespace TxTestTool

variable {H : Type*}

structure Block (H : Type*) where
  number : BlockNumber
  hash : H
  /-- The hashes of the extrinsics, or `none` when `block.extrinsics()` fails. -/
  extrinsics : Option (List H)
deriving DecidableEq, Repr

def Block.hashes (b : Block H) : List H := b.extrinsics.getD []

structure Channel (H : Type*) where
  sent : List (Except Error H) := []
  /-- The sender was dropped without an answer. -/
  closed : Bool := false
  receiver : Bool := true
deriving DecidableEq, Repr

def Channel.send (c : Channel H) (answer : Except Error H) : Channel H :=
  { c with sent := c.sent ++ [answer] }

def Channel.close (c : Channel H) : Channel H := { c with closed := true }

namespace BlockMonitor

inductive Status
  | running
  /-- `block_monitor_inner` returned an error, which `run` discards. -/
  | failed
  | panicked
deriving DecidableEq, Repr

structure State (H : Type*) where
  callbacks : AList fun _ : H => Nat
  /-- Each set is a list without repetitions. -/
  mortalAccounting : AList fun _ : BlockNumber => List H
  channels : Nat → Channel H
  status : Status
  /-- History: the requests so far. -/
  requests : List (H × Option BlockNumber)

inductive Event (H : Type*)
  /-- `order` is the order in which the set of expiring transactions is iterated. -/
  | finalized (block : Block H) (order : List H)
  | best (block : Block H)
  | request (hash : H) (validUntil : Option BlockNumber)
  | dropReceiver (k : Nat)
  /-- No handle is left and both subscriptions have ended or failed: `select!` has no branch to
  take. -/
  | allDisabled
deriving DecidableEq, Repr

def new : State H := ⟨∅, ∅, fun _ => {}, .running, []⟩

variable [DecidableEq H]

namespace State

def expiring (s : State H) (n : BlockNumber) : List H := (s.mortalAccounting.lookup n).getD []

def stop (s : State H) (status : Status) : State H :=
  { s with
    callbacks := ∅
    mortalAccounting := ∅
    channels := fun k =>
      if k ∈ s.callbacks.values then (s.channels k).close else s.channels k
    status }

/-- The trigger of `hash` is removed and fired, if there is one. Firing a trigger whose receiver
was dropped panics. -/
def notify (answer : Except Error H) (s : State H) (hash : H) : Except (State H) (State H) :=
  match s.callbacks.lookup hash with
  | none => .ok s
  | some k =>
      let rest := { s with callbacks := s.callbacks.erase hash }
      if (s.channels k).receiver then
        .ok { rest with channels := Function.update s.channels k ((s.channels k).send answer) }
      else .error (rest.stop .panicked)

def notifyAll (answer : Except Error H) (s : State H) (hashes : List H) :
    Except (State H) (State H) :=
  hashes.foldlM (notify answer) s

def settle (s : State H) (number : BlockNumber) (hash : H) (extrinsics order : List H) :
    Except (State H) (State H) := do
  let t ← s.notifyAll (.ok hash) extrinsics
  { t with mortalAccounting := t.mortalAccounting.erase number }.notifyAll
    (.error (.mortalLifetimeSurpassed number)) order

def handleBlock (s : State H) (block : Block H) (order : List H) (finalized : Bool) : State H :=
  match block.extrinsics with
  | none => s.stop .failed
  | some extrinsics =>
      if finalized then
        match s.settle block.number block.hash extrinsics order with
        | .ok t => t
        | .error t => t
      else s

/-- `callbacks.insert` drops the sender it replaces. -/
def register (s : State H) (hash : H) (validUntil : Option BlockNumber) : State H :=
  { s with
    callbacks := s.callbacks.insert hash s.requests.length
    mortalAccounting :=
      match validUntil with
      | none => s.mortalAccounting
      | some till => s.mortalAccounting.insert till ((s.expiring till).insert hash)
    channels :=
      match s.callbacks.lookup hash with
      | none => s.channels
      | some old => Function.update s.channels old (s.channels old).close
    requests := s.requests ++ [(hash, validUntil)] }

/-- A request that reaches no monitor is dropped together with its sender. -/
def refuse (s : State H) (hash : H) (validUntil : Option BlockNumber) : State H :=
  { s with
    channels :=
      Function.update s.channels s.requests.length (s.channels s.requests.length).close
    requests := s.requests ++ [(hash, validUntil)] }

end State

/-- Nothing reacts to the events after the end of the task. -/
def step (s : State H) : Event H → Option (State H)
  | .finalized block order =>
      if s.status = .running then
        if order.Perm (s.expiring block.number) then some (s.handleBlock block order true)
        else none
      else some s
  | .best block => some (if s.status = .running then s.handleBlock block [] false else s)
  | .request hash validUntil =>
      some (if s.status = .running then s.register hash validUntil else s.refuse hash validUntil)
  | .dropReceiver k =>
      some { s with
        channels := Function.update s.channels k { s.channels k with receiver := false } }
  | .allDisabled => some (if s.status = .running then s.stop .panicked else s)

def machine (H : Type*) [DecidableEq H] : Machine (State H) (Event H) := ⟨step⟩

/-! ## What a sequence of events contains -/

def finalizedBlocks (es : List (Event H)) : List (Block H) :=
  es.filterMap fun
    | .finalized block _ => some block
    | _ => none

def registrations (es : List (Event H)) : List (H × Option BlockNumber) :=
  es.filterMap fun
    | .request hash validUntil => some (hash, validUntil)
    | _ => none

end BlockMonitor

end TxTestTool
