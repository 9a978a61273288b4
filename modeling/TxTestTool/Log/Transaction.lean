import Mathlib.Data.List.Basic

/-!
# Transactions, their statuses and errors

`H` is the hash type of the chain.
-/

namespace TxTestTool

/-- Wall-clock time in nanoseconds since the Unix epoch. It can be adjusted, also backwards. -/
abbrev SystemTime := Int

abbrev Duration := Nat

/-- Block numbers are `u64`. -/
abbrev BlockNumber := Nat

inductive Error
  | subxt (message : String)
  | other (message : String)
  | mortalLifetimeSurpassed (blockNumber : BlockNumber)
deriving DecidableEq, Repr

def Error.toString : Error → String
  | .subxt message => "subxt error: " ++ message
  | .other message => "Other error: " ++ message
  | .mortalLifetimeSurpassed blockNumber =>
      "Mortal transaction lifetime surpassed, block number: " ++ blockNumber.repr

inductive AccountMetadata
  | none
  | derived (id : Nat)
  | keyRing (name : String)
deriving DecidableEq, Repr

structure Transaction (H : Type*) where
  hash : H
  nonce : Nat
  validUntil : Option BlockNumber
  accountMetadata : AccountMetadata
deriving DecidableEq, Repr

inductive TransactionStatus (H : Type*)
  | validated
  | broadcasted
  | inBlock (block : H)
  | noLongerInBestBlock
  | finalized (block : H)
  | dropped (message : String)
  | invalid (message : String)
  | error (message : String)
deriving DecidableEq, Repr

namespace TransactionStatus

variable {H : Type*}

def isTerminal : TransactionStatus H → Bool
  | .finalized _ | .dropped _ | .invalid _ | .error _ => true
  | _ => false

def isFinalized : TransactionStatus H → Bool
  | .finalized _ => true
  | _ => false

def isError : TransactionStatus H → Bool
  | .dropped _ | .invalid _ | .error _ => true
  | _ => false

theorem isTerminal_eq (s : TransactionStatus H) : s.isTerminal = (s.isFinalized || s.isError) := by
  cases s <;> rfl

end TransactionStatus

end TxTestTool
