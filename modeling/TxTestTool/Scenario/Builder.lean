import TxTestTool.Codec.Decimal
import TxTestTool.Log.ExecutionLog
import TxTestTool.Machine.AssocList
import TxTestTool.Machine.Chunk
import TxTestTool.Machine.Results
import TxTestTool.Machine.Unsigned

/-!
# The accounts and the parameters of a scenario

`none` is a panic. The profile of the build decides what an overflow does, and how many threads
share the work is up to the machine.
-/

namespace TxTestTool

/-- The fields that decide which transactions are built. -/
structure ScenarioBuilder where
  accountId : Option String
  startId : Option UInt32
  lastId : Option UInt32
  nonceFrom : Option Nat
  txsCount : UInt32
  mortality : Option Nat

inductive AccountsDescription
  | keyring (account : String)
  | derived (start stop : Nat)
deriving DecidableEq, Repr

structure TransactionBuildParams where
  account : String
  nonce : Option Nat
  mortality : Option Nat
deriving DecidableEq, Repr

namespace ScenarioBuilder

def parseId (s : String) : Option Nat := Decimal.parse (2 ^ 32) s

/-- The range `start_id..=last_id` of `build_transactions`. -/
def ids (b : ScenarioBuilder) (start : UInt32) : List Nat :=
  Chunk.span start.toNat ((b.lastId.getD start).toNat + 1)

/-- The description that `build` and `check-nonce` make of an account string. -/
def describe (overflowChecks : Bool) (account : String) : Option AccountsDescription :=
  match parseId account with
  | some id => (Unsigned.fit 32 overflowChecks (id + 1)).map (.derived id)
  | none => some (.keyring account)

def accountsDescription (overflowChecks : Bool) (b : ScenarioBuilder) :
    Option AccountsDescription :=
  match b.startId with
  | some start =>
      (Unsigned.fit 32 overflowChecks ((b.lastId.getD start).toNat + 1)).map
        (.derived start.toNat)
  | none => b.accountId.bind (describe overflowChecks)

/-- The nonce is increased after each push, the last one included. -/
def pushParams (overflowChecks : Bool) (account : String) (mortality : Option Nat) :
    Nat → Option Nat → Option (List TransactionBuildParams)
  | 0, _ => some []
  | count + 1, none =>
      (pushParams overflowChecks account mortality count none).map (⟨account, none, mortality⟩ :: ·)
  | count + 1, some nonce =>
      (Unsigned.fit 128 overflowChecks (nonce + 1)).bind fun next =>
        (pushParams overflowChecks account mortality count (some next)).map
          (⟨account, some nonce, mortality⟩ :: ·)

def accountParams (overflowChecks : Bool) (b : ScenarioBuilder) (account : String) :
    Option (List TransactionBuildParams) :=
  pushParams overflowChecks account b.mortality b.txsCount.toNat b.nonceFrom

/-- The first part of `build_transactions`. -/
def buildParams (overflowChecks : Bool) (b : ScenarioBuilder) :
    Option (List TransactionBuildParams) :=
  match b.startId with
  | some start =>
      ((b.ids start).mapM fun account => b.accountParams overflowChecks account.repr).map
        List.flatten
  | none => b.accountId.bind (b.accountParams overflowChecks)

variable {overflowChecks : Bool} {b : ScenarioBuilder} {account : String} {mortality : Option Nat}
  {count : Nat} {nonce : Option Nat} {ps : List TransactionBuildParams} {start : UInt32}

theorem pushParams_account (h : pushParams overflowChecks account mortality count nonce = some ps) :
    ∀ p ∈ ps, p.account = account := by
  induction count generalizing nonce ps with
  | zero =>
      cases h
      simp
  | succ count ih =>
      have hcons : ∀ {nonce' nonce'' : Option Nat},
          (pushParams overflowChecks account mortality count nonce').map
            (⟨account, nonce'', mortality⟩ :: ·) = some ps → ∀ p ∈ ps, p.account = account := by
        intro nonce' nonce'' h
        obtain ⟨qs, hqs, rfl⟩ := Option.map_eq_some_iff.mp h
        intro p hp
        rcases List.mem_cons.mp hp with rfl | hp
        · rfl
        · exact ih hqs p hp
      cases nonce with
      | none => exact hcons h
      | some k =>
          obtain ⟨next, _, h⟩ := Option.bind_eq_some_iff.mp h
          exact hcons h

/-- The nonces are consecutive modulo `2 ^ 128`. -/
theorem pushParams_eq
    (h : ∀ k ∈ nonce, k < 2 ^ 128 ∧ (overflowChecks = true → k + count < 2 ^ 128)) :
    pushParams overflowChecks account mortality count nonce =
      some ((List.range count).map fun j =>
        ⟨account, nonce.map fun k => (k + j) % 2 ^ 128, mortality⟩) := by
  induction count generalizing nonce with
  | zero => rfl
  | succ count ih =>
      rw [List.range_succ_eq_map]
      cases nonce with
      | none =>
          have htail := @ih none (by simp)
          simp only [pushParams, htail, Option.map_some, List.map_cons, List.map_map]
          rfl
      | some k =>
          obtain ⟨hk, hchecked⟩ := h k rfl
          have hnext : Unsigned.fit 128 overflowChecks (k + 1) = some ((k + 1) % 2 ^ 128) := by
            cases overflowChecks with
            | false => exact Unsigned.fit_unchecked
            | true =>
                have hlt : k + 1 < 2 ^ 128 := by
                  have := hchecked rfl
                  omega
                rw [Unsigned.fit_of_lt hlt, Nat.mod_eq_of_lt hlt]
          have htail := @ih (some ((k + 1) % 2 ^ 128)) (by
            intro k' hk'
            cases hk'
            refine ⟨Nat.mod_lt _ (by decide), fun hc => ?_⟩
            have := hchecked hc
            omega)
          simp only [pushParams, hnext, Option.bind_some, htail, Option.map_some, List.map_cons,
            List.map_map, Function.comp_def, Nat.add_zero, Nat.mod_eq_of_lt hk, Nat.mod_add_mod,
            Nat.succ_eq_add_one, Nat.add_assoc, Nat.add_comm 1]

theorem pushParams_ne_nil
    (h : pushParams overflowChecks account mortality (count + 1) nonce = some ps) : ps ≠ [] := by
  cases nonce with
  | none =>
      obtain ⟨qs, _, rfl⟩ := Option.map_eq_some_iff.mp h
      simp
  | some k =>
      obtain ⟨next, _, h⟩ := Option.bind_eq_some_iff.mp h
      obtain ⟨qs, _, rfl⟩ := Option.map_eq_some_iff.mp h
      simp

/-- The accounts of the parameters are those of the range, unless there are no transactions. -/
theorem buildParams_accounts (hstart : b.startId = some start)
    (h : b.buildParams overflowChecks = some ps) :
    (∀ p ∈ ps, p.account ∈ (b.ids start).map Nat.repr) ∧
      (b.txsCount ≠ 0 → ∀ i ∈ b.ids start, ∃ p ∈ ps, p.account = i.repr) := by
  rw [buildParams, hstart] at h
  obtain ⟨pss, hpss, rfl⟩ := Option.map_eq_some_iff.mp h
  constructor
  · intro p hp
    obtain ⟨qs, hqs, hp⟩ := List.mem_flatten.mp hp
    obtain ⟨i, hi, hpush⟩ := List.mem_of_mapM hpss hqs
    exact List.mem_map.mpr ⟨i, hi, (pushParams_account hpush p hp).symm⟩
  · intro hcount i hi
    obtain ⟨qs, hqs, hpush⟩ := List.exists_mem_of_mapM hpss hi
    have hpos : b.txsCount.toNat ≠ 0 := fun hz => hcount (UInt32.toNat_inj.mp hz)
    obtain ⟨count, hc⟩ := Nat.exists_eq_succ_of_ne_zero hpos
    rw [accountParams, hc] at hpush
    obtain ⟨q, hq⟩ := List.exists_mem_of_ne_nil qs (pushParams_ne_nil hpush)
    exact ⟨q, List.mem_flatten.mpr ⟨qs, hqs, hq⟩, pushParams_account hpush q hq⟩

end ScenarioBuilder

end TxTestTool
