import TxTestTool.Log.FakeHash
import TxTestTool.Runner.Task
import TxTestTool.Scenario.Builder

/-!
# Building transactions on a shared sink

What `build_transactions` relies on in a builder, and the builder of the fake chain.
-/

namespace TxTestTool

/-- One call of `build_transaction`. Its effect on the sink, which the calls share, is atomic. -/
abbrev BuildTransaction (S H : Type*) :=
  S → TransactionBuildParams → Option (S × DefaultTxTask H)

namespace BuildTransaction

variable {S H : Type*}

/-- The numbered accounts are signed for as such. -/
def Labels (build : BuildTransaction S H) : Prop :=
  ∀ s p s' task, build s p = some (s', task) → ∀ id < 2 ^ 32, p.account = Nat.repr id →
    task.tx.accountMetadata = .derived id

structure KeepsNonce (build : BuildTransaction S H) : Prop where
  labels : build.Labels
  keeps : ∀ s p nonce, p.nonce = some nonce →
    ∃ s' task, build s p = some (s', task) ∧ task.tx.nonce = nonce

/-- The sink hands out the nonces of every account one after the other. -/
structure HandsOut (build : BuildTransaction S H) (next : S → String → Nat) : Prop where
  labels : build.Labels
  hands : ∀ s p, next s p.account < 2 ^ 128 →
    ∃ s' task, build s p = some (s', task) ∧ task.tx.nonce = next s p.account ∧
      ∀ a, next s' a = if a = p.account then next s a + 1 else next s a

end BuildTransaction

namespace FakeTransaction

def newMultiple (index nonce : Nat) : Transaction FakeHash :=
  ⟨.ofIndex index, nonce, none, .derived index⟩

/-- The first four bytes of the name are indexed. -/
def newWithKeyring (account : String) (nonce : Nat) : Option (Transaction FakeHash) :=
  match account.toUTF8.data.toList with
  | b₀ :: b₁ :: b₂ :: b₃ :: _ => some ⟨⟨[b₀, b₁, b₂, b₃], rfl⟩, nonce, none, .keyRing account⟩
  | _ => none

end FakeTransaction

/-- The nonces of a `FakeTransactionsSink`. -/
abbrev FakeNonces := AList fun _ : String => Nat

namespace FakeTransactionBuilder

def key (account : String) : String := Hex.encode account.toUTF8.data.toList

/-- The section under the write lock. -/
def takeNonce (overflowChecks : Bool) (nonces : FakeNonces) (account : String) :
    Option (FakeNonces × Nat) :=
  match nonces.lookup (key account) with
  | some nonce =>
      (Unsigned.fit 128 overflowChecks (nonce + 1)).map fun next =>
        (nonces.insert (key account) next, next)
  | none => some (nonces.insert (key account) 0, 0)

def buildTransaction (overflowChecks watched : Bool) : BuildTransaction FakeNonces FakeHash :=
  fun nonces params =>
    -- `todo!()`
    if watched then none
    else
      (takeNonce overflowChecks nonces params.account).bind fun (nonces, nonce) =>
        match ScenarioBuilder.parseId params.account with
        | some i => some (nonces, ⟨FakeTransaction.newMultiple i nonce, true⟩)
        | none => (FakeTransaction.newWithKeyring "alice" nonce).map fun tx => (nonces, ⟨tx, true⟩)

/-- The nonce that an account gets next. -/
def nextNonce (nonces : FakeNonces) (account : String) : Nat :=
  match nonces.lookup (key account) with
  | some nonce => nonce + 1
  | none => 0

theorem key_injective : Function.Injective key := by
  intro a b h
  have hbytes := Array.toList_inj.mp (Hex.encode_injective h)
  exact String.toByteArray_inj.mp (ByteArray.ext hbytes)

theorem takeNonce_eq {overflowChecks : Bool} {nonces : FakeNonces} {account : String}
    (h : nextNonce nonces account < 2 ^ 128) :
    takeNonce overflowChecks nonces account =
      some (nonces.insert (key account) (nextNonce nonces account), nextNonce nonces account) := by
  unfold takeNonce
  unfold nextNonce at h ⊢
  cases hl : nonces.lookup (key account) with
  | none => rfl
  | some nonce =>
      simp only [hl] at h
      simp [Unsigned.fit_of_lt h]

theorem nextNonce_insert {nonces : FakeNonces} {account a : String} :
    nextNonce (nonces.insert (key account) (nextNonce nonces account)) a =
      if a = account then nextNonce nonces a + 1 else nextNonce nonces a := by
  by_cases h : a = account
  · subst h
    simp [nextNonce]
  · have hne : key a ≠ key account := fun hk => h (key_injective hk)
    simp only [nextNonce, AList.lookup_insert_ne hne, h, ↓reduceIte]

theorem handsOut (overflowChecks : Bool) :
    (buildTransaction overflowChecks false).HandsOut nextNonce where
  labels s p s' task h id hid hp := by
    have hparse : ScenarioBuilder.parseId p.account = some id := by
      rw [hp]
      exact Decimal.parse_repr hid
    obtain ⟨r, _, h⟩ := Option.bind_eq_some_iff.mp h
    simp only [hparse, Option.some.injEq, Prod.mk.injEq] at h
    obtain ⟨_, rfl⟩ := h
    rfl
  hands s p hlt := by
    have hinsert : ∀ a, nextNonce (s.insert (key p.account) (nextNonce s p.account)) a =
        if a = p.account then nextNonce s a + 1 else nextNonce s a := fun a => nextNonce_insert
    simp only [buildTransaction, takeNonce_eq hlt, Option.bind_some, Bool.false_eq_true, ↓reduceIte]
    cases ScenarioBuilder.parseId p.account with
    | some i => exact ⟨_, _, rfl, rfl, hinsert⟩
    | none => exact ⟨_, _, rfl, rfl, hinsert⟩

end FakeTransactionBuilder

end TxTestTool
