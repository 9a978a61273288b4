import TxTestTool.Scenario.SignedNonces
import TxTestTool.Scenario.Tasks
import TxTestTool.Scenario.Accounts
import TxTestTool.Sink.Payload

/-!
# The builders of real transactions

`SubstrateTransactionBuilder` and `EthTransactionBuilder` differ in their types only. Both look the
accounts up, ask for a nonce if they are given none, make the call and sign it.
-/

namespace TxTestTool

variable {KP H : Type*}

/-- What is asked for while one transaction is built, and the randomness of its signature. -/
structure NodeAnswers where
  /-- The nonce that `check_account_nonce` returns, if it does not fail. -/
  accountNonce : Option Nat
  attempts : Nat → OnlineAttempt
  randomness : Nat

structure SignedExtrinsic (KP : Type*) where
  call : DynamicPayload
  signer : KP
  nonce : Nat
  tip : Nat
  era : Option Era
  randomness : Nat
deriving DecidableEq

/-- What does not change while the transactions of a scenario are built. -/
structure SubxtBuilder (KP H : Type*) where
  overflowChecks : Bool
  accounts : SinkAccounts KP
  accountId : KP → AccountId
  /-- The metadata of the node knows the call. -/
  encodes : DynamicPayload → Bool
  hash : SignedExtrinsic KP → H
  payloadBuilder : PayloadBuilderFn
  tip : Nat
  watched : Bool

/-- What the runner reads of a transaction. -/
def SubxtTransaction.toTransaction (tx : SubxtTransaction H) : Transaction H :=
  ⟨tx.hash, tx.nonce, tx.validUntil, tx.accountMetadata⟩

namespace SubxtBuilder

def context (c : SubxtBuilder KP H) (request : SigningRequest KP) (nonce : Nat) :
    TxPayloadBuildContext :=
  ⟨c.accountId request.toPair, c.accountId request.fromPair, request.params.account, nonce⟩

def buildSubxtTx (c : SubxtBuilder KP H) (a : NodeAnswers) (params : TransactionBuildParams) :
    Option (SubxtTransaction H) :=
  (c.accounts.buildSubxtTx params).bind fun request =>
    (params.nonce.or a.accountNonce).bind fun nonce =>
      (c.payloadBuilder (c.context request nonce)).bind fun call =>
        -- `create_partial_offline(..).unwrap()`; an online attempt fails instead
        if params.mortality = none ∧ c.encodes call = false then none
        else
          (buildFromAnswers c.overflowChecks
            (fun e => c.hash ⟨call, request.fromPair, e.signedNonce, c.tip, e.era, a.randomness⟩)
            ⟨a.accountNonce, request.metadata, a.attempts⟩ params).map Prod.snd

/-- Each call takes its own answers from those that the node gives. -/
def buildTransaction (c : SubxtBuilder KP H) : BuildTransaction (Nat → NodeAnswers) H :=
  fun answers params =>
    (c.buildSubxtTx (answers 0) params).map fun tx =>
      (fun i => answers (i + 1), ⟨tx.toTransaction, c.watched⟩)

/-- What every transaction has to do with the parameters that it is built from. -/
structure Built (c : SubxtBuilder KP H) (params : TransactionBuildParams)
    (task : DefaultTxTask H) : Prop where
  signed : ∃ e : SignedExtrinsic KP, task.tx.hash = c.hash e ∧
    c.accounts.getFromKeyPair params.account = some e.signer ∧ e.nonce = nonceAsU64 task.tx.nonce
  nonce : ∀ n ∈ params.nonce, task.tx.nonce = n
  metadata : c.accounts.getToAccountMetadata params.account = some task.tx.accountMetadata
  watched : task.watched = c.watched

variable {c : SubxtBuilder KP H} {a : NodeAnswers} {params : TransactionBuildParams}
  {answers answers' : Nat → NodeAnswers} {task : DefaultTxTask H}

theorem request_spec {s : SinkAccounts KP} {request : SigningRequest KP}
    (h : s.buildSubxtTx params = some request) :
    s.getFromKeyPair params.account = some request.fromPair ∧
      s.getToAccountMetadata params.account = some request.metadata ∧ request.params = params := by
  obtain ⟨toPair, _, h⟩ := Option.bind_eq_some_iff.mp h
  obtain ⟨fromPair, hfrom, h⟩ := Option.bind_eq_some_iff.mp h
  obtain ⟨metadata, hmetadata, rfl⟩ := Option.map_eq_some_iff.mp h
  exact ⟨hfrom, hmetadata, rfl⟩

theorem mortalBuild_spec {overflowChecks : Bool} {b : SubxtTransaction.MortalBuild H}
    {tx : SubxtTransaction H} (h : b.build overflowChecks = some tx) :
    tx.hash = b.hash tx.era ∧ tx.nonce = b.nonce ∧ tx.accountMetadata = b.metadata := by
  obtain ⟨result, hresult, hok⟩ := Option.bind_eq_some_iff.mp h
  cases result with
  | error err => cases hok
  | ok tx' =>
      cases hok
      unfold SubxtTransaction.MortalBuild.create SubxtTransaction.createOnlineWithAttempts at hresult
      split at hresult
      · obtain ⟨_, htx, heq⟩ := Option.map_eq_some_iff.mp hresult
        cases heq
        obtain ⟨_, _, htx⟩ := Option.bind_eq_some_iff.mp htx
        obtain ⟨_, hmetadata, rfl⟩ := Option.map_eq_some_iff.mp htx
        cases hmetadata
        exact ⟨rfl, rfl, rfl⟩
      · cases hresult

/-- The hash is that of what is signed, under whatever era. -/
theorem buildFromAnswers_spec {overflowChecks : Bool} {hash : Extrinsic → H} {b : BuildAnswers}
    {built : Extrinsic × SubxtTransaction H}
    (h : buildFromAnswers overflowChecks hash b params = some built) :
    ∃ nonce, params.nonce.or b.accountNonce = some nonce ∧ built.1 = .new nonce built.2.era ∧
      built.2.hash = hash built.1 ∧ built.2.nonce = nonce ∧
      built.2.accountMetadata = b.metadata := by
  obtain ⟨nonce, hnonce, h⟩ := Option.bind_eq_some_iff.mp h
  refine ⟨nonce, hnonce, ?_⟩
  split at h
  · obtain ⟨tx, htx, rfl⟩ := Option.map_eq_some_iff.mp h
    exact ⟨rfl, mortalBuild_spec htx⟩
  · cases h
    exact ⟨rfl, rfl, rfl, rfl⟩

theorem buildTransaction_built (h : c.buildTransaction answers params = some (answers', task)) :
    c.Built params task := by
  obtain ⟨tx, htx, hpair⟩ := Option.map_eq_some_iff.mp h
  simp only [Prod.mk.injEq] at hpair
  obtain ⟨_, rfl⟩ := hpair
  obtain ⟨request, hrequest, htx⟩ := Option.bind_eq_some_iff.mp htx
  obtain ⟨nonce, hnonce, htx⟩ := Option.bind_eq_some_iff.mp htx
  obtain ⟨call, _, htx⟩ := Option.bind_eq_some_iff.mp htx
  split at htx
  · cases htx
  · obtain ⟨⟨e, tx'⟩, hbuilt, rfl⟩ := Option.map_eq_some_iff.mp htx
    obtain ⟨hfrom, hmetadata, _⟩ := request_spec hrequest
    obtain ⟨nonce', hnonce', he, hhash, hn, hm⟩ := buildFromAnswers_spec hbuilt
    simp only at he hhash hn hm
    subst he
    refine ⟨⟨_, hhash, hfrom, by rw [← hn]; rfl⟩, fun n hmem => ?_,
      hmetadata.trans (congrArg some hm.symm), rfl⟩
    rw [Option.mem_def.mp hmem, Option.some_or, Option.some.injEq] at hnonce'
    exact hn.trans hnonce'.symm

end SubxtBuilder

end TxTestTool
