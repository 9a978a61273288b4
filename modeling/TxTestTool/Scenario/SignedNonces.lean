import TxTestTool.Scenario.Accounts
import TxTestTool.Sink.Online

/-!
# Recorded and signed nonces

The nonces of a scenario are `u128`. Both ways to build a transaction narrow them to the `u64` that
is signed, and record them as they were.
-/

namespace TxTestTool

variable {H : Type*}

/-- What is signed. -/
structure Extrinsic where
  payloadNonce : Nat
  signedNonce : Nat
  era : Option Era
deriving DecidableEq, Repr

/-- `nonce as u64` -/
def nonceAsU64 (nonce : Nat) : Nat := nonce % 2 ^ 64

def Extrinsic.new (nonce : Nat) (era : Option Era) : Extrinsic := ⟨nonce, nonceAsU64 nonce, era⟩

/-- What the node and the maps of the accounts answer while a transaction is built. -/
structure BuildAnswers where
  accountNonce : Option Nat
  metadata : AccountMetadata
  attempts : Nat → OnlineAttempt

/-- The headers of both chains have block numbers of 32 bits. -/
def BuildAnswers.HeadersFit (a : BuildAnswers) : Prop :=
  ∀ i number, (a.attempts i).blockAt = some number → number < 2 ^ 32

/-- `build_subxt_tx`, once the accounts are found. -/
def buildFromAnswers (overflowChecks : Bool) (hash : Extrinsic → H) (a : BuildAnswers)
    (params : TransactionBuildParams) : Option (Extrinsic × SubxtTransaction H) :=
  (params.nonce.or a.accountNonce).bind fun nonce =>
    match params.mortality with
    | some m =>
        (SubxtTransaction.MortalBuild.build overflowChecks
          ⟨fun era => hash (.new nonce era), nonce, m, a.metadata, a.attempts⟩).map
            fun tx => (.new nonce tx.era, tx)
    | none => some (.new nonce none, ⟨hash (.new nonce none), none, nonce, none, a.metadata⟩)

namespace ScenarioBuilder

/-- The accounts that the scenario builds transactions for. -/
def accounts (b : ScenarioBuilder) : List String :=
  match b.startId with
  | some start => (b.ids start).map Nat.repr
  | none => b.accountId.toList

/-- No sum overflows, which would make one profile panic and the other go on, and every transaction
that is built is signed with the nonce that it records. -/
structure NoncesSigned (hash : Extrinsic → H) (b : ScenarioBuilder) : Prop where
  described : b.accountsDescription true = b.accountsDescription false
  derived : ∀ description, b.accountsDescription false = some description →
    ∀ (KP : Type) (generate : AccountGenerateRequest → Option KP) parallelism, 1 ≤ parallelism →
      SinkAccounts.newWithAccountsDescription true parallelism generate description =
        SinkAccounts.newWithAccountsDescription false parallelism generate description
  increments : b.buildParams true = b.buildParams false
  lifetimes : ∀ ps, b.buildParams false = some ps → ∀ p ∈ ps, ∀ a : BuildAnswers, a.HeadersFit →
    buildFromAnswers true hash a p = buildFromAnswers false hash a p
  signed : ∀ ps, b.buildParams false = some ps → ∀ p ∈ ps, ∀ overflowChecks a built,
    buildFromAnswers overflowChecks hash a p = some built →
      built.1.payloadNonce = built.2.nonce ∧ built.1.signedNonce = built.2.nonce
  distinct : ∀ ps, b.buildParams false = some ps → ∀ p ∈ ps, ∀ q ∈ ps, p.account = q.account →
    ∀ overflowChecks a a' built built', buildFromAnswers overflowChecks hash a p = some built →
      buildFromAnswers overflowChecks hash a' q = some built' →
        built.2.nonce ≠ built'.2.nonce → built.1.signedNonce ≠ built'.1.signedNonce

/-- The successor of the last id fits in a `u32`. -/
def IdsFit (b : ScenarioBuilder) : Prop :=
  match b.startId with
  | some start => (b.lastId.getD start).toNat + 1 < 2 ^ 32
  | none => ∀ account ∈ b.accountId, ∀ id, parseId account = some id → id + 1 < 2 ^ 32

/-- A range of ids does not start more than one after its last. A reversed one wraps where sums are
not checked. -/
def IdsOrdered (b : ScenarioBuilder) : Prop :=
  ∀ start ∈ b.startId, start.toNat ≤ (b.lastId.getD start).toNat + 1

/-- If there is a transaction at all, the nonces fit in a `u64` and the lifetimes cannot overflow
one. -/
def NoncesSignable (b : ScenarioBuilder) (k : Nat) : Prop :=
  b.accounts ≠ [] → b.txsCount ≠ 0 →
    k + b.txsCount.toNat ≤ 2 ^ 64 ∧ ∀ m ∈ b.mortality, m + 2 ^ 32 ≤ 2 ^ 64

variable {b : ScenarioBuilder} {k count : Nat} {overflowChecks : Bool} {hash : Extrinsic → H}

/-! ## The accounts -/

theorem describe_profile_iff {account : String} : describe true account = describe false account ↔
    ∀ id, parseId account = some id → id + 1 < 2 ^ 32 := by
  unfold describe
  cases parseId account with
  | none => simp
  | some id =>
      simp only [Option.some.injEq, forall_eq']
      exact Unsigned.fit_map_profile_iff

theorem described_iff :
    b.accountsDescription true = b.accountsDescription false ↔ b.IdsFit := by
  unfold accountsDescription IdsFit
  cases b.startId with
  | some start => exact Unsigned.fit_map_profile_iff
  | none =>
      cases b.accountId with
      | none => simp
      | some account => simpa using describe_profile_iff

/-- The accounts of the range of one id are derived alike in both profiles, and so is an account with
a name. -/
theorem describe_derived {account : String} {description : AccountsDescription}
    (hfit : ∀ id, parseId account = some id → id + 1 < 2 ^ 32)
    (h : describe false account = some description) (KP : Type)
    (generate : AccountGenerateRequest → Option KP) {parallelism : Nat} (hp : 1 ≤ parallelism) :
    SinkAccounts.newWithAccountsDescription true parallelism generate description =
      SinkAccounts.newWithAccountsDescription false parallelism generate description := by
  unfold describe at h
  cases hid : parseId account with
  | none =>
      rw [hid] at h
      cases h
      rfl
  | some id =>
      have hlt : id + 1 < 2 ^ 32 := hfit id hid
      simp only [hid, Unsigned.fit_of_lt hlt, Option.map_some, Option.some.injEq] at h
      subst h
      exact (SinkAccounts.newWithAccountsDescription_profile_iff (by omega) hlt).mpr
        (Nat.le_succ id) KP generate parallelism hp

theorem derived_iff (hfit : b.IdsFit) :
    (∀ description, b.accountsDescription false = some description →
      ∀ (KP : Type) (generate : AccountGenerateRequest → Option KP) parallelism, 1 ≤ parallelism →
        SinkAccounts.newWithAccountsDescription true parallelism generate description =
          SinkAccounts.newWithAccountsDescription false parallelism generate description) ↔
    b.IdsOrdered := by
  unfold accountsDescription IdsOrdered
  unfold IdsFit at hfit
  cases hstart : b.startId with
  | some start =>
      rw [hstart] at hfit
      dsimp only at hfit
      simp only [Unsigned.fit_of_lt hfit, Option.map_some, Option.some.injEq, forall_eq',
        Option.mem_def]
      exact SinkAccounts.newWithAccountsDescription_profile_iff (UInt32.toNat_lt start) hfit
  | none =>
      rw [hstart] at hfit
      constructor
      · simp
      · intro _ description h KP generate parallelism hp
        obtain ⟨account, haccount, h⟩ := Option.bind_eq_some_iff.mp h
        exact describe_derived (hfit account haccount) h KP generate hp

/-! ## The parameters -/

theorem pushParams_overflow {account : String} {mortality : Option Nat} (hk : k < 2 ^ 128)
    (h : 2 ^ 128 ≤ k + count) : pushParams true account mortality count (some k) = none := by
  induction count generalizing k with
  | zero => omega
  | succ count ih =>
      rw [pushParams]
      by_cases hnext : k + 1 < 2 ^ 128
      · rw [Unsigned.fit_of_lt hnext, Option.bind_some, ih hnext (by omega), Option.map_none]
      · rw [Unsigned.fit_checked (Nat.le_of_not_lt hnext), Option.bind_none]

/-- The parameters, when no increment panics. -/
def nonceTable (b : ScenarioBuilder) (k : Nat) : List TransactionBuildParams :=
  b.accounts.flatMap fun account =>
    (List.range b.txsCount.toNat).map fun j => ⟨account, some ((k + j) % 2 ^ 128), b.mortality⟩

theorem buildParams_table (hnonce : b.nonceFrom = some k) (hk : k < 2 ^ 128)
    (hfit : overflowChecks = true → b.accounts ≠ [] → k + b.txsCount.toNat < 2 ^ 128) :
    b.buildParams overflowChecks =
      if b.startId = none ∧ b.accountId = none then none else some (b.nonceTable k) := by
  have hpush : ∀ account ∈ b.accounts, b.accountParams overflowChecks account =
      some ((List.range b.txsCount.toNat).map fun j =>
        ⟨account, some ((k + j) % 2 ^ 128), b.mortality⟩) := by
    intro account hmem
    rw [accountParams, hnonce, pushParams_eq]
    · rfl
    · intro k' hk'
      cases hk'
      exact ⟨hk, fun hc => hfit hc (List.ne_nil_of_mem hmem)⟩
  unfold buildParams nonceTable
  unfold accounts at hpush ⊢
  cases hstart : b.startId with
  | some start =>
      rw [hstart] at hpush
      have hrow : ∀ i ∈ b.ids start, b.accountParams overflowChecks i.repr =
          some ((List.range b.txsCount.toNat).map fun j =>
            ⟨i.repr, some ((k + j) % 2 ^ 128), b.mortality⟩) :=
        fun i hi => hpush _ (List.mem_map_of_mem hi)
      simp only [List.mapM_of_forall_eq hrow, Option.map_some, reduceCtorEq, false_and, ↓reduceIte]
      rw [List.flatMap_map, List.flatMap_def]
  | none =>
      rw [hstart] at hpush
      cases haccount : b.accountId with
      | none => simp
      | some account => simp [hpush account (by simp [haccount])]

theorem buildParams_overflow (hnonce : b.nonceFrom = some k) (hk : k < 2 ^ 128)
    (h : 2 ^ 128 ≤ k + b.txsCount.toNat) (haccounts : b.accounts ≠ []) :
    b.buildParams true = none := by
  have hpush : ∀ account, b.accountParams true account = none := by
    intro account
    rw [accountParams, hnonce, pushParams_overflow hk h]
  unfold buildParams
  unfold accounts at haccounts
  cases hstart : b.startId with
  | some start =>
      simp only [hstart, ne_eq, List.map_eq_nil_iff] at haccounts
      obtain ⟨i, ids, hids⟩ := List.exists_cons_of_ne_nil haccounts
      simp [hids, List.mapM_cons, hpush]
  | none => cases haccount : b.accountId <;> simp [hpush]

theorem mem_nonceTable {p : TransactionBuildParams} : p ∈ b.nonceTable k ↔
    ∃ account ∈ b.accounts, ∃ j < b.txsCount.toNat,
      p = ⟨account, some ((k + j) % 2 ^ 128), b.mortality⟩ := by
  simp only [nonceTable, List.mem_flatMap, List.mem_map, List.mem_range, eq_comm]

theorem NoncesSignable.nonce (h : b.NoncesSignable k) {p : TransactionBuildParams}
    (hp : p ∈ b.nonceTable k) : p.mortality = b.mortality ∧
      (∀ m ∈ b.mortality, m + 2 ^ 32 ≤ 2 ^ 64) ∧ ∃ n < 2 ^ 64, p.nonce = some n := by
  obtain ⟨account, haccount, j, hj, rfl⟩ := mem_nonceTable.mp hp
  have hcount : b.txsCount ≠ 0 := by
    intro hz
    rw [hz] at hj
    exact absurd hj (Nat.not_lt_zero j)
  obtain ⟨hle, hmortality⟩ := h (List.ne_nil_of_mem haccount) hcount
  refine ⟨rfl, hmortality, k + j, by omega, ?_⟩
  rw [Nat.mod_eq_of_lt (by omega)]

/-! ## The transactions -/

theorem buildFromAnswers_nonces {a : BuildAnswers} {p : TransactionBuildParams} {n : Nat}
    {built : Extrinsic × SubxtTransaction H} (hp : p.nonce = some n)
    (h : buildFromAnswers overflowChecks hash a p = some built) :
    built.1.payloadNonce = n ∧ built.1.signedNonce = nonceAsU64 n ∧ built.2.nonce = n := by
  rw [buildFromAnswers, hp, Option.some_or, Option.bind_some] at h
  split at h
  · obtain ⟨tx, htx, rfl⟩ := Option.map_eq_some_iff.mp h
    exact ⟨rfl, rfl, SubxtTransaction.MortalBuild.build_nonce htx⟩
  · cases h
    exact ⟨rfl, rfl, rfl⟩

theorem buildFromAnswers_profile {a : BuildAnswers} {p : TransactionBuildParams} {n : Nat}
    (hp : p.nonce = some n) (hm : ∀ m ∈ p.mortality, m + 2 ^ 32 ≤ 2 ^ 64) (ha : a.HeadersFit) :
    buildFromAnswers true hash a p = buildFromAnswers false hash a p := by
  rw [buildFromAnswers, buildFromAnswers, hp, Option.some_or, Option.bind_some, Option.bind_some]
  split
  · rename_i m hmortality
    rw [SubxtTransaction.MortalBuild.build_profile]
    intro i number hlatest
    have hnumber : number < 2 ^ 32 := by
      apply ha i number
      unfold OnlineAttempt.latest at hlatest
      split at hlatest
      · exact hlatest
      · cases hlatest
    calc number + m < 2 ^ 32 + m := Nat.add_lt_add_right hnumber m
      _ = m + 2 ^ 32 := Nat.add_comm _ _
      _ ≤ 2 ^ 64 := hm m hmortality
  · rfl

/-- A node that answers at once, at the highest block there can be. -/
def servedAnswers : BuildAnswers where
  accountNonce := none
  metadata := .none
  attempts _ := ⟨some 0, true, some (2 ^ 32 - 1)⟩

theorem servedAnswers_fit : servedAnswers.HeadersFit := by
  intro i number h
  cases h
  decide

theorem served_build {nonce m : Nat} {hash : Option Era → H} : SubxtTransaction.MortalBuild.build
      overflowChecks ⟨hash, nonce, m, servedAnswers.metadata, servedAnswers.attempts⟩ =
    (Unsigned.fit 64 overflowChecks (2 ^ 32 - 1 + m)).map fun v =>
      ⟨hash (some (.mortal m 0)), some (.mortal m 0), nonce, some v, .none⟩ := by
  have hfirst : Attempts.first SubxtTransaction.defaultRetriesForPartialTxCreation
      (fun i => (servedAnswers.attempts i).createPartial) = some (0, 0) :=
    Attempts.first_of_ends (by decide) rfl fun j hj => absurd hj (Nat.not_lt_zero j)
  have hlatest : (servedAnswers.attempts 0).latest = some (2 ^ 32 - 1) := rfl
  simp only [SubxtTransaction.MortalBuild.build, SubxtTransaction.MortalBuild.create,
    SubxtTransaction.createOnlineWithAttempts, hfirst, SubxtTransaction.subxtTransaction,
    SubxtTransaction.validUntilOf, hlatest, Option.bind_some, Option.map_some]
  cases Unsigned.fit 64 overflowChecks (2 ^ 32 - 1 + m) <;> rfl

/-- Without overflow checks every transaction is built. -/
theorem served_isSome {p : TransactionBuildParams} {n : Nat} (hp : p.nonce = some n) :
    (buildFromAnswers false hash servedAnswers p).isSome := by
  rw [buildFromAnswers, hp, Option.some_or, Option.bind_some]
  split
  · rw [served_build, Unsigned.fit_unchecked]
    rfl
  · rfl

/-- With overflow checks only when the block number and the mortality can be added. -/
theorem served_mortality {p : TransactionBuildParams} {n m : Nat} (hp : p.nonce = some n)
    (hm : p.mortality = some m) (h : (buildFromAnswers true hash servedAnswers p).isSome) :
    m + 2 ^ 32 ≤ 2 ^ 64 := by
  rw [buildFromAnswers, hp, Option.some_or, Option.bind_some, hm] at h
  simp only [Option.isSome_map, served_build] at h
  obtain ⟨v, hv⟩ := Option.isSome_iff_exists.mp h
  have hlt := (Unsigned.fit_true_eq_some_iff.mp hv).2
  omega

/-! ## When the nonces are signed -/

theorem NoncesSignable.signed (hnonce : b.nonceFrom = some k) (hk : k < 2 ^ 128)
    (hids : b.IdsFit) (hordered : b.IdsOrdered) (h : b.NoncesSignable k) :
    b.NoncesSigned hash := by
  have hparams : ∀ overflowChecks, b.buildParams overflowChecks =
      if b.startId = none ∧ b.accountId = none then none else some (b.nonceTable k) := by
    intro overflowChecks
    apply buildParams_table hnonce hk
    intro _ haccounts
    by_cases hz : b.txsCount = 0
    · rw [hz]
      exact hk
    · have hle := (h haccounts hz).1
      omega
  have hmem : ∀ ps, b.buildParams false = some ps → ps = b.nonceTable k := by
    intro ps hps
    rw [hparams] at hps
    split at hps
    · cases hps
    · exact (Option.some.injEq _ _ ▸ hps).symm
  have hsigned : ∀ p ∈ b.nonceTable k, ∀ overflowChecks a built,
      buildFromAnswers overflowChecks hash a p = some built →
        built.1.payloadNonce = built.2.nonce ∧ built.1.signedNonce = built.2.nonce := by
    intro p hp overflowChecks a built hbuilt
    obtain ⟨_, _, n, hn, hpn⟩ := h.nonce hp
    obtain ⟨hpayload, hsign, hrecord⟩ := buildFromAnswers_nonces hpn hbuilt
    rw [hpayload, hsign, hrecord]
    exact ⟨rfl, Nat.mod_eq_of_lt hn⟩
  refine ⟨described_iff.mpr hids, (derived_iff hids).mpr hordered, by rw [hparams, hparams], ?_, ?_,
    ?_⟩
  · intro ps hps p hp a ha
    rw [hmem ps hps] at hp
    obtain ⟨hmortality, hm, n, _, hpn⟩ := h.nonce hp
    exact buildFromAnswers_profile hpn (hmortality ▸ hm) ha
  · intro ps hps p hp
    rw [hmem ps hps] at hp
    exact hsigned p hp
  · intro ps hps p hp q hq _ overflowChecks a a' built built' hbuilt hbuilt' hne
    rw [hmem ps hps] at hp hq
    rw [(hsigned p hp _ _ _ hbuilt).2, (hsigned q hq _ _ _ hbuilt').2]
    exact hne

/-- A scenario signs the nonces that it records, without an overflow, exactly if the last id has a
successor, the range of ids is not reversed and, when there is a transaction, the last nonce fits in
a `u64` and the mortality leaves room for a block number. -/
theorem nonces_signed_iff (hash : Extrinsic → H) (hnonce : b.nonceFrom = some k)
    (hk : k < 2 ^ 128) :
    b.NoncesSigned hash ↔ b.IdsFit ∧ b.IdsOrdered ∧ b.NoncesSignable k := by
  refine ⟨fun h => ?_, fun ⟨hids, hordered, h⟩ => h.signed hnonce hk hids hordered⟩
  have hids : b.IdsFit := described_iff.mp h.described
  refine ⟨hids, (derived_iff hids).mp h.derived, fun haccounts hcount => ?_⟩
  have hpos : 0 < b.txsCount.toNat := by
    rw [Nat.pos_iff_ne_zero]
    exact fun hz => hcount (UInt32.toNat_inj.mp hz)
  have hnamed : ¬ (b.startId = none ∧ b.accountId = none) := by
    rintro ⟨hstart, haccount⟩
    simp [accounts, hstart, haccount] at haccounts
  have hparams : b.buildParams false = some (b.nonceTable k) := by
    rw [buildParams_table hnonce hk (by simp), if_neg hnamed]
  have hfit : k + b.txsCount.toNat < 2 ^ 128 := by
    by_contra hover
    have hsame := h.increments
    rw [buildParams_overflow hnonce hk (Nat.le_of_not_lt hover) haccounts, hparams] at hsame
    cases hsame
  obtain ⟨account, haccount⟩ := List.exists_mem_of_ne_nil _ haccounts
  have hlast : (⟨account, some (k + (b.txsCount.toNat - 1)), b.mortality⟩ :
      TransactionBuildParams) ∈ b.nonceTable k := by
    refine mem_nonceTable.mpr ⟨account, haccount, b.txsCount.toNat - 1, by omega, ?_⟩
    rw [Nat.mod_eq_of_lt (by omega)]
  have hsome : (buildFromAnswers false hash servedAnswers
      ⟨account, some (k + (b.txsCount.toNat - 1)), b.mortality⟩).isSome := served_isSome rfl
  constructor
  · obtain ⟨built, hbuilt⟩ := Option.isSome_iff_exists.mp hsome
    obtain ⟨_, hsign, hrecord⟩ := buildFromAnswers_nonces rfl hbuilt
    have heq := (h.signed _ hparams _ hlast _ _ _ hbuilt).2
    rw [hsign, hrecord, nonceAsU64] at heq
    have hlt := Nat.mod_lt (k + (b.txsCount.toNat - 1)) (Nat.two_pow_pos 64)
    omega
  · intro m hm
    have hsame := h.lifetimes _ hparams _ hlast servedAnswers servedAnswers_fit
    rw [← hsame] at hsome
    exact served_mortality rfl hm hsome

def aliceFrom (nonce : Nat) : ScenarioBuilder where
  accountId := some "alice"
  startId := none
  lastId := none
  nonceFrom := some nonce
  txsCount := 1
  mortality := none

/-- The nonce `2 ^ 64` is signed as zero, the increment after the last nonce there is overflows, and
so does the end of a range with the last id there is. A reversed range wraps. -/
theorem nonces_truncated :
    ¬ (∀ (b : ScenarioBuilder) (k : Nat), b.nonceFrom = some k →
      k + b.txsCount.toNat - 1 < 2 ^ 128 → b.NoncesSigned id) ∧
    (aliceFrom (2 ^ 128 - 1)).buildParams true = none ∧
    ({ aliceFrom 0 with startId := some 4294967295 } : ScenarioBuilder).accountsDescription true =
      none ∧
    ¬ ({ aliceFrom 0 with startId := some 5, lastId := some 2 } : ScenarioBuilder).NoncesSigned
      id := by
  refine ⟨fun h => ?_, by decide, by decide, fun h => ?_⟩
  · have hsigned := (h (aliceFrom (2 ^ 64)) (2 ^ 64) rfl (by decide)).signed
      [⟨"alice", some (2 ^ 64), none⟩] (by decide) _ (List.mem_singleton.mpr rfl) true
      servedAnswers _ rfl
    revert hsigned
    decide
  · have hordered := (derived_iff (described_iff.mp h.described)).mp h.derived 5 rfl
    revert hordered
    decide

/-- Two accounts, and the last two nonces that can be signed. -/
def lastSignable : ScenarioBuilder where
  accountId := none
  startId := some 0
  lastId := some 1
  nonceFrom := some (2 ^ 64 - 2)
  txsCount := 2
  mortality := some 64

theorem nonces_signed_last : lastSignable.NoncesSigned id :=
  (@nonces_signed_iff Extrinsic lastSignable (2 ^ 64 - 2) id rfl (by decide)).mpr
    ⟨by simp [IdsFit, lastSignable], by simp [IdsOrdered, lastSignable],
      fun _ _ => ⟨by decide, by simp [lastSignable]⟩⟩

end ScenarioBuilder

end TxTestTool
