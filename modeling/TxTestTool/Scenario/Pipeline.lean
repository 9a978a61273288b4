import TxTestTool.Machine.Turns
import TxTestTool.Runner.Lemmas.Invariants
import TxTestTool.Scenario.Lookups
import TxTestTool.Scenario.Rounds
import TxTestTool.Scenario.SubxtBuilder

/-!
# From the parameters of a scenario to the pops of the runner
-/

namespace TxTestTool

variable {KP H : Type*}

open BuildTasks

/-! ## The accounts of the sink -/

section

variable {generate : AccountGenerateRequest → Option KP} {overflowChecks : Bool}
  {parallelism first stop i : Nat} {seed : String} {accounts : DerivedAccounts KP}
  {entry : KP × AccountMetadata}

/-- What a map has under the name of an id is derived from the id. -/
theorem derived_lookup
    (h : deriveAccounts overflowChecks parallelism generate seed (.derived first stop) =
      some accounts) (hi : i < 2 ^ 32) (he : accounts.lookup i.repr = some entry) :
    generate (.derived seed i) = some entry.1 ∧ entry.2 = .derived i := by
  obtain ⟨n, _, h⟩ := Option.bind_eq_some_iff.mp h
  obtain ⟨chunks, _, h⟩ := Option.bind_eq_some_iff.mp h
  obtain ⟨entries, hentries, rfl⟩ := Option.map_eq_some_iff.mp h
  obtain ⟨j, _, hj⟩ := List.mem_of_mapM hentries (AList.mem_of_lookup_ofPairs he)
  obtain ⟨pair, hpair, heq⟩ := Option.map_eq_some_iff.mp hj
  simp only [Prod.mk.injEq] at heq
  obtain ⟨hname, rfl⟩ := heq
  have hsame : j = i := Decimal.repr_injective hname
  rw [hsame, Nat.mod_eq_of_lt hi] at hpair ⊢
  exact ⟨hpair, rfl⟩

end

namespace ScenarioBuilder

variable {generate : AccountGenerateRequest → Option KP} {b : ScenarioBuilder}
  {k parallelism : Nat} {plan : BuildPlan} {c : SubxtBuilder KP H}
  {s : State (Nat → NodeAnswers) H} {p : TransactionBuildParams} {overflowChecks : Bool}

/-! ## The parameters -/

theorem buildPlan_exact (h : b.buildPlan overflowChecks parallelism = some plan)
    (hp : 1 ≤ parallelism)
    (hfit : plan.params.length * min plan.params.length parallelism < 2 ^ 64) :
    b.buildParams overflowChecks = some plan.params ∧ Exact plan := by
  obtain ⟨params, hparams, h⟩ := Option.bind_eq_some_iff.mp h
  obtain ⟨chunks, hchunks, rfl⟩ := Option.map_eq_some_iff.mp h
  refine ⟨hparams, ?_⟩
  have hall : ∀ i ∈ List.range (min params.length parallelism),
      buildChunk overflowChecks params.length (min params.length parallelism) i =
        some (Chunk.chunk params.length (min params.length parallelism) i) :=
    fun i hi => buildChunk_eq (List.mem_range.mp hi) hfit
  rw [List.mapM_of_forall_eq hall, Option.some.injEq] at hchunks
  rw [Exact, ← hchunks, ← List.flatMap_def, Chunk.flatMap_chunk_min hp]

theorem accounts_nodup (b : ScenarioBuilder) : b.accounts.Nodup := by
  unfold accounts
  split
  · exact (Chunk.nodup_span _ _).map Decimal.repr_injective
  · cases b.accountId <;> simp

theorem mem_accounts {start : UInt32} (hstart : b.startId = some start) {account : String}
    (h : account ∈ b.accounts) : ∃ i < 2 ^ 32, account = i.repr := by
  rw [accounts, hstart] at h
  obtain ⟨i, hi, rfl⟩ := List.mem_map.mp h
  have hlast : ((b.lastId.getD start).toNat) < 2 ^ 32 := UInt32.toNat_lt _
  rw [ids, Chunk.mem_span] at hi
  exact ⟨i, by omega, rfl⟩

/-- A build that panics upon overflows has had none. -/
theorem params_eq (hnonce : b.nonceFrom = some k) (hk : k < 2 ^ 128)
    {params : List TransactionBuildParams} (h : b.buildParams overflowChecks = some params) :
    params = b.nonceTable k := by
  have hfit : overflowChecks = true → b.accounts ≠ [] → k + b.txsCount.toNat < 2 ^ 128 := by
    rintro rfl haccounts
    by_contra hover
    rw [buildParams_overflow hnonce hk (Nat.le_of_not_lt hover) haccounts] at h
    cases h
  rw [buildParams_table hnonce hk hfit] at h
  split at h
  · cases h
  · exact (Option.some.inj h).symm

/-! ## What has been built -/

/-- All transactions of a scenario have been built, in any interleaving and whatever the node
answered, by the builder `c` over the accounts that the scenario describes. -/
structure Prepared (generate : AccountGenerateRequest → Option KP) (parallelism : Nat)
    (c : SubxtBuilder KP H) (b : ScenarioBuilder) (plan : BuildPlan)
    (s : State (Nat → NodeAnswers) H) : Prop where
  sink : ∃ description, b.accountsDescription c.overflowChecks = some description ∧
    SinkAccounts.newWithAccountsDescription c.overflowChecks parallelism generate description =
      some c.accounts
  planned : b.buildPlan c.overflowChecks parallelism = some plan
  run : ∃ answers is, (machine c.buildTransaction plan).run (new answers) is = some s
  joined : s.Joined plan

/-- The machine has a thread, and the bounds of the chunks do not overflow. -/
structure Shared (parallelism : Nat) (plan : BuildPlan) : Prop where
  threads : 1 ≤ parallelism
  fits : plan.params.length * min plan.params.length parallelism < 2 ^ 64

theorem Prepared.built (h : Prepared generate parallelism c b plan s)
    (hshared : Shared parallelism plan) (hnonce : b.nonceFrom = some k) (hk : k < 2 ^ 128) :
    List.Forall₂ c.Built (b.nonceTable k) ((s.all plan).map (·.2)) := by
  obtain ⟨answers, is, hrun⟩ := h.run
  obtain ⟨hparams, hexact⟩ := buildPlan_exact h.planned hshared.threads hshared.fits
  have hinv := run_inv hrun
  have hall := hinv.all_joined hexact h.joined
  rw [← params_eq hnonce hk hparams, List.forall₂_map_right_iff]
  have hlength : plan.params.length = (s.all plan).length := by
    have hlen := congrArg List.length hall
    simpa using hlen.symm
  refine List.forall₂_iff_get.mpr ⟨hlength, fun i hi hi' => ?_⟩
  have hindex : ((s.all plan).get ⟨i, hi'⟩).1 = i := by
    have hget : ((s.all plan).map (·.1))[i]? = (List.range plan.params.length)[i]? := by rw [hall]
    simpa [hi, hi'] using hget
  obtain ⟨j, _, hmem⟩ := List.mem_flatMap.mp (List.get_mem (s.all plan) ⟨i, hi'⟩)
  obtain ⟨p, hp, s₀, s₁, hbuild⟩ := hinv.made j _ hmem
  rw [hindex, List.getElem?_eq_getElem hi, Option.some.injEq] at hp
  rw [List.get_eq_getElem, hp]
  exact SubxtBuilder.buildTransaction_built hbuild

/-- What the maps have under the names of a range. -/
theorem Prepared.derived (h : Prepared generate parallelism c b plan s) {start : UInt32}
    (hstart : b.startId = some start) {i : Nat} (hi : i < 2 ^ 32) :
    (∀ pair, c.accounts.getFromKeyPair i.repr = some pair →
      generate (.derived senderSeed i) = some pair) ∧
    ∀ metadata, c.accounts.getToAccountMetadata i.repr = some metadata →
      metadata = .derived i := by
  obtain ⟨description, hdescription, hsink⟩ := h.sink
  rw [accountsDescription_range hstart] at hdescription
  obtain ⟨stop, _, rfl⟩ := Option.map_eq_some_iff.mp hdescription
  obtain ⟨senders, hsenders, hsink⟩ := Option.bind_eq_some_iff.mp hsink
  obtain ⟨receivers, hreceivers, haccounts⟩ := Option.map_eq_some_iff.mp hsink
  rw [← haccounts]
  refine ⟨fun pair hpair => ?_, fun metadata hmetadata => ?_⟩
  · obtain ⟨entry, hentry, rfl⟩ := Option.map_eq_some_iff.mp hpair
    exact (derived_lookup hsenders hi hentry).1
  · obtain ⟨entry, hentry, rfl⟩ := Option.map_eq_some_iff.mp hmetadata
    exact (derived_lookup hreceivers hi hentry).2

/-- The accounts of a scenario are told apart by whatever tells the ids of a range apart. -/
theorem accounts_inj {account account' : String} (ha : account ∈ b.accounts)
    (ha' : account' ∈ b.accounts)
    (hrange : ∀ start, b.startId = some start → ∀ i < 2 ^ 32, ∀ j < 2 ^ 32, account = i.repr →
      account' = j.repr → i = j) : account = account' := by
  cases hstart : b.startId with
  | some start =>
      obtain ⟨i, hi, rfl⟩ := mem_accounts hstart ha
      obtain ⟨j, hj, rfl⟩ := mem_accounts hstart ha'
      rw [hrange start hstart i hi j hj rfl rfl]
  | none =>
      simp only [accounts, hstart, Option.mem_toList] at ha ha'
      exact Option.some.inj (ha.symm.trans ha')

theorem Prepared.metadata_inj (h : Prepared generate parallelism c b plan s)
    {account account' : String} {metadata : AccountMetadata} (ha : account ∈ b.accounts)
    (ha' : account' ∈ b.accounts)
    (hm : c.accounts.getToAccountMetadata account = some metadata)
    (hm' : c.accounts.getToAccountMetadata account' = some metadata) : account = account' := by
  refine accounts_inj ha ha' fun start hstart i hi j hj hname hname' => ?_
  subst hname hname'
  have hsame := ((h.derived hstart hi).2 metadata hm).symm.trans
    ((h.derived hstart hj).2 metadata hm')
  exact AccountMetadata.derived.inj hsame

/-! ## The hashes -/

theorem transactions_perm (s : State (Nat → NodeAnswers) H) :
    (s.transactions plan).Perm ((s.all plan).map (·.2)) := by
  rw [transactions_eq]
  exact List.mergeSort_perm _ _

def pairBuilder : ScenarioBuilder where
  accountId := none
  startId := some 0
  lastId := some 1
  nonceFrom := some 5
  txsCount := 2
  mortality := none

/-- A builder that signs transfers. The extrinsics are their own hashes. -/
def pairSink : SubxtBuilder String (SignedExtrinsic String) where
  overflowChecks := true
  accounts := (SinkAccounts.newWithAccountsDescription true 2 generateKeypair
    (.derived 0 2)).getD ⟨∅, ∅⟩
  accountId := fun pair => pair.toList.map fun ch => UInt8.ofNat ch.toNat
  encodes := fun _ => true
  hash := id
  payloadBuilder := subTransferPayloadBuilder
  tip := 0
  watched := false

/-- It is not asked for anything, as the nonces are given and the transactions immortal. -/
def silentNode : Nat → NodeAnswers := fun _ => ⟨none, fun _ => ⟨none, false, none⟩, 0⟩

def pairPlan : BuildPlan := (pairBuilder.buildPlan true 2).getD ⟨[], []⟩

/-- The two tasks take turns. -/
def pairBuilt : State (Nat → NodeAnswers) (SignedExtrinsic String) :=
  ((machine pairSink.buildTransaction pairPlan).run (new silentNode) [0, 1, 0, 1]).getD
    (new silentNode)

theorem pair_run : (machine pairSink.buildTransaction pairPlan).run (new silentNode) [0, 1, 0, 1] =
    some pairBuilt := rfl

theorem pair_prepared : Prepared generateKeypair 2 pairSink pairBuilder pairPlan pairBuilt where
  sink := ⟨_, rfl, rfl⟩
  planned := rfl
  run := ⟨_, _, pair_run⟩
  joined := by
    intro i hi
    have h : pairPlan.chunks.length = 2 := rfl
    match i with
    | 0 => exact Nat.le_of_eq rfl
    | 1 => exact Nat.le_of_eq rfl
    | i + 2 => omega

theorem pair_shared : Shared 2 pairPlan := ⟨by simp, by decide⟩

/-- The nonces of the tasks of an account, in the order of a list of tasks. -/
def noncesOf (c : SubxtBuilder KP H) (account : String) (ts : List (DefaultTxTask H)) : List Nat :=
  Turns.turns (·.tx.nonce) (fun t => some t.tx.accountMetadata)
    (c.accounts.getToAccountMetadata account) ts

theorem nonceTable_filter {account : String} (ha : account ∈ b.accounts)
    (hfit : k + b.txsCount.toNat ≤ 2 ^ 64) :
    ((b.nonceTable k).filter fun p => p.account = account).map (fun p => p.nonce.getD 0) =
      Turns.upTo k b.txsCount.toNat := by
  rw [nonceTable, List.filter_flatMap, List.map_flatMap,
    Chunk.flatMap_single b.accounts_nodup ha fun account' _ hne => ?_]
  · rw [Turns.upTo, List.filter_map, List.map_map, List.filter_eq_self.mpr (by simp)]
    refine List.map_congr_left fun j hj => ?_
    rw [List.mem_range] at hj
    exact Nat.mod_eq_of_lt (by omega)
  · rw [List.filter_map, List.filter_eq_nil_iff.mpr (by simp [hne])]
    rfl

theorem Prepared.noncesOf_transactions (h : Prepared generate parallelism c b plan s)
    (hshared : Shared parallelism plan) (hnonce : b.nonceFrom = some k)
    (hfit : k + b.txsCount.toNat ≤ 2 ^ 64) {account : String} (ha : account ∈ b.accounts) :
    noncesOf c account (s.transactions plan) = Turns.upTo k b.txsCount.toNat := by
  have hbuilt := h.built hshared hnonce (by omega)
  have hsorted : (s.transactions plan).Pairwise fun t u => t.tx.nonce ≤ u.tx.nonce :=
    sortByNonce_pairwise _
  refine Turns.turns_eq_upTo hsorted ?_
  have hperm : (s.transactions plan).Perm ((s.all plan).map (·.2)) := transactions_perm s
  refine ((hperm.filter _).map _).trans ?_
  rw [← nonceTable_filter ha hfit]
  refine List.Perm.of_eq (hbuilt.map_filter ?_).symm
  intro p hp t ht
  obtain ⟨account', haccount', i, _, rfl⟩ := mem_nonceTable.mp hp
  refine ⟨?_, fun _ => (ht.nonce _ rfl).symm⟩
  rw [decide_eq_decide]
  constructor
  · rintro rfl
    exact ht.metadata.symm
  · exact fun hm => h.metadata_inj haccount' ha ht.metadata hm.symm

/-- In every run every account's transactions are popped in the order of their nonces, none left
out, so that at any time those that have been popped have the first nonces. -/
theorem sent_in_order [DecidableEq H] (h : Prepared generate parallelism c b plan s)
    (hshared : Shared parallelism plan) (hnonce : b.nonceFrom = some k)
    (hfit : k + b.txsCount.toNat ≤ 2 ^ 64) {cfg : Runner.Config} {wall : SystemTime}
    {is : List (Runner.Input H)} {r : Runner.State H}
    (hrun : (Runner.machine H cfg).run
      (Runner.new cfg (runnerTransactions (s.transactions plan)) wall) is = some r) :
    (∀ account ∈ b.accounts, noncesOf c account r.popped =
      (List.range (noncesOf c account r.popped).length).map (k + ·)) ∧
    ∀ account ∈ b.accounts, ∀ account' ∈ b.accounts,
      (noncesOf c account r.popped).length ≤ (noncesOf c account' r.popped).length + 1 := by
  have horder : r.popped ++ r.transactions.reverse =
      (runnerTransactions (s.transactions plan)).reverse := (Runner.run_good hrun).inv.order
  rw [runnerTransactions, List.reverse_reverse] at horder
  have hpre : r.popped <+: s.transactions plan := ⟨_, horder⟩
  have hturns : ∀ account ∈ b.accounts,
      noncesOf c account (s.transactions plan) = Turns.upTo k b.txsCount.toNat :=
    fun account ha => h.noncesOf_transactions hshared hnonce hfit ha
  refine ⟨fun account ha => Turns.turns_in_order hpre (hturns account ha),
    fun account ha account' ha' => ?_⟩
  exact Turns.balanced (sortByNonce_pairwise _) hpre (hturns account ha) (hturns account' ha')

theorem mergeSort_pairs {α : Type*} (key : α → Nat) {t₀ t₁ t₂ t₃ : α} (h₀ : key t₀ = k)
    (h₁ : key t₁ = k + 1) (h₂ : key t₂ = k) (h₃ : key t₃ = k + 1) :
    ([t₀, t₁, t₂, t₃].mergeSort fun a b => key a ≤ key b) = [t₀, t₂, t₁, t₃] := by
  simp [List.mergeSort, List.MergeSort.Internal.splitInTwo, h₀, h₁, h₂, h₃]

theorem pair_popped : ((Runner.machine (SignedExtrinsic String) ⟨3, none, false, true⟩).run
    (Runner.new ⟨3, none, false, true⟩ (runnerTransactions (pairBuilt.transactions pairPlan)) 0)
    [.resume, .resume, .resume]).map (fun r => (noncesOf pairSink "0" r.popped,
      noncesOf pairSink "1" r.popped)) = some ([5, 6], [5]) := by
  rw [transactions_eq, show (pairBuilt.all pairPlan).map (·.2) = [_, _, _, _] from rfl,
    mergeSort_pairs (k := 5) fun t : DefaultTxTask _ => t.tx.nonce]
  all_goals rfl

theorem sent_in_order_pair : ∃ is r,
    (Runner.machine (SignedExtrinsic String) ⟨3, none, false, true⟩).run
      (Runner.new ⟨3, none, false, true⟩
        (runnerTransactions (pairBuilt.transactions pairPlan)) 0) is = some r ∧
    noncesOf pairSink "0" r.popped = [5, 6] ∧
    noncesOf pairSink "0" r.popped =
      (List.range (noncesOf pairSink "0" r.popped).length).map (5 + ·) ∧
    (noncesOf pairSink "0" r.popped).length ≤ (noncesOf pairSink "1" r.popped).length + 1 := by
  obtain ⟨r, hrun, hpopped⟩ := Option.map_eq_some_iff.mp pair_popped
  rw [Prod.mk.injEq] at hpopped
  obtain ⟨horder, hbalanced⟩ := sent_in_order pair_prepared pair_shared rfl (by decide) hrun
  exact ⟨_, r, hrun, hpopped.1, horder "0" (by decide),
    hbalanced "0" (by decide) "1" (by decide)⟩

end ScenarioBuilder

end TxTestTool
