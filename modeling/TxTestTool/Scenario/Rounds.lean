import TxTestTool.Machine.RoundRobin
import TxTestTool.Scenario.HandedOut

/-!
# The transactions of a range of accounts come in rounds
-/

namespace TxTestTool

variable {S H : Type*}

def DefaultTxTask.label (task : DefaultTxTask H) : AccountMetadata × Nat :=
  (task.tx.accountMetadata, task.tx.nonce)

namespace ScenarioBuilder

/-- The number of accounts of a range. -/
def accountsCount (b : ScenarioBuilder) (start : UInt32) : Nat :=
  (b.lastId.getD start).toNat + 1 - start.toNat

/-- Parameter `i` of a range: the accounts one after the other, each with all its nonces. -/
def rangeParam (b : ScenarioBuilder) (start : UInt32) (i : Nat) : TransactionBuildParams where
  account := (start.toNat + i / b.txsCount.toNat).repr
  nonce := b.nonceFrom.map fun k => (k + i % b.txsCount.toNat) % 2 ^ 128
  mortality := b.mortality

/-- The number of transactions of a range. -/
def total (b : ScenarioBuilder) (start : UInt32) : Nat :=
  b.accountsCount start * b.txsCount.toNat

/-- The account and the nonce of every transaction when all accounts start at the same nonce: one
round over the accounts for each nonce. -/
def rounds (b : ScenarioBuilder) (start : UInt32) (k : Nat) : List (AccountMetadata × Nat) :=
  (List.range (b.accountsCount start * b.txsCount.toNat)).map fun i =>
    (.derived (start.toNat + i % b.accountsCount start), k + i / b.accountsCount start)

/-- The account and the nonce of every transaction, account by account. -/
def tickets (b : ScenarioBuilder) (start : UInt32) (k : Nat → Nat) :
    List (AccountMetadata × Nat) :=
  (b.ids start).flatMap fun id => (List.range b.txsCount.toNat).map fun j => (.derived id, k id + j)

/-- The starting nonce is a `u128`, and a checked build can count on from it. -/
def NoncesFit (overflowChecks : Bool) (b : ScenarioBuilder) : Prop :=
  ∀ k ∈ b.nonceFrom,
    k < 2 ^ 128 ∧ (overflowChecks = true → k + b.txsCount.toNat < 2 ^ 128)

variable {b : ScenarioBuilder} {start : UInt32} {overflowChecks : Bool} {parallelism : Nat}

theorem ids_eq (hle : start ≤ b.lastId.getD start) :
    b.ids start = Chunk.span start.toNat (start.toNat + b.accountsCount start) := by
  have hle' : start.toNat ≤ (b.lastId.getD start).toNat := UInt32.le_iff_toNat_le.mp hle
  rw [ids, accountsCount]
  congr 1
  omega

theorem table_tickets (hle : start ≤ b.lastId.getD start) (k : Nat → Nat) :
    (RoundRobin.table k start.toNat (b.accountsCount start) b.txsCount.toNat).map
      (fun p => (AccountMetadata.derived p.1, p.2)) = b.tickets start k := by
  rw [RoundRobin.table, tickets, ids_eq hle, List.map_flatMap]
  simp only [List.map_map]
  rfl

theorem tickets_nodup (hle : start ≤ b.lastId.getD start) (k : Nat → Nat) :
    (b.tickets start k).Nodup := by
  rw [← table_tickets hle]
  apply (RoundRobin.table_nodup k _ _ _).map
  intro p q h
  simp only [Prod.mk.injEq, AccountMetadata.derived.injEq] at h
  exact Prod.ext h.1 h.2

theorem buildParams_range (hstart : b.startId = some start) (hle : start ≤ b.lastId.getD start)
    (hnonce : b.NoncesFit overflowChecks) :
    b.buildParams overflowChecks =
      some ((List.range (b.total start)).map (b.rangeParam start)) := by
  have hone : ∀ id ∈ b.ids start, b.accountParams overflowChecks id.repr =
      some ((List.range b.txsCount.toNat).map fun j =>
        ⟨id.repr, b.nonceFrom.map fun k => (k + j) % 2 ^ 128, b.mortality⟩) :=
    fun _ _ => pushParams_eq hnonce
  have htable := RoundRobin.flatMap_range_map
    (fun i j => (⟨(start.toNat + i).repr, b.nonceFrom.map fun k => (k + j) % 2 ^ 128,
      b.mortality⟩ : TransactionBuildParams))
    (b.accountsCount start) b.txsCount.toNat
  simp only [buildParams, hstart, List.mapM_of_forall_eq hone, Option.map_some]
  rw [ids_eq hle, RoundRobin.span_eq_map, ← List.flatMap_def, List.flatMap_map]
  exact congrArg some htable

theorem buildChunk_eq {n t i : Nat} (hi : i < t) (hfit : n * t < 2 ^ 64) :
    buildChunk overflowChecks n t i = some (Chunk.chunk n t i) := by
  obtain ⟨hlow, hhigh⟩ := Chunk.bounds_le (n := n) hi
  rw [Nat.mul_comm n t] at hfit
  rw [buildChunk, Unsigned.fit_of_lt (by omega), Option.bind_some, Unsigned.fit_of_lt (by omega)]
  rfl

/-- The upper bound of the last chunk is the largest product. -/
theorem buildPlan_overflow {ps : List TransactionBuildParams} (h : b.buildParams true = some ps)
    (hbig : 2 ^ 64 ≤ ps.length * min ps.length parallelism) :
    b.buildPlan true parallelism = none := by
  by_contra hsome
  obtain ⟨plan, hplan⟩ := Option.ne_none_iff_exists'.mp hsome
  rw [buildPlan, h, Option.bind_some] at hplan
  obtain ⟨chunks, hchunks, _⟩ := Option.map_eq_some_iff.mp hplan
  have hpos : 0 < min ps.length parallelism := by
    by_contra hz
    simp [Nat.eq_zero_of_not_pos hz] at hbig
  have hlast : min ps.length parallelism - 1 + 1 = min ps.length parallelism := by omega
  obtain ⟨chunk, _, hchunk⟩ := List.exists_mem_of_mapM hchunks
    (List.mem_range.mpr (Nat.sub_lt hpos Nat.one_pos))
  obtain ⟨low, _, hhigh⟩ := Option.bind_eq_some_iff.mp hchunk
  rw [hlast, Nat.mul_comm, Unsigned.fit_checked hbig] at hhigh
  cases hhigh

/-- The tasks deal out the parameters of a range. -/
structure OfRange (b : ScenarioBuilder) (start : UInt32) (plan : BuildPlan) : Prop where
  le : start ≤ b.lastId.getD start
  params_eq : plan.params = (List.range (b.total start)).map (b.rangeParam start)
  exact : BuildTasks.Exact plan

/-- The tasks that are spawned deal out the parameters, if the products of the bounds fit. -/
theorem buildPlan_range (hstart : b.startId = some start) (hle : start ≤ b.lastId.getD start)
    (hnonce : b.NoncesFit overflowChecks) (hp : 1 ≤ parallelism)
    (hfit : b.total start * min (b.total start) parallelism < 2 ^ 64) :
    ∃ plan, b.buildPlan overflowChecks parallelism = some plan ∧ OfRange b start plan := by
  have hchunks : ∀ i ∈ List.range (min (b.total start) parallelism),
      buildChunk overflowChecks (b.total start) (min (b.total start) parallelism) i =
        some (Chunk.chunk (b.total start) (min (b.total start) parallelism) i) :=
    fun i hi => buildChunk_eq (List.mem_range.mp hi) hfit
  refine ⟨⟨(List.range (b.total start)).map (b.rangeParam start),
    (List.range (min (b.total start) parallelism)).map
      (Chunk.chunk (b.total start) (min (b.total start) parallelism))⟩, ?_, hle, rfl, ?_⟩
  · simp only [buildPlan, buildParams_range hstart hle hnonce, Option.bind_some, List.length_map,
      List.length_range, List.mapM_of_forall_eq hchunks, Option.map_some]
  · rw [BuildTasks.Exact, List.length_map, List.length_range, ← List.flatMap_def]
    exact Chunk.flatMap_chunk_min hp

namespace OfRange

open BuildTasks

variable {build : BuildTransaction S H} {next : S → String → Nat} {plan : BuildPlan}
  {s : BuildTasks.State S H} {sink : S} {is : List Nat} {e : Nat × DefaultTxTask H}

/-- The account of parameter `i`. -/
def account (b : ScenarioBuilder) (start : UInt32) (i : Nat) : Nat :=
  start.toNat + i / b.txsCount.toNat

theorem account_lt (hle : start ≤ b.lastId.getD start) {i : Nat} (hi : i < b.total start) :
    i / b.txsCount.toNat < b.accountsCount start ∧ account b start i < 2 ^ 32 := by
  have hdiv : i / b.txsCount.toNat < b.accountsCount start := by
    apply Nat.div_lt_of_lt_mul
    rwa [Nat.mul_comm]
  have hle' : start.toNat ≤ (b.lastId.getD start).toNat := UInt32.le_iff_toNat_le.mp hle
  have hlast : (b.lastId.getD start).toNat < 2 ^ 32 := UInt32.toNat_lt _
  refine ⟨hdiv, ?_⟩
  unfold accountsCount at hdiv
  unfold account
  omega

theorem getElem?_params (hplan : OfRange b start plan) {i : Nat} {p : TransactionBuildParams} :
    plan.params[i]? = some p ↔ i < b.total start ∧ p = b.rangeParam start i := by
  rw [hplan.params_eq]
  by_cases hi : i < b.total start
  · simp [hi, eq_comm]
  · simp [hi]

/-- Every task is labelled with the account of its parameter. -/
theorem metadata_eq (hplan : OfRange b start plan) (hbuild : build.Labels)
    (hinv : Inv build plan s) (he : e ∈ s.all plan) :
    e.2.tx.accountMetadata = .derived (account b start e.1) := by
  obtain ⟨j, _, he⟩ := List.mem_flatMap.mp he
  obtain ⟨p, hp, s₀, s₁, hr⟩ := hinv.made j e he
  obtain ⟨hlt, rfl⟩ := (getElem?_params hplan).mp hp
  exact hbuild _ _ _ _ hr _ (account_lt hplan.le hlt).2 rfl

theorem owns_eq (hplan : OfRange b start plan) (id : Nat) {i : Nat} (hi : i < b.total start) :
    owns plan id.repr i = decide (account b start i = id) := by
  rw [owns, (getElem?_params hplan).mpr ⟨hi, rfl⟩]
  simp only [Option.any_some, decide_eq_decide]
  exact Decimal.repr_injective.eq_iff

theorem quota_eq (hplan : OfRange b start plan) {id : Nat}
    (hid : id ∈ Chunk.span start.toNat (start.toNat + b.accountsCount start)) :
    quota plan id.repr = b.txsCount.toNat := by
  obtain ⟨hlow, hhigh⟩ := Chunk.mem_span.mp hid
  have hrow : id - start.toNat < b.accountsCount start := by omega
  have hcount : (List.range (b.total start)).countP (· / b.txsCount.toNat = id - start.toNat) =
      b.txsCount.toNat := RoundRobin.countP_row.trans (if_pos hrow)
  rw [quota, hplan.params_eq, List.length_map, List.length_range, ← hcount]
  apply List.countP_congr
  intro i hi
  rw [owns_eq hplan id (List.mem_range.mp hi)]
  rw [decide_eq_true_eq, decide_eq_true_eq]
  unfold account
  omega

/-- The pair that the transaction of parameter `i` is about: its account and its nonce. -/
def pair (b : ScenarioBuilder) (start : UInt32) (e : Nat × DefaultTxTask H) : Nat × Nat :=
  (account b start e.1, e.2.tx.nonce)

theorem mem_all_lt (hplan : OfRange b start plan) (hinv : Inv build plan s) (he : e ∈ s.all plan) :
    e.1 < b.total start := by
  have hmem := (hinv.all_sublist hplan.exact).subset (List.mem_map.mpr ⟨e, he, rfl⟩)
  rw [hplan.params_eq, List.length_map, List.length_range] at hmem
  exact List.mem_range.mp hmem

theorem all_joined (hplan : OfRange b start plan) (hinv : Inv build plan s) (hj : s.Joined plan) :
    (s.all plan).map (·.1) = List.range (b.total start) := by
  rw [hinv.all_joined hplan.exact hj, hplan.params_eq, List.length_map, List.length_range]

/-- With the nonces of the parameters. -/
theorem pairs_kept (hplan : OfRange b start plan) (hbuild : build.KeepsNonce) {k : Nat}
    (hk : b.nonceFrom = some k) (hfit : k + b.txsCount.toNat < 2 ^ 128)
    (hinv : Inv build plan s) (hj : s.Joined plan) :
    (s.all plan).map (pair b start) =
      RoundRobin.table (fun _ => k) start.toNat (b.accountsCount start) b.txsCount.toNat := by
  have hnonce : ∀ e ∈ s.all plan, e.2.tx.nonce = k + e.1 % b.txsCount.toNat := by
    intro e he
    obtain ⟨j, _, he⟩ := List.mem_flatMap.mp he
    obtain ⟨p, hp, s₀, s₁, hr⟩ := hinv.made j e he
    obtain ⟨hlt, rfl⟩ := (getElem?_params hplan).mp hp
    have hmod : (k + e.1 % b.txsCount.toNat) % 2 ^ 128 = k + e.1 % b.txsCount.toNat := by
      have hpos : 0 < b.txsCount.toNat := Nat.pos_of_mul_pos_left (Nat.zero_lt_of_lt hlt)
      have hrem := Nat.mod_lt e.1 hpos
      exact Nat.mod_eq_of_lt (by omega)
    obtain ⟨s', task, hr', hnonce⟩ := hbuild.keeps s₀ (b.rangeParam start e.1)
      (k + e.1 % b.txsCount.toNat) (by simp only [rangeParam, hk, Option.map_some, hmod])
    rw [hr, Option.some.injEq, Prod.mk.injEq] at hr'
    rw [hr'.2, hnonce]
  calc (s.all plan).map (pair b start)
      = ((s.all plan).map (·.1)).map fun i => (account b start i, k + i % b.txsCount.toNat) := by
        rw [List.map_map]
        apply List.map_congr_left
        intro e he
        simp [pair, hnonce e he]
    _ = RoundRobin.table (fun _ => k) start.toNat (b.accountsCount start) b.txsCount.toNat := by
        rw [all_joined hplan hinv hj, RoundRobin.table, RoundRobin.span_eq_map,
          List.flatMap_map]
        exact (RoundRobin.flatMap_range_map (fun i j => (start.toNat + i, k + j)) _ _).symm

/-- With the nonces that the sink hands out. -/
theorem pairs_handed (hplan : OfRange b start plan) {k : Nat → Nat}
    (hk : ∀ id ∈ Chunk.span start.toNat (start.toNat + b.accountsCount start),
      next sink id.repr = k id)
    (hhanded : Handed next sink plan s) (hinv : Inv build plan s) (hj : s.Joined plan) :
    ((s.all plan).map (pair b start)).Perm
      (RoundRobin.table k start.toNat (b.accountsCount start) b.txsCount.toNat) := by
  apply RoundRobin.perm_table
  · intro p hp
    obtain ⟨e, he, rfl⟩ := List.mem_map.mp hp
    have hlt := (account_lt hplan.le (mem_all_lt hplan hinv he)).1
    rw [Chunk.mem_span]
    exact ⟨Nat.le_add_right _ _, Nat.add_lt_add_left hlt _⟩
  · intro id hid
    have hfilter : (((s.all plan).map (pair b start)).filter (·.1 = id)).map (·.2) =
        s.nonces plan id.repr := by
      rw [State.nonces, List.filter_map, List.map_map]
      congr 1
      apply List.filter_congr
      intro e he
      rw [owns_eq hplan id (mem_all_lt hplan hinv he)]
      rfl
    have hlen : (s.nonces plan id.repr).length = b.txsCount.toNat := by
      rw [nonces_length, hinv.all_joined hplan.exact hj]
      exact quota_eq hplan hid
    have hnonces := hhanded.nonces id.repr
    rw [hlen, hk id hid] at hnonces
    rw [hfilter]
    exact hnonces

theorem transactions_labels (hplan : OfRange b start plan) (hbuild : build.Labels)
    (hinv : Inv build plan s) :
    (s.transactions plan).map DefaultTxTask.label =
      (((s.all plan).mergeSort fun d e => d.2.tx.nonce ≤ e.2.tx.nonce).map (pair b start)).map
        fun p => (.derived p.1, p.2) := by
  have hsort : ((s.all plan).mergeSort fun d e => d.2.tx.nonce ≤ e.2.tx.nonce).map (·.2) =
      s.transactions plan := by
    rw [transactions_eq]
    exact List.map_mergeSort fun _ _ _ _ => rfl
  rw [← hsort, List.map_map, List.map_map]
  apply List.map_congr_left
  intro e he
  have hlabel := hplan.metadata_eq hbuild hinv (List.mem_mergeSort.mp he)
  simp [DefaultTxTask.label, pair, hlabel]

theorem transactions_perm (hplan : OfRange b start plan) (hbuild : build.Labels)
    (hinv : Inv build plan s) {k : Nat → Nat}
    (hpairs : ((s.all plan).map (pair b start)).Perm
      (RoundRobin.table k start.toNat (b.accountsCount start) b.txsCount.toNat)) :
    ((s.transactions plan).map DefaultTxTask.label).Perm (b.tickets start k) := by
  rw [hplan.transactions_labels hbuild hinv, ← table_tickets hplan.le]
  exact (((List.mergeSort_perm _ _).map _).trans hpairs).map _

/-- The same nonces for every account. -/
theorem transactions_rounds (hplan : OfRange b start plan) (hbuild : build.Labels)
    (hinv : Inv build plan s) (hj : s.Joined plan) {k : Nat}
    (hpairs : ((s.all plan).map (pair b start)).Perm
      (RoundRobin.table (fun _ => k) start.toNat (b.accountsCount start) b.txsCount.toNat)) :
    (s.transactions plan).map DefaultTxTask.label =
      b.rounds start k := by
  have hgroups : ((s.all plan).map fun e => account b start e.1).Pairwise (· ≤ ·) := by
    have hsorted : ((List.range (b.total start)).map (account b start)).Pairwise (· ≤ ·) :=
      List.pairwise_le_range.map _ fun _ _ h =>
        Nat.add_le_add_left (Nat.div_le_div_right h) start.toNat
    rwa [← all_joined hplan hinv hj, List.map_map] at hsorted
  have hrounds := RoundRobin.mergeSort_rounds hgroups hpairs
  rw [hplan.transactions_labels hbuild hinv, rounds, Nat.mul_comm]
  exact (congrArg _ hrounds).trans (List.map_map ..)

theorem nonce_isSome (hplan : OfRange b start plan) {k : Nat} (hk : b.nonceFrom = some k) :
    ∀ p ∈ plan.params, p.nonce.isSome := by
  rw [hplan.params_eq]
  intro p hp
  obtain ⟨i, _, rfl⟩ := List.mem_map.mp hp
  simp [rangeParam, hk]

theorem quota_le (hplan : OfRange b start plan) {k : Nat → Nat}
    (hk : ∀ id ∈ b.ids start, next sink id.repr = k id ∧ k id + b.txsCount.toNat ≤ 2 ^ 128) :
    ∀ p ∈ plan.params, next sink p.account + quota plan p.account ≤ 2 ^ 128 := by
  intro p hp
  rw [hplan.params_eq] at hp
  obtain ⟨i, hi, rfl⟩ := List.mem_map.mp hp
  have hlt := (account_lt hplan.le (List.mem_range.mp hi)).1
  have hid : account b start i ∈
      Chunk.span start.toNat (start.toNat + b.accountsCount start) :=
    Chunk.mem_span.mpr ⟨Nat.le_add_right _ _, Nat.add_lt_add_left hlt _⟩
  obtain ⟨hnext, hle⟩ := hk (account b start i) (by rwa [ids_eq hplan.le])
  have haccount : (b.rangeParam start i).account = (account b start i).repr := rfl
  rw [haccount, hplan.quota_eq hid, hnext]
  exact hle

end OfRange

section

open BuildTasks

/-- No parameter is dropped or built twice, and the transactions come in rounds over the accounts,
or sorted by nonce where the accounts start at different ones. -/
theorem transactions_in_rounds (overflowChecks : Bool) (parallelism : Nat)
    (hstart : b.startId = some start) (hle : start ≤ b.lastId.getD start)
    (hnonce : b.NoncesFit overflowChecks) (hp : 1 ≤ parallelism)
    (hfit : b.total start * min (b.total start) parallelism < 2 ^ 64)
    (build : BuildTransaction S H) (sink : S) :
    ∃ plan, b.buildPlan overflowChecks parallelism = some plan ∧
      plan.params = (List.range (b.total start)).map (b.rangeParam start) ∧
      (∀ is s, (machine build plan).run (new sink) is = some s → s.Joined plan →
        s.BuiltOnce build plan ∧ is.length = b.total start) ∧
      (build.KeepsNonce → ∀ k ∈ b.nonceFrom, k + b.txsCount.toNat < 2 ^ 128 →
        ∀ is s, (machine build plan).run (new sink) is = some s →
          s.Progress build plan ∧ (s.Joined plan →
            (s.transactions plan).map DefaultTxTask.label = b.rounds start k)) ∧
      (∀ next k, build.HandsOut next →
        (∀ id ∈ b.ids start, next sink id.repr = k id ∧ k id + b.txsCount.toNat ≤ 2 ^ 128) →
        ∀ is s, (machine build plan).run (new sink) is = some s →
          s.Progress build plan ∧ (s.Joined plan →
            (s.transactions plan).Pairwise (fun x y => x.tx.nonce ≤ y.tx.nonce) ∧
            ((s.transactions plan).map DefaultTxTask.label).Nodup ∧
            ((s.transactions plan).map DefaultTxTask.label).Perm (b.tickets start k) ∧
            ∀ k₀, (∀ id, k id = k₀) →
              (s.transactions plan).map DefaultTxTask.label = b.rounds start k₀)) ∧
      (FakeTransactionBuilder.buildTransaction overflowChecks false).HandsOut
        FakeTransactionBuilder.nextNonce ∧ ∀ a, FakeTransactionBuilder.nextNonce ∅ a = 0 := by
  obtain ⟨plan, hplan, hrange⟩ := buildPlan_range hstart hle hnonce hp hfit
  refine ⟨plan, hplan, hrange.params_eq, ?_, ?_, ?_, FakeTransactionBuilder.handsOut _, ?_⟩
  · intro is s hrun hj
    have hall := congrArg List.length (hrange.all_joined (run_inv hrun) hj)
    rw [List.length_map, run_length hrun, List.length_range] at hall
    exact ⟨(run_inv hrun).builtOnce hrange.exact hj, hall⟩
  · intro hbuild k hk hlt is s hrun
    have hinv := run_inv hrun
    refine ⟨hinv.progress hrange.exact hbuild (hrange.nonce_isSome hk), fun hj => ?_⟩
    have hpairs := hrange.pairs_kept hbuild hk hlt hinv hj
    exact hrange.transactions_rounds hbuild.labels hinv hj (hpairs ▸ List.Perm.refl _)
  · intro next k hbuild hk is s hrun
    have hquota := hrange.quota_le hk
    obtain ⟨hinv, hhanded⟩ := run_handed hrange.exact hquota hbuild hrun
    refine ⟨hhanded.progress hinv hrange.exact hquota hbuild, fun hj => ?_⟩
    have hstarts : ∀ id ∈ Chunk.span start.toNat (start.toNat + b.accountsCount start),
        next sink id.repr = k id := by
      intro id hid
      exact (hk id (by rwa [ids_eq hle])).1
    have hpairs := hrange.pairs_handed hstarts hhanded hinv hj
    have hperm := hrange.transactions_perm hbuild.labels hinv hpairs
    refine ⟨?_, ?_, hperm, fun k₀ hsame => ?_⟩
    · rw [transactions_eq]
      exact (List.pairwise_mergeSort (RoundRobin.le_trans_key _) (RoundRobin.le_total_key _)
        _).imp of_decide_eq_true
    · exact hperm.nodup_iff.mpr (tickets_nodup hle k)
    · obtain rfl : k = fun _ => k₀ := funext hsame
      exact hrange.transactions_rounds hbuild.labels hinv hj hpairs
  · intro a
    rfl

/-- Two accounts, two transactions each. -/
def twoByTwo : ScenarioBuilder := ⟨none, some 0, some 1, none, 2, none⟩

theorem transactions_in_rounds_twoByTwo :
    ∃ plan, twoByTwo.buildPlan true 3 = some plan ∧ ∀ is s,
      (machine (FakeTransactionBuilder.buildTransaction true false) plan).run (new ∅) is = some s →
      s.Joined plan →
        (s.transactions plan).map DefaultTxTask.label =
          [(.derived 0, 0), (.derived 1, 0), (.derived 0, 1), (.derived 1, 1)] := by
  obtain ⟨plan, hplan, _, _, _, hhanded, hfake, hzero⟩ :=
    transactions_in_rounds (b := twoByTwo) true 3 rfl (by decide)
      (by intro k hk; cases hk) (by decide) (by decide)
      (FakeTransactionBuilder.buildTransaction true false) ∅
  refine ⟨plan, hplan, fun is s hrun hj => ?_⟩
  have hstarts : ∀ id ∈ twoByTwo.ids 0,
      FakeTransactionBuilder.nextNonce ∅ id.repr = 0 ∧ 0 + twoByTwo.txsCount.toNat ≤ 2 ^ 128 :=
    fun id _ => ⟨hzero _, by decide⟩
  have hrounds := ((hhanded _ (fun _ => 0) hfake hstarts is s hrun).2 hj).2.2.2 0 fun _ => rfl
  exact hrounds

/-- One transaction for every account there is. -/
def everyAccount : ScenarioBuilder := ⟨none, some 0, some 4294967295, none, 1, none⟩

/-- With a thread for each of them, the upper bound of the last chunk does not fit. -/
theorem everyAccount_overflows : everyAccount.buildPlan true (2 ^ 32) = none := by
  have htotal : everyAccount.total 0 = 2 ^ 32 := by decide
  apply buildPlan_overflow (buildParams_range rfl (by decide) (by intro k hk; cases hk))
  rw [List.length_map, List.length_range, htotal]
  decide

end

end ScenarioBuilder

end TxTestTool
