import TxTestTool.Scenario.Builder

/-!
# The accounts that a sink derives, and their lookups
-/

namespace TxTestTool

inductive AccountGenerateRequest
  | keyring (name : String)
  | derived (seed : String) (id : Nat)
deriving DecidableEq, Repr

def senderSeed : String := "//Sender"

def receiverSeed : String := "//Receiver"

/-- A map of `derive_accounts`. `KP` is the type of key pairs. -/
abbrev DerivedAccounts (KP : Type*) := AList fun _ : String => KP × AccountMetadata

variable {KP : Type*}

/-- One of the ranges that the threads of `derive_accounts` work on. -/
def accountChunk (overflowChecks : Bool) (fromId n t threadIdx : Nat) : Option (List Nat) :=
  (Unsigned.fit 64 overflowChecks (threadIdx * n)).bind fun a =>
    (Unsigned.fit 64 overflowChecks (fromId + a / t)).bind fun start =>
      (Unsigned.fit 64 overflowChecks ((threadIdx + 1) * n)).bind fun b =>
        (Unsigned.fit 64 overflowChecks (fromId + b / t)).map fun stop => Chunk.span start stop

def deriveAccount (generate : AccountGenerateRequest → Option KP) (seed : String) (i : Nat) :
    Option (String × KP × AccountMetadata) :=
  (generate (.derived seed (i % 2 ^ 32))).map fun pair =>
    (i.repr, pair, .derived (i % 2 ^ 32))

def collectAccounts (entries : List (String × KP × AccountMetadata)) : DerivedAccounts KP :=
  entries.foldl (fun accounts entry => accounts.insert entry.1 entry.2) ∅

def deriveAccounts (overflowChecks : Bool) (parallelism : Nat)
    (generate : AccountGenerateRequest → Option KP) (seed : String) :
    AccountsDescription → Option (DerivedAccounts KP)
  | .derived fromId toId =>
      (usizeSub overflowChecks toId fromId).bind fun n =>
        let t := min n parallelism
        ((List.range t).mapM (accountChunk overflowChecks fromId n t)).bind fun chunks =>
          (chunks.flatten.mapM (deriveAccount generate seed)).map collectAccounts
  | .keyring account =>
      (generate (.keyring account)).map fun pair => AList.singleton account (pair, .keyRing account)

/-- The two maps of `SubxtTransactionsSink`. -/
structure SinkAccounts (KP : Type*) where
  fromAccounts : DerivedAccounts KP
  toAccounts : DerivedAccounts KP

namespace SinkAccounts

def newWithAccountsDescription (overflowChecks : Bool) (parallelism : Nat)
    (generate : AccountGenerateRequest → Option KP) (description : AccountsDescription) :
    Option (SinkAccounts KP) :=
  (deriveAccounts overflowChecks parallelism generate senderSeed description).bind fun senders =>
    (deriveAccounts overflowChecks parallelism generate receiverSeed description).map fun
      receivers => ⟨senders, receivers⟩

/-- The account id is computed from the pair. -/
def getFromKeyPair (s : SinkAccounts KP) (account : String) : Option KP :=
  (s.fromAccounts.lookup account).map (·.1)

def getToKeyPair (s : SinkAccounts KP) (account : String) : Option KP :=
  (s.toAccounts.lookup account).map (·.1)

def getToAccountMetadata (s : SinkAccounts KP) (account : String) : Option AccountMetadata :=
  (s.toAccounts.lookup account).map (·.2)

end SinkAccounts

/-- What `build_subxt_tx` makes a transaction of. -/
structure SigningRequest (KP : Type*) where
  toPair : KP
  fromPair : KP
  metadata : AccountMetadata
  params : TransactionBuildParams
deriving DecidableEq

namespace SinkAccounts

/-- The lookups of `build_subxt_tx`, each with an `expect`. -/
def buildSubxtTx (s : SinkAccounts KP) (params : TransactionBuildParams) :
    Option (SigningRequest KP) :=
  (s.getToKeyPair params.account).bind fun toPair =>
    (s.getFromKeyPair params.account).bind fun fromPair =>
      (s.getToAccountMetadata params.account).map fun metadata =>
        ⟨toPair, fromPair, metadata, params⟩

end SinkAccounts

section

variable {overflowChecks : Bool} {parallelism : Nat}
  {generate : AccountGenerateRequest → Option KP} {seed : String} {start stop : Nat}
  {entries : List (String × KP × AccountMetadata)} {account : String}

theorem mem_collectAccounts : account ∈ collectAccounts entries ↔ account ∈ entries.map (·.1) :=
  AList.mem_ofPairs

theorem accountChunk_eq {n t i : Nat} (hi : i < t) (ht : t ≤ n) (hn : n < 2 ^ 32)
    (hstart : start < 2 ^ 32) :
    accountChunk overflowChecks start n t i = some ((Chunk.chunk n t i).map (start + ·)) := by
  obtain ⟨hlow, hhigh⟩ := Chunk.bounds_le (n := n) hi
  have hproduct : t * n < 2 ^ 64 := by
    calc t * n ≤ n * n := Nat.mul_le_mul_right n ht
      _ < 2 ^ 32 * 2 ^ 32 := Nat.mul_lt_mul'' hn hn
      _ = 2 ^ 64 := rfl
  have hdiv : (i + 1) * n / t ≤ n := Nat.div_le_of_le_mul hhigh
  have hdiv' : i * n / t ≤ n := Nat.div_le_of_le_mul hlow
  rw [accountChunk, Unsigned.fit_of_lt (by omega), Option.bind_some,
    Unsigned.fit_of_lt (by omega), Option.bind_some, Unsigned.fit_of_lt (by omega),
    Option.bind_some, Unsigned.fit_of_lt (by omega), Option.map_some, Chunk.chunk,
    Chunk.map_add_span]

/-- The threads derive the accounts of the range, in its order. -/
theorem accountChunks_eq (overflowChecks : Bool) {n : Nat} (hp : 1 ≤ parallelism) (hn : n < 2 ^ 32)
    (hstart : start < 2 ^ 32) :
    ((List.range (min n parallelism)).mapM
        (accountChunk overflowChecks start n (min n parallelism))).map List.flatten =
      some (Chunk.span start (start + n)) := by
  have hchunks : ∀ i ∈ List.range (min n parallelism),
      accountChunk overflowChecks start n (min n parallelism) i =
        some ((Chunk.chunk n (min n parallelism) i).map (start + ·)) := by
    intro i hi
    exact accountChunk_eq (List.mem_range.mp hi) (Nat.min_le_left _ _) hn hstart
  rw [List.mapM_of_forall_eq hchunks, Option.map_some, ← List.flatMap_def, ← List.map_flatMap]
  have hrange : List.range n = Chunk.span 0 n := by
    rw [Chunk.span, Nat.sub_zero, List.range_eq_range']
  rw [Chunk.flatMap_chunk_min hp, hrange, Chunk.map_add_span, Nat.add_zero]

theorem deriveAccounts_range (overflowChecks : Bool) (seed : String)
    (hgen : ∀ seed i, (generate (.derived seed i)).isSome) (hp : 1 ≤ parallelism)
    (hle : start ≤ stop) (hstop : stop < 2 ^ 32) :
    ∃ accounts, deriveAccounts overflowChecks parallelism generate seed (.derived start stop) =
        some accounts ∧
      ∀ account, account ∈ accounts ↔ account ∈ (Chunk.span start stop).map Nat.repr := by
  have hflat := accountChunks_eq overflowChecks hp (show stop - start < 2 ^ 32 by omega)
    (show start < 2 ^ 32 by omega)
  obtain ⟨chunks, hchunks, hspan⟩ := Option.map_eq_some_iff.mp hflat
  rw [Nat.add_sub_cancel' hle] at hspan
  have hone : ∀ i ∈ chunks.flatten, (deriveAccount generate seed i).isSome := by
    intro i _
    rw [deriveAccount, Option.isSome_map]
    exact hgen seed _
  obtain ⟨entries, hentries⟩ := Option.isSome_iff_exists.mp (List.mapM_isSome hone)
  refine ⟨collectAccounts entries, ?_, fun account => ?_⟩
  · simp only [deriveAccounts, usizeSub, hle, ↓reduceIte, Option.bind_some, hchunks, hentries,
      Option.map_some]
  · have hkeys : entries.map (·.1) = chunks.flatten.map Nat.repr := by
      refine List.map_of_mapM (fun i e he => ?_) hentries
      obtain ⟨pair, _, rfl⟩ := Option.map_eq_some_iff.mp he
      rfl
    rw [mem_collectAccounts, hkeys, hspan]

/-- A generator that returns for each id: the map has the entries of the range and no others. -/
theorem deriveAccounts_pairs (overflowChecks : Bool) {pairOf : Nat → KP}
    (hgen : ∀ i, generate (.derived seed i) = some (pairOf i)) (hp : 1 ≤ parallelism)
    (hle : start ≤ stop) (hstop : stop < 2 ^ 32) :
    ∃ accounts, deriveAccounts overflowChecks parallelism generate seed (.derived start stop) =
        some accounts ∧
      accounts.pairs.Perm ((Chunk.span start stop).map fun i => (i.repr, pairOf i, .derived i)) := by
  have hflat := accountChunks_eq overflowChecks hp (show stop - start < 2 ^ 32 by omega)
    (show start < 2 ^ 32 by omega)
  obtain ⟨chunks, hchunks, hspan⟩ := Option.map_eq_some_iff.mp hflat
  rw [Nat.add_sub_cancel' hle] at hspan
  have hone : ∀ i ∈ Chunk.span start stop, deriveAccount generate seed i =
      some (i.repr, pairOf i, .derived i) := by
    intro i hi
    have hlt : i < 2 ^ 32 := Nat.lt_trans (Chunk.mem_span.mp hi).2 hstop
    rw [deriveAccount, Nat.mod_eq_of_lt hlt, hgen, Option.map_some]
  have hnodup : (((Chunk.span start stop).map fun i =>
      (i.repr, pairOf i, AccountMetadata.derived i)).map Prod.fst).Nodup := by
    rw [List.map_map]
    exact (Chunk.nodup_span start stop).map Decimal.repr_injective
  refine ⟨_, ?_, AList.pairs_ofPairs_perm hnodup⟩
  simp only [deriveAccounts, usizeSub, hle, ↓reduceIte, Option.bind_some, hchunks, hspan,
    List.mapM_of_forall_eq hone, Option.map_some]
  rfl

/-- Whatever the number of threads, the map has one entry for each id of the range, under its
decimal representation, and nothing else. -/
theorem derived_exactly (overflowChecks : Bool) (generate : AccountGenerateRequest → KP)
    (seed : String) (hp : 1 ≤ parallelism) (hle : start ≤ stop) (hstop : stop < 2 ^ 32) :
    ∃ accounts, deriveAccounts overflowChecks parallelism (fun r => some (generate r)) seed
        (.derived start stop) = some accounts ∧
      accounts.entries.length = stop - start ∧
      (∀ i, start ≤ i → i < stop →
        accounts.lookup i.repr = some (generate (.derived seed i), .derived i)) ∧
      ∀ account, account ∈ accounts → ∃ i, start ≤ i ∧ i < stop ∧ account = i.repr := by
  have hgen : ∀ i, some (generate (.derived seed i)) = some (generate (.derived seed i)) :=
    fun _ => rfl
  obtain ⟨accounts, haccounts, hperm⟩ :=
    @deriveAccounts_pairs _ _ (fun r => some (generate r)) seed start stop overflowChecks _ hgen hp
      hle hstop
  refine ⟨accounts, haccounts, ?_, fun i hlow hhigh => ?_, fun account hmem => ?_⟩
  · have hlength := hperm.length_eq
    rw [AList.pairs, List.length_map, List.length_map, Chunk.length_span] at hlength
    exact hlength
  · rw [← AList.mem_pairs, hperm.mem_iff, List.mem_map]
    exact ⟨i, Chunk.mem_span.mpr ⟨hlow, hhigh⟩, rfl⟩
  · obtain ⟨entry, hentry⟩ := Option.isSome_iff_exists.mp (AList.lookup_isSome.mpr hmem)
    rw [← AList.mem_pairs, hperm.mem_iff, List.mem_map] at hentry
    obtain ⟨i, hi, heq⟩ := hentry
    obtain ⟨hlow, hhigh⟩ := Chunk.mem_span.mp hi
    exact ⟨i, hlow, hhigh, (congrArg Prod.fst heq).symm⟩

/-- Eleven ids shared out among four threads. -/
theorem derived_exactly_eleven : ∃ accounts : DerivedAccounts AccountGenerateRequest,
    deriveAccounts true 4 (fun r => some r) senderSeed (.derived 0 11) = some accounts ∧
      accounts.entries.length = 11 := by
  obtain ⟨accounts, haccounts, hlength, _⟩ :=
    @derived_exactly AccountGenerateRequest 4 0 11 true id senderSeed (by decide) (by decide)
      (by decide)
  exact ⟨accounts, haccounts, hlength⟩

/-- A range that ends before it starts is an underflow. -/
theorem deriveAccounts_checked {accounts : DerivedAccounts KP}
    (h : deriveAccounts true parallelism generate seed (.derived start stop) = some accounts) :
    start ≤ stop := by
  obtain ⟨n, hn, _⟩ := Option.bind_eq_some_iff.mp h
  by_contra hlt
  simp [usizeSub, hlt] at hn

theorem accountChunk_wrapped {n : Nat} (hstart : start < 2 ^ 64) (hn : n < 2 ^ 64)
    (hlt : (start + n) % 2 ^ 64 < start) : accountChunk false start n 1 0 = some [] := by
  simp only [accountChunk, Unsigned.fit_unchecked, Option.bind_some, Option.map_some,
    Nat.zero_mul, Nat.zero_add, Nat.one_mul, Nat.zero_mod, Nat.div_one, Nat.add_zero,
    Nat.mod_eq_of_lt hstart, Nat.mod_eq_of_lt hn]
  rw [Chunk.span, Nat.sub_eq_zero_of_le (Nat.le_of_lt hlt)]
  rfl

/-- Without checks the length of such a range wraps, and so does the end of the only chunk. -/
theorem deriveAccounts_wrapped (hlt : stop < start) (hstart : start < 2 ^ 64) :
    deriveAccounts false 1 generate seed (.derived start stop) = some ∅ := by
  obtain ⟨n, hsub, hpos, hn, hwrap⟩ : ∃ n, usizeSub false stop start = some n ∧ 1 ≤ n ∧
      n < 2 ^ 64 ∧ (start + n) % 2 ^ 64 = stop := by
    refine ⟨stop + 2 ^ 64 - start, ?_, by omega, by omega, by omega⟩
    simp [usizeSub, Nat.not_le.mpr hlt]
  have hchunks : (List.range 1).mapM (accountChunk false start n 1) = some [[]] := by
    rw [List.range_one, List.mapM_cons, accountChunk_wrapped hstart hn (hwrap ▸ hlt)]
    rfl
  simp only [deriveAccounts, hsub, Nat.min_eq_right hpos, Option.bind_some, hchunks]
  rfl

/-- In a range that does not end before it starts no sum overflows. -/
theorem deriveAccounts_profile (hle : start ≤ stop) (hstop : stop < 2 ^ 32) :
    deriveAccounts true parallelism generate seed (.derived start stop) =
      deriveAccounts false parallelism generate seed (.derived start stop) := by
  have hchunks : ∀ overflowChecks,
      (List.range (min (stop - start) parallelism)).mapM
          (accountChunk overflowChecks start (stop - start) (min (stop - start) parallelism)) =
        some ((List.range (min (stop - start) parallelism)).map fun i =>
          (Chunk.chunk (stop - start) (min (stop - start) parallelism) i).map (start + ·)) := by
    intro overflowChecks
    apply List.mapM_of_forall_eq
    intro i hi
    exact accountChunk_eq (List.mem_range.mp hi) (Nat.min_le_left _ _) (by omega) (by omega)
  simp only [deriveAccounts, usizeSub, hle, ↓reduceIte, Option.bind_some, hchunks]

end

namespace SinkAccounts

variable {generate : AccountGenerateRequest → Option KP} {parallelism start stop : Nat}
  {s : SinkAccounts KP} {params : TransactionBuildParams}

/-- Both maps have exactly the accounts of a range that does not end before it starts. -/
theorem newWithAccountsDescription_range (overflowChecks : Bool)
    (hgen : ∀ seed i, (generate (.derived seed i)).isSome) (hp : 1 ≤ parallelism)
    (hle : start ≤ stop) (hstop : stop < 2 ^ 32) :
    ∃ s, newWithAccountsDescription overflowChecks parallelism generate (.derived start stop) =
        some s ∧
      ∀ account, (account ∈ s.fromAccounts ↔ account ∈ (Chunk.span start stop).map Nat.repr) ∧
        (account ∈ s.toAccounts ↔ account ∈ (Chunk.span start stop).map Nat.repr) := by
  obtain ⟨senders, hsenders, hfrom⟩ :=
    deriveAccounts_range overflowChecks senderSeed hgen hp hle hstop
  obtain ⟨receivers, hreceivers, hto⟩ :=
    deriveAccounts_range overflowChecks receiverSeed hgen hp hle hstop
  refine ⟨⟨senders, receivers⟩, ?_, fun account => ⟨hfrom account, hto account⟩⟩
  simp [newWithAccountsDescription, hsenders, hreceivers]

/-- The two profiles derive the same accounts from every range that does not end before it starts,
and from no other. -/
theorem newWithAccountsDescription_profile_iff (hstart : start < 2 ^ 32) (hstop : stop < 2 ^ 32) :
    (∀ (KP : Type) (generate : AccountGenerateRequest → Option KP) parallelism, 1 ≤ parallelism →
      newWithAccountsDescription true parallelism generate (.derived start stop) =
        newWithAccountsDescription false parallelism generate (.derived start stop)) ↔
    start ≤ stop := by
  constructor
  · intro h
    by_contra hlt
    rw [Nat.not_le] at hlt
    have hwrapped : ∀ seed, @deriveAccounts Unit false 1 (fun _ => none) seed
        (.derived start stop) = some ∅ :=
      fun _ => deriveAccounts_wrapped hlt (by omega)
    have hsame := h Unit (fun _ => none) 1 (Nat.le_refl 1)
    rw [newWithAccountsDescription, newWithAccountsDescription, hwrapped, hwrapped] at hsame
    obtain ⟨accounts, haccounts, _⟩ := Option.bind_eq_some_iff.mp hsame
    exact absurd (deriveAccounts_checked haccounts) (Nat.not_le.mpr hlt)
  · intro hle KP generate parallelism _
    simp only [newWithAccountsDescription, deriveAccounts_profile hle hstop]

theorem buildSubxtTx_isSome : (s.buildSubxtTx params).isSome ↔
    params.account ∈ s.fromAccounts ∧ params.account ∈ s.toAccounts := by
  rw [← AList.lookup_isSome, ← AList.lookup_isSome]
  cases hfrom : s.fromAccounts.lookup params.account <;>
    cases hto : s.toAccounts.lookup params.account <;>
    simp [buildSubxtTx, getToKeyPair, getFromKeyPair, getToAccountMetadata, hfrom, hto]

end SinkAccounts

end TxTestTool
