import TxTestTool.Scenario.Accounts

/-!
# Which ranges and account strings find their accounts

`build` describes the accounts to the sink, and `build_transactions` looks them up by the strings
of its parameters.
-/

namespace TxTestTool.ScenarioBuilder

variable {KP : Type*}

/-- What is signed in a scenario. -/
def transactions (overflowChecks : Bool) (parallelism : Nat)
    (generate : AccountGenerateRequest → Option KP) (b : ScenarioBuilder) :
    Option (List (SigningRequest KP)) :=
  (b.accountsDescription overflowChecks).bind fun description =>
    (SinkAccounts.newWithAccountsDescription overflowChecks parallelism generate description).bind
      fun sink => (b.buildParams overflowChecks).bind fun params => params.mapM sink.buildSubxtTx

/-- The account of `check-nonce`. -/
def checkNonceAccount (overflowChecks : Bool) (parallelism : Nat)
    (generate : AccountGenerateRequest → Option KP) (account : String) :
    Option (Except String KP) :=
  (describe overflowChecks account).bind fun description =>
    (SinkAccounts.newWithAccountsDescription overflowChecks parallelism generate description).map
      fun sink => (sink.getFromKeyPair account).elim (.error "account shall be correct") .ok

def withAccountId (b : ScenarioBuilder) (account : String) : ScenarioBuilder :=
  { b with accountId := some account }

/-- `with_start_id` without `with_last_id`. -/
def withStartId (b : ScenarioBuilder) (start : UInt32) : ScenarioBuilder :=
  { b with startId := some start, lastId := none }

/-- A range of ids is described without an overflow, and its accounts are derived and found. -/
def RangeServed (generate : AccountGenerateRequest → Option KP) (b : ScenarioBuilder)
    (start : UInt32) (overflowChecks : Bool) (parallelism : Nat) : Prop :=
  ∃ first stop sink, b.accountsDescription overflowChecks = some (.derived first stop) ∧
    (∀ i, i ∈ Chunk.span first stop ↔ i ∈ b.ids start) ∧
    SinkAccounts.newWithAccountsDescription overflowChecks parallelism generate
      (.derived first stop) = some sink ∧
    (∀ account, (account ∈ sink.fromAccounts ↔ account ∈ (b.ids start).map Nat.repr) ∧
      (account ∈ sink.toAccounts ↔ account ∈ (b.ids start).map Nat.repr)) ∧
    ∀ params, b.buildParams overflowChecks = some params →
      (∀ p ∈ params, (sink.buildSubxtTx p).isSome) ∧
      (b.txsCount ≠ 0 → ∀ account ∈ sink.fromAccounts, ∃ p ∈ params, p.account = account)

variable {generate : AccountGenerateRequest → Option KP} {overflowChecks : Bool}
  {parallelism : Nat} {b : ScenarioBuilder} {start : UInt32} {s : String} {n : Nat}

theorem accountsDescription_range (hstart : b.startId = some start) :
    b.accountsDescription overflowChecks =
      (Unsigned.fit 32 overflowChecks ((b.lastId.getD start).toNat + 1)).map
        (.derived start.toNat) := by
  simp [accountsDescription, hstart]

theorem rangeServed_of_le (hgen : ∀ seed i, (generate (.derived seed i)).isSome)
    (hstart : b.startId = some start) (hlast : (b.lastId.getD start).toNat + 1 < 2 ^ 32)
    (hle : start.toNat ≤ (b.lastId.getD start).toNat + 1) (hp : 1 ≤ parallelism) :
    RangeServed generate b start overflowChecks parallelism := by
  obtain ⟨sink, hsink, hkeys⟩ :=
    SinkAccounts.newWithAccountsDescription_range overflowChecks hgen hp hle hlast
  refine ⟨_, _, sink, ?_, fun i => Iff.rfl, hsink, hkeys, fun params hparams => ?_⟩
  · rw [accountsDescription_range hstart, Unsigned.fit_of_lt hlast]
    rfl
  · obtain ⟨hmem, hall⟩ := buildParams_accounts hstart hparams
    refine ⟨fun p hp => ?_, fun hcount account haccount => ?_⟩
    · exact SinkAccounts.buildSubxtTx_isSome.mpr
        ⟨(hkeys _).1.mpr (hmem p hp), (hkeys _).2.mpr (hmem p hp)⟩
    · obtain ⟨i, hi, rfl⟩ := List.mem_map.mp ((hkeys account).1.mp haccount)
      exact hall hcount i hi

/-- The range is served by every build on every machine exactly if its end fits and it does not
start more than one after it ends. -/
theorem range_served_iff (hgen : ∀ seed i, (generate (.derived seed i)).isSome)
    (hstart : b.startId = some start) :
    (∀ overflowChecks parallelism, 1 ≤ parallelism →
      RangeServed generate b start overflowChecks parallelism) ↔
    (b.lastId.getD start).toNat + 1 < 2 ^ 32 ∧
      start.toNat ≤ (b.lastId.getD start).toNat + 1 := by
  constructor
  · intro h
    obtain ⟨first, stop, sink, hdesc, _, hsink, _⟩ := h true 1 (Nat.le_refl 1)
    rw [accountsDescription_range hstart] at hdesc
    obtain ⟨m, hm, hdesc⟩ := Option.map_eq_some_iff.mp hdesc
    obtain ⟨hsame, hlt⟩ := Unsigned.fit_true_eq_some_iff.mp hm
    cases hdesc
    subst hsame
    obtain ⟨senders, hsenders, _⟩ := Option.bind_eq_some_iff.mp hsink
    exact ⟨hlt, deriveAccounts_checked hsenders⟩
  · rintro ⟨hlast, hle⟩ overflowChecks parallelism hp
    exact rangeServed_of_le hgen hstart hlast hle hp

/-- `generate_sr25519_keypair` and `generate_ecdsa_keypair`, with secret URIs for the pairs. -/
def generateKeypair : AccountGenerateRequest → Option String
  | .keyring name =>
      match name with
      | "alice" | "alith" => some "//Alice"
      | "bob" | "baltathar" => some "//Bob"
      | "charlie" | "charleth" => some "//Charlie"
      | "dave" | "dorothy" => some "//Dave"
      | "eve" | "ethan" => some "//Eve"
      | "ferdie" | "faith" => some "//Ferdie"
      | _ => none
  | .derived seed i => some (seed ++ "//" ++ i.repr)

def rangeBuilder (startId lastId : UInt32) : ScenarioBuilder where
  accountId := none
  startId := some startId
  lastId := some lastId
  nonceFrom := none
  txsCount := 1
  mortality := none

/-- The largest last id overflows, and a checked build panics on it. An inverted range
underflows. -/
theorem range_end_overflows :
    ¬ (∀ (b : ScenarioBuilder) start, b.startId = some start →
      ∀ overflowChecks parallelism, 1 ≤ parallelism →
        RangeServed generateKeypair b start overflowChecks parallelism) ∧
    (rangeBuilder 5 4294967295).accountsDescription true = none ∧
    deriveAccounts true 1 generateKeypair senderSeed (.derived 5 3) = none := by
  refine ⟨fun h => ?_, by decide, rfl⟩
  obtain ⟨_, _, _, hdesc, _⟩ := h (rangeBuilder 5 4294967295) 5 rfl true 1 (Nat.le_refl 1)
  have hnone : (rangeBuilder 5 4294967295).accountsDescription true = none := by decide
  rw [hnone] at hdesc
  cases hdesc

theorem range_served_pair : RangeServed generateKeypair (rangeBuilder 5 6) 5 true 4 :=
  (@range_served_iff String generateKeypair (rangeBuilder 5 6) 5 (fun _ _ => rfl) rfl).mpr
    (by decide) true 4 (by decide)

/-! ## An account given by a string -/

/-- An account string finds its account wherever it is used, and a number that it spells gives the
scenario of that start id. -/
structure AccountServed (generate : AccountGenerateRequest → Option KP) (b : ScenarioBuilder)
    (account : String) (overflowChecks : Bool) (parallelism : Nat) : Prop where
  registered : ∀ description sink,
    (b.withAccountId account).accountsDescription overflowChecks = some description →
    SinkAccounts.newWithAccountsDescription overflowChecks parallelism generate description =
      some sink → account ∈ sink.fromAccounts ∧ account ∈ sink.toAccounts ∧
        ∀ params, (b.withAccountId account).buildParams overflowChecks = some params →
          ∀ p ∈ params, (sink.buildSubxtTx p).isSome
  asStartId : ∀ n : UInt32, parseId account = some n.toNat →
    (b.withAccountId account).transactions overflowChecks parallelism generate =
      (b.withStartId n).transactions overflowChecks parallelism generate
  nonceChecked : ∀ e, checkNonceAccount overflowChecks parallelism generate account ≠
    some (.error e)

theorem describe_accountId (hb : b.startId = none) :
    (b.withAccountId s).accountsDescription overflowChecks = describe overflowChecks s := by
  simp [accountsDescription, withAccountId, hb]

theorem buildParams_accountId (hb : b.startId = none) :
    (b.withAccountId s).buildParams overflowChecks = b.accountParams overflowChecks s := by
  simp [buildParams, withAccountId, hb, accountParams]

theorem accountServed_of_keys (hb : b.startId = none)
    (hkeys : ∀ description sink, describe overflowChecks s = some description →
      SinkAccounts.newWithAccountsDescription overflowChecks parallelism generate description =
        some sink → s ∈ sink.fromAccounts ∧ s ∈ sink.toAccounts)
    (hsame : ∀ n : UInt32, parseId s = some n.toNat → s = n.toNat.repr) :
    AccountServed generate b s overflowChecks parallelism where
  registered description sink hdesc hsink := by
    rw [describe_accountId hb] at hdesc
    obtain ⟨hfrom, hto⟩ := hkeys description sink hdesc hsink
    refine ⟨hfrom, hto, fun params hparams p hp => ?_⟩
    rw [buildParams_accountId hb] at hparams
    have haccount : p.account = s := pushParams_account hparams p hp
    exact SinkAccounts.buildSubxtTx_isSome.mpr (haccount ▸ ⟨hfrom, hto⟩)
  asStartId n hn := by
    have hdesc : describe overflowChecks s =
        (b.withStartId n).accountsDescription overflowChecks := by
      simp [describe, hn, accountsDescription, withStartId]
    have hids : (b.withStartId n).ids n = [n.toNat] := by
      simp [ids, withStartId, Chunk.span]
    have hparams : b.accountParams overflowChecks s =
        (b.withStartId n).buildParams overflowChecks := by
      have hone : (b.withStartId n).buildParams overflowChecks =
          (((b.withStartId n).ids n).mapM fun id =>
            b.accountParams overflowChecks id.repr).map List.flatten := rfl
      rw [hone, hids, hsame n hn]
      cases hps : b.accountParams overflowChecks n.toNat.repr <;> simp [hps]
    simp only [transactions, describe_accountId hb, buildParams_accountId hb, hdesc, hparams]
  nonceChecked e he := by
    obtain ⟨description, hdesc, he⟩ := Option.bind_eq_some_iff.mp he
    obtain ⟨sink, hsink, he⟩ := Option.map_eq_some_iff.mp he
    have hmem := (hkeys description sink hdesc hsink).1
    rw [← AList.lookup_isSome] at hmem
    obtain ⟨entry, hentry⟩ := Option.isSome_iff_exists.mp hmem
    simp [SinkAccounts.getFromKeyPair, hentry] at he

theorem keyring_keys (hparse : parseId s = none) {description : AccountsDescription}
    {sink : SinkAccounts KP} (hdesc : describe overflowChecks s = some description)
    (hsink : SinkAccounts.newWithAccountsDescription overflowChecks parallelism generate
      description = some sink) : s ∈ sink.fromAccounts ∧ s ∈ sink.toAccounts := by
  simp only [describe, hparse, Option.some.injEq] at hdesc
  subst hdesc
  obtain ⟨senders, hsenders, hsink⟩ := Option.bind_eq_some_iff.mp hsink
  obtain ⟨receivers, hreceivers, rfl⟩ := Option.map_eq_some_iff.mp hsink
  obtain ⟨_, _, rfl⟩ := Option.map_eq_some_iff.mp hsenders
  obtain ⟨_, _, rfl⟩ := Option.map_eq_some_iff.mp hreceivers
  simp [AList.mem_keys]

theorem number_keys (hgen : ∀ seed i, (generate (.derived seed i)).isSome)
    (hparse : parseId s = some n) (hn : n + 1 < 2 ^ 32) (hp : 1 ≤ parallelism) :
    ∃ sink, describe overflowChecks s = some (.derived n (n + 1)) ∧
      SinkAccounts.newWithAccountsDescription overflowChecks parallelism generate
        (.derived n (n + 1)) = some sink ∧
      ∀ account, (account ∈ sink.fromAccounts ↔ account = n.repr) ∧
        (account ∈ sink.toAccounts ↔ account = n.repr) := by
  obtain ⟨sink, hsink, hkeys⟩ :=
    SinkAccounts.newWithAccountsDescription_range overflowChecks hgen hp (Nat.le_succ n) hn
  have hspan : (Chunk.span n (n + 1)).map Nat.repr = [n.repr] := by simp [Chunk.span]
  rw [hspan] at hkeys
  refine ⟨sink, ?_, hsink, by simpa using hkeys⟩
  simp [describe, hparse, Unsigned.fit_of_lt hn]

/-- Every build on every machine serves the account exactly if its string spells no number, or
spells one in the way that it is printed, the largest apart. -/
theorem account_served_iff (hgen : ∀ seed i, (generate (.derived seed i)).isSome)
    (hb : b.startId = none) :
    (∀ overflowChecks parallelism, 1 ≤ parallelism →
      AccountServed generate b s overflowChecks parallelism) ↔
    ∀ n, parseId s = some n → s = n.repr ∧ n + 1 < 2 ^ 32 := by
  constructor
  · intro h n hn
    have hserved := (h false 1 (Nat.le_refl 1)).registered
    rw [describe_accountId hb] at hserved
    by_cases hlt : n + 1 < 2 ^ 32
    · obtain ⟨sink, hdesc, hsink, hkeys⟩ := number_keys hgen hn hlt (Nat.le_refl 1)
      exact ⟨(hkeys s).1.mp (hserved _ sink hdesc hsink).1, hlt⟩
    · -- the end of the range wraps to zero, and no account is derived
      have hn' : n < 2 ^ 32 := Decimal.parse_lt hn
      have hzero : (n + 1) % 2 ^ 32 = 0 := by omega
      have hdesc : describe false s = some (.derived n 0) := by
        simp only [describe, hn, Unsigned.fit_unchecked, hzero, Option.map_some]
      have hempty : ∀ seed, deriveAccounts false 1 generate seed (.derived n 0) = some ∅ :=
        fun _ => deriveAccounts_wrapped (by omega) (by omega)
      have hsink : SinkAccounts.newWithAccountsDescription false 1 generate (.derived n 0) =
          some ⟨∅, ∅⟩ := by
        simp [SinkAccounts.newWithAccountsDescription, hempty]
      have hmem := (hserved _ _ hdesc hsink).1
      simp at hmem
  · intro h overflowChecks parallelism hp
    apply accountServed_of_keys hb
    · intro description sink hdesc hsink
      cases hparse : parseId s with
      | none => exact keyring_keys hparse hdesc hsink
      | some n =>
          obtain ⟨hs, hn⟩ := h n hparse
          obtain ⟨sink', hdesc', hsink', hkeys⟩ := number_keys hgen hparse hn hp
          rw [hdesc] at hdesc'
          cases hdesc'
          rw [hsink] at hsink'
          cases hsink'
          exact ⟨(hkeys s).1.mpr hs, (hkeys s).2.mpr hs⟩
    · exact fun n hn => (h _ hn).1

def plainBuilder : ScenarioBuilder where
  accountId := none
  startId := none
  lastId := none
  nonceFrom := some 3
  txsCount := 1
  mortality := none

/-- "+5" is derived under the key "5" and looked up as it is. -/
theorem spelled_account_missing :
    ¬ (∀ s overflowChecks parallelism, 1 ≤ parallelism →
      AccountServed generateKeypair plainBuilder s overflowChecks parallelism) ∧
    (plainBuilder.withAccountId "+5").transactions true 4 generateKeypair = none ∧
    ((plainBuilder.withStartId 5).transactions true 4 generateKeypair).isSome ∧
    checkNonceAccount true 4 generateKeypair "007" =
      some (.error "account shall be correct") := by
  refine ⟨fun h => ?_, by decide, by decide, by decide⟩
  have hnone := (h "007" true 1 (Nat.le_refl 1)).nonceChecked "account shall be correct"
  exact hnone (by decide)

theorem account_served_canonical :
    AccountServed generateKeypair plainBuilder "5" false 8 := by
  have hparse : parseId "5" = some 5 := by decide
  apply (@account_served_iff String generateKeypair plainBuilder "5" (fun _ _ => rfl)
    rfl).mpr _ false 8 (by decide)
  intro n hn
  rw [hparse, Option.some.injEq] at hn
  subst hn
  exact ⟨by decide, by decide⟩

end TxTestTool.ScenarioBuilder
