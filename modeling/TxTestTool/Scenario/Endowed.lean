import TxTestTool.Codec.Hex
import TxTestTool.Scenario.Lookups

/-!
# The accounts that are endowed and those that sign

Both derive the same key pairs. `generate-endowed-accounts` writes an address for each of them, and
a scenario signs with the account id of each.
-/

namespace TxTestTool

inductive ChainType
  | fake
  | eth
  | sub
deriving DecidableEq, Repr

/-- A kind of key pairs. Those of ids can always be generated. -/
structure Signer (KP : Type*) where
  generate : AccountGenerateRequest → Option KP
  publicKey : KP → List UInt8
  derived_isSome : ∀ seed i, (generate (.derived seed i)).isSome

/-- The key pairs of both chains, and the functions that addresses are made with. -/
structure Keys (SrPair EthPair : Type*) where
  sr25519 : Signer SrPair
  ecdsa : Signer EthPair
  keccak256 : List UInt8 → List UInt8
  ss58check : List UInt8 → String
  length_ecdsa : ∀ pair, (ecdsa.publicKey pair).length = 65
  length_keccak256 : ∀ bs, (keccak256 bs).length = 32

variable {KP SrPair EthPair : Type*}

namespace Keys

def srAccountId (k : Keys SrPair EthPair) (pair : SrPair) : List UInt8 := k.sr25519.publicKey pair

/-- The last 20 bytes of the hash of the key without its first byte. -/
def ethAccountId (k : Keys SrPair EthPair) (pair : EthPair) : List UInt8 :=
  (k.keccak256 ((k.ecdsa.publicKey pair).drop 1)).drop 12

/-- `AccountId::from(keypair.0.clone().public_key())`, as text. -/
def srAddress (k : Keys SrPair EthPair) (pair : SrPair) : String :=
  k.ss58check (k.sr25519.publicKey pair)

/-- `"0x".to_string() + &hex::encode(keypair.0.clone().public_key())` -/
def ethAddress (k : Keys SrPair EthPair) (pair : EthPair) : String :=
  "0x" ++ Hex.encode (k.ecdsa.publicKey pair)

end Keys

/-- Something of each pair that is derived for a description. The order of the map is of no
meaning. -/
def Signer.senders {α : Type*} (signer : Signer KP) (overflowChecks : Bool) (parallelism : Nat)
    (f : KP → α) (description : AccountsDescription) : Option (List α) :=
  (deriveAccounts overflowChecks parallelism signer.generate senderSeed description).map
    fun accounts => accounts.values.map fun entry => f entry.1

/-- The addresses of `funded_accounts`. -/
def fundedAddresses (k : Keys SrPair EthPair) (overflowChecks : Bool) (parallelism : Nat)
    (chain : ChainType) (startId lastId : UInt32) : Option (List String) :=
  (Unsigned.fit 32 overflowChecks (lastId.toNat + 1)).bind fun stop =>
    match chain with
    | .sub => k.sr25519.senders overflowChecks parallelism k.srAddress (.derived startId.toNat stop)
    | .eth => k.ecdsa.senders overflowChecks parallelism k.ethAddress (.derived startId.toNat stop)
    | .fake => some []

namespace ScenarioBuilder

/-- The account ids of the pairs in `from_accounts`. -/
def signers (b : ScenarioBuilder) (signer : Signer KP) (accountId : KP → List UInt8)
    (overflowChecks : Bool) (parallelism : Nat) : Option (List (List UInt8)) :=
  (b.accountsDescription overflowChecks).bind fun description =>
    (SinkAccounts.newWithAccountsDescription overflowChecks parallelism signer.generate
      description).map fun sink => sink.fromAccounts.values.map fun entry => accountId entry.1

/-- The account ids in the form that a chain spec has them in. A fake sink signs nothing. -/
def signerTexts (b : ScenarioBuilder) (k : Keys SrPair EthPair) (overflowChecks : Bool)
    (parallelism : Nat) : ChainType → Option (List String)
  | .sub => (b.signers k.sr25519 k.srAccountId overflowChecks parallelism).map
      fun ids => ids.map k.ss58check
  | .eth => (b.signers k.ecdsa k.ethAccountId overflowChecks parallelism).map
      fun ids => ids.map fun id => "0x" ++ Hex.encode id
  | .fake => some []

end ScenarioBuilder

/-- The exclusive end of the range fits in a `u32`, and the range does not end before it starts. -/
structure Accepted (startId lastId : UInt32) : Prop where
  ends : lastId.toNat + 1 < 2 ^ 32
  ordered : startId.toNat ≤ lastId.toNat + 1

/-! ## The pairs of a range -/

namespace Signer

variable {α : Type*} {signer : Signer KP} {overflowChecks : Bool} {parallelism start stop : Nat}
  {f : KP → α}

def pair (signer : Signer KP) (seed : String) (i : Nat) : KP :=
  (signer.generate (.derived seed i)).get (signer.derived_isSome seed i)

theorem generate_derived (signer : Signer KP) (seed : String) (i : Nat) :
    signer.generate (.derived seed i) = some (signer.pair seed i) :=
  (Option.some_get (signer.derived_isSome seed i)).symm

theorem values_derived (overflowChecks : Bool) (seed : String) (f : KP → α) (hp : 1 ≤ parallelism)
    (hle : start ≤ stop) (hstop : stop < 2 ^ 32) :
    ∃ accounts, deriveAccounts overflowChecks parallelism signer.generate seed
        (.derived start stop) = some accounts ∧
      (accounts.values.map fun entry => f entry.1).Perm
        ((Chunk.span start stop).map fun i => f (signer.pair seed i)) := by
  obtain ⟨accounts, haccounts, hperm⟩ :=
    deriveAccounts_pairs overflowChecks (signer.generate_derived seed) hp hle hstop
  refine ⟨accounts, haccounts, ?_⟩
  have hvalues := hperm.map fun entry => f entry.2.1
  rw [List.map_map] at hvalues
  rw [AList.values_eq_pairs, List.map_map]
  exact hvalues

theorem senders_range (signer : Signer KP) (overflowChecks : Bool) (f : KP → α)
    (hp : 1 ≤ parallelism) (hle : start ≤ stop) (hstop : stop < 2 ^ 32) :
    ∃ senders, signer.senders overflowChecks parallelism f (.derived start stop) = some senders ∧
      senders.Perm ((Chunk.span start stop).map fun i => f (signer.pair senderSeed i)) := by
  obtain ⟨accounts, haccounts, hperm⟩ :=
    signer.values_derived overflowChecks senderSeed f hp hle hstop
  refine ⟨_, ?_, hperm⟩
  rw [senders, haccounts, Option.map_some]

end Signer

/-! ## What is endowed -/

/-- The address of an id. A fake chain has none. -/
def Keys.address (k : Keys SrPair EthPair) (i : Nat) : ChainType → Option String
  | .sub => some (k.srAddress (k.sr25519.pair senderSeed i))
  | .eth => some (k.ethAddress (k.ecdsa.pair senderSeed i))
  | .fake => none

def Keys.accountText (k : Keys SrPair EthPair) (i : Nat) : ChainType → Option String
  | .sub => some (k.ss58check (k.srAccountId (k.sr25519.pair senderSeed i)))
  | .eth => some ("0x" ++ Hex.encode (k.ethAccountId (k.ecdsa.pair senderSeed i)))
  | .fake => none

variable {k : Keys SrPair EthPair} {overflowChecks overflowChecks' : Bool}
  {parallelism parallelism' : Nat} {chain : ChainType} {startId lastId : UInt32}

theorem funded_range (k : Keys SrPair EthPair) (overflowChecks : Bool) (chain : ChainType)
    (hp : 1 ≤ parallelism) (h : Accepted startId lastId) :
    ∃ endowed, fundedAddresses k overflowChecks parallelism chain startId lastId = some endowed ∧
      endowed.Perm ((Chunk.span startId.toNat (lastId.toNat + 1)).filterMap
        fun i => k.address i chain) := by
  rw [fundedAddresses, Unsigned.fit_of_lt h.ends, Option.bind_some]
  cases chain with
  | fake => exact ⟨[], rfl, by simp [Keys.address]⟩
  | eth =>
      obtain ⟨endowed, hendowed, hperm⟩ :=
        k.ecdsa.senders_range overflowChecks k.ethAddress hp h.ordered h.ends
      refine ⟨endowed, hendowed, ?_⟩
      simpa only [Keys.address, List.filterMap_eq_map'] using hperm
  | sub =>
      obtain ⟨endowed, hendowed, hperm⟩ :=
        k.sr25519.senders_range overflowChecks k.srAddress hp h.ordered h.ends
      refine ⟨endowed, hendowed, ?_⟩
      simpa only [Keys.address, List.filterMap_eq_map'] using hperm

/-- A build with checks derives the accounts of exactly these ranges. -/
theorem accepted_iff (hchain : chain ≠ .fake) (hp : 1 ≤ parallelism) :
    (fundedAddresses k true parallelism chain startId lastId).isSome ↔ Accepted startId lastId := by
  constructor
  · intro h
    obtain ⟨endowed, hendowed⟩ := Option.isSome_iff_exists.mp h
    obtain ⟨stop, hstop, hsenders⟩ := Option.bind_eq_some_iff.mp hendowed
    obtain ⟨rfl, hlt⟩ := Unsigned.fit_true_eq_some_iff.mp hstop
    cases chain with
    | fake => exact absurd rfl hchain
    | eth | sub =>
        obtain ⟨accounts, haccounts, _⟩ := Option.map_eq_some_iff.mp hsenders
        exact ⟨hlt, deriveAccounts_checked haccounts⟩
  · intro h
    obtain ⟨endowed, hendowed, _⟩ := funded_range k true chain hp h
    rw [hendowed]
    rfl

/-! ## What signs -/

theorem ScenarioBuilder.signers_range {b : ScenarioBuilder} (signer : Signer KP)
    (accountId : KP → List UInt8) (overflowChecks : Bool) (hstart : b.startId = some startId)
    (hlast : b.lastId.getD startId = lastId) (hp : 1 ≤ parallelism)
    (h : Accepted startId lastId) :
    ∃ ids, b.signers signer accountId overflowChecks parallelism = some ids ∧
      ids.Perm ((Chunk.span startId.toNat (lastId.toNat + 1)).map
        fun i => accountId (signer.pair senderSeed i)) := by
  obtain ⟨senders, hsenders, hperm⟩ :=
    signer.values_derived overflowChecks senderSeed accountId hp h.ordered h.ends
  obtain ⟨receivers, hreceivers, _⟩ :=
    signer.values_derived overflowChecks receiverSeed accountId hp h.ordered h.ends
  refine ⟨_, ?_, hperm⟩
  rw [signers, accountsDescription, hstart]
  simp only [hlast, Unsigned.fit_of_lt h.ends, Option.map_some, Option.bind_some,
    SinkAccounts.newWithAccountsDescription, hsenders, hreceivers]

/-- Every transaction of a scenario is signed by one of these accounts. -/
theorem ScenarioBuilder.mem_signers {b : ScenarioBuilder} {signer : Signer KP}
    {requests : List (SigningRequest KP)} {r : SigningRequest KP} (accountId : KP → List UInt8)
    (h : b.transactions overflowChecks parallelism signer.generate = some requests)
    (hr : r ∈ requests) : ∃ ids, b.signers signer accountId overflowChecks parallelism = some ids ∧
      accountId r.fromPair ∈ ids := by
  obtain ⟨description, hdescription, h⟩ := Option.bind_eq_some_iff.mp h
  obtain ⟨sink, hsink, h⟩ := Option.bind_eq_some_iff.mp h
  obtain ⟨params, _, h⟩ := Option.bind_eq_some_iff.mp h
  obtain ⟨p, _, hp⟩ := List.mem_of_mapM h hr
  obtain ⟨toPair, _, hp⟩ := Option.bind_eq_some_iff.mp hp
  obtain ⟨fromPair, hfrom, hp⟩ := Option.bind_eq_some_iff.mp hp
  obtain ⟨metadata, _, rfl⟩ := Option.map_eq_some_iff.mp hp
  obtain ⟨entry, hentry, rfl⟩ := Option.map_eq_some_iff.mp hfrom
  refine ⟨_, by rw [signers, hdescription, Option.bind_some, hsink, Option.map_some], ?_⟩
  exact List.mem_map.mpr ⟨entry, AList.mem_values.mpr ⟨_, hentry⟩, rfl⟩

theorem ScenarioBuilder.signerTexts_range {b : ScenarioBuilder} (k : Keys SrPair EthPair)
    (overflowChecks : Bool) (chain : ChainType) (hstart : b.startId = some startId)
    (hlast : b.lastId.getD startId = lastId) (hp : 1 ≤ parallelism)
    (h : Accepted startId lastId) :
    ∃ texts, b.signerTexts k overflowChecks parallelism chain = some texts ∧
      texts.Perm ((Chunk.span startId.toNat (lastId.toNat + 1)).filterMap
        fun i => k.accountText i chain) := by
  cases chain with
  | fake => exact ⟨[], rfl, by simp [Keys.accountText]⟩
  | eth =>
      obtain ⟨ids, hids, hperm⟩ :=
        b.signers_range k.ecdsa k.ethAccountId overflowChecks hstart hlast hp h
      refine ⟨_, by rw [signerTexts, hids, Option.map_some], ?_⟩
      have htexts := hperm.map fun id => "0x" ++ Hex.encode id
      rw [List.map_map] at htexts
      simpa only [Keys.accountText, List.filterMap_eq_map', Function.comp_def] using htexts
  | sub =>
      obtain ⟨ids, hids, hperm⟩ :=
        b.signers_range k.sr25519 k.srAccountId overflowChecks hstart hlast hp h
      refine ⟨_, by rw [signerTexts, hids, Option.map_some], ?_⟩
      have htexts := hperm.map k.ss58check
      rw [List.map_map] at htexts
      simpa only [Keys.accountText, List.filterMap_eq_map', Function.comp_def] using htexts

/-! ## Whether they are the same -/

theorem Keys.length_ethAccountId (k : Keys SrPair EthPair) (pair : EthPair) :
    (k.ethAccountId pair).length = 20 := by
  rw [ethAccountId, List.length_drop, k.length_keccak256]

/-- An address is longer than the text of an account id. -/
theorem Keys.address_ne (k : Keys SrPair EthPair) (i j : Nat) :
    k.address i .eth ≠ k.accountText j .eth := by
  intro h
  have htext := Option.some.inj h
  have hbytes : k.ecdsa.publicKey (k.ecdsa.pair senderSeed i) =
      k.ethAccountId (k.ecdsa.pair senderSeed j) := by
    apply Hex.encode_injective
    simpa [ethAddress] using htext
  have hlength := congrArg List.length hbytes
  rw [k.length_ecdsa, k.length_ethAccountId] at hlength
  cases hlength

/-- The command and the scenario may be run by different builds and on different machines. -/
def EndowsSigners (k : Keys SrPair EthPair) (b : ScenarioBuilder) (chain : ChainType)
    (startId lastId : UInt32) (overflowChecks : Bool) (parallelism : Nat) (overflowChecks' : Bool)
    (parallelism' : Nat) : Prop :=
  ∃ endowed signed,
    fundedAddresses k overflowChecks parallelism chain startId lastId = some endowed ∧
    b.signerTexts k overflowChecks' parallelism' chain = some signed ∧
    ∀ text, text ∈ endowed ↔ text ∈ signed

/-- The accounts of a range that are endowed are those that sign, except on Ethereum, where none of
them is. -/
theorem endowed_signed_iff (k : Keys SrPair EthPair) {b : ScenarioBuilder} (chain : ChainType)
    (hstart : b.startId = some startId) (hlast : b.lastId.getD startId = lastId)
    (h : Accepted startId lastId) (hp : 1 ≤ parallelism) (hp' : 1 ≤ parallelism') :
    EndowsSigners k b chain startId lastId overflowChecks parallelism overflowChecks'
      parallelism' ↔ chain ≠ .eth ∨ lastId < startId := by
  obtain ⟨endowed, hendowed, hfunded⟩ := funded_range k overflowChecks chain hp h
  obtain ⟨signed, hsigned, hsigners⟩ :=
    b.signerTexts_range k overflowChecks' chain hstart hlast hp' h
  constructor
  · rintro ⟨endowed', signed', hendowed', hsigned', htexts⟩
    cases hendowed.symm.trans hendowed'
    cases hsigned.symm.trans hsigned'
    by_contra hnot
    obtain ⟨heth, hle⟩ := not_or.mp hnot
    rw [not_ne_iff] at heth
    subst heth
    rw [UInt32.lt_iff_toNat_lt, Nat.not_lt] at hle
    have hfirst : k.ethAddress (k.ecdsa.pair senderSeed startId.toNat) ∈ endowed := by
      rw [hfunded.mem_iff, List.mem_filterMap]
      exact ⟨startId.toNat, Chunk.mem_span.mpr ⟨Nat.le_refl _, Nat.lt_succ_of_le hle⟩, rfl⟩
    rw [htexts, hsigners.mem_iff, List.mem_filterMap] at hfirst
    obtain ⟨j, _, hj⟩ := hfirst
    exact k.address_ne startId.toNat j hj.symm
  · intro hcond
    refine ⟨endowed, signed, hendowed, hsigned, fun text => ?_⟩
    rw [hfunded.mem_iff, hsigners.mem_iff]
    rcases hcond with hchain | hempty
    · cases chain with
      | fake => rfl
      | eth => exact absurd rfl hchain
      | sub => rfl
    · rw [UInt32.lt_iff_toNat_lt] at hempty
      have hspan : Chunk.span startId.toNat (lastId.toNat + 1) = [] := by
        rw [Chunk.span, Nat.sub_eq_zero_of_le hempty]
        rfl
      rw [hspan]
      rfl

/-- The bytes of a number, the highest first. -/
def bigEndian (width n : Nat) : List UInt8 :=
  (List.range width).reverse.map fun i => UInt8.ofNat (n / 256 ^ i)

theorem length_bigEndian (width n : Nat) : (bigEndian width n).length = width := by
  rw [bigEndian, List.length_map, List.length_reverse, List.length_range]

/-- A public key of 65 bytes: a tag and the two coordinates. -/
def uncompressed (x y : Nat) : List UInt8 := 4 :: (bigEndian 32 x ++ bigEndian 32 y)

theorem length_uncompressed (x y : Nat) : (uncompressed x y).length = 65 := by
  rw [uncompressed, List.length_cons, List.length_append, length_bigEndian, length_bigEndian]

/-- The point of `//Sender//0` in the development phrase. -/
def senderPoint : Nat × Nat :=
  (0x1b6f038c10b0df16aae29579d6c8ec7ddf21cbedededb1c36406934e424964a8,
    0x932f22137b6416cfcdf4b7c06a25e33e17d44825b96f252fb15e902f759f74f6)

/-- Pairs are secret URIs. Only the ecdsa key of `//Sender//0` and its hash are the real ones. -/
def devKeys : Keys String String where
  sr25519 := {
    generate := ScenarioBuilder.generateKeypair
    publicKey := fun uri => uri.toUTF8.toList
    derived_isSome := fun _ _ => rfl }
  ecdsa := {
    generate := ScenarioBuilder.generateKeypair
    publicKey := fun uri =>
      let point := if uri = "//Sender//0" then senderPoint else (0, 0)
      uncompressed point.1 point.2
    derived_isSome := fun _ _ => rfl }
  keccak256 := fun bs => bigEndian 32
    (if bs = bigEndian 32 senderPoint.1 ++ bigEndian 32 senderPoint.2 then
      0xee8b71406ab0db937cf2c7fbe21a8f1b7976966b2edae464ec92f36964f7eed4
    else 0)
  ss58check := Hex.encode
  length_ecdsa := fun _ => length_uncompressed _ _
  length_keccak256 := fun _ => length_bigEndian 32 _

/-- The endowed address is the public key, and the account that signs is not endowed. -/
theorem endowed_public_key :
    fundedAddresses devKeys true 1 .eth 0 0 = some
      ["0x041b6f038c10b0df16aae29579d6c8ec7ddf21cbedededb1c36406934e424964a8" ++
        "932f22137b6416cfcdf4b7c06a25e33e17d44825b96f252fb15e902f759f74f6"] ∧
    (ScenarioBuilder.rangeBuilder 0 0).signerTexts devKeys true 1 .eth =
      some ["0xe21a8f1b7976966b2edae464ec92f36964f7eed4"] ∧
    ¬ EndowsSigners devKeys (ScenarioBuilder.rangeBuilder 0 0) .eth 0 0 true 1 true 1 := by
  have hfunded : fundedAddresses devKeys true 1 .eth 0 0 = some
      ["0x041b6f038c10b0df16aae29579d6c8ec7ddf21cbedededb1c36406934e424964a8" ++
        "932f22137b6416cfcdf4b7c06a25e33e17d44825b96f252fb15e902f759f74f6"] := by
    decide +kernel
  have hsigners : (ScenarioBuilder.rangeBuilder 0 0).signerTexts devKeys true 1 .eth =
      some ["0xe21a8f1b7976966b2edae464ec92f36964f7eed4"] := by
    decide +kernel
  refine ⟨hfunded, hsigners, ?_⟩
  rintro ⟨endowed, signed, hendowed, hsigned, htexts⟩
  cases hfunded.symm.trans hendowed
  cases hsigners.symm.trans hsigned
  have hmem := (htexts _).mp (List.mem_singleton_self _)
  have heq := List.mem_singleton.mp hmem
  revert heq
  decide

theorem endowed_signed_sender :
    EndowsSigners devKeys (ScenarioBuilder.rangeBuilder 0 0) .sub 0 0 true 1 false 4 ∧
      ¬ EndowsSigners devKeys (ScenarioBuilder.rangeBuilder 0 0) .eth 0 0 true 1 false 4 := by
  have hiff := fun chain => @endowed_signed_iff String String true false 1 4 0 0 devKeys
    (ScenarioBuilder.rangeBuilder 0 0) chain rfl rfl ⟨by decide, by decide⟩ (by decide) (by decide)
  rw [hiff, hiff]
  decide

end TxTestTool
