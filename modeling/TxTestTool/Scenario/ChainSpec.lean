import Mathlib.Logic.Function.Basic
import TxTestTool.Codec.Value
import TxTestTool.Scenario.Endowed

/-!
# Endowed accounts in a chain spec

`generate-endowed-accounts` appends its accounts to the balances of a given chain spec, or writes
them as a patch of their own.
-/

namespace TxTestTool

structure GenerateEndowedAccounts where
  chain : ChainType
  startId : UInt32
  lastId : UInt32
  balance : Nat
  outFileName : String
  chainSpec : Option String

/-- The text of a file is what `serde_json` reads it as, a document or an error. -/
abbrev Files := String → Option (Except String Value)

def openFile (files : Files) (path : String) : Except String Value :=
  (files path).getD (.error "No such file or directory (os error 2)")

/-- `refuses` is the error of a path that cannot be written. -/
def writeFile (refuses : String → Option String) (files : Files) (path : String)
    (document : Value) : Except String Unit × Files :=
  match refuses path with
  | some e => (.error e, files)
  | none => (.ok (), Function.update files path (some (.ok document)))

def balancesPath : List String := ["genesis", "runtimeGenesis", "patch", "balances", "balances"]

/-- A pair of an address and the balance. -/
def endowment (balance : Nat) (address : String) : Value :=
  .array [.string address, .number balance.repr]

/-- `none` is the panic of an index. -/
def injectBalances (fundedAccounts : List Value) (chainSpec : Value) :
    Option (Except String Value) :=
  ((Value.Cursor.mk chainSpec []).indexPath balancesPath).map fun balances =>
    match balances.value.asArray with
    | some items =>
        .ok { balances with value := .array (items ++ fundedAccounts) : Value.Cursor }.document
    | none => .error "Balances array not found in provided chain-spec"

variable {SrPair EthPair : Type*}

def GenerateEndowedAccounts.run (k : Keys SrPair EthPair) (overflowChecks : Bool)
    (parallelism : Nat) (refuses : String → Option String) (files : Files)
    (c : GenerateEndowedAccounts) : Option (Except String Unit × Files) :=
  (fundedAddresses k overflowChecks parallelism c.chain c.startId c.lastId).bind fun addresses =>
    let fundedAccounts := addresses.map (endowment c.balance)
    match c.chainSpec with
    | some path =>
        match openFile files path with
        | .error e => some (.error e, files)
        | .ok chainSpec => (injectBalances fundedAccounts chainSpec).map fun injected =>
            match injected with
            | .error e => (.error e, files)
            | .ok document => writeFile refuses files c.outFileName document
    | none => some (writeFile refuses files c.outFileName
        (.object [("balances", .object [("balances", .array fundedAccounts)])]))

/-! ## What an injection does -/

theorem injectBalances_cases (fundedAccounts : List Value) (chainSpec : Value) :
    ¬ chainSpec.Walkable balancesPath ∧ injectBalances fundedAccounts chainSpec = none ∨
    chainSpec.Walkable balancesPath ∧ (chainSpec.getPath balancesPath).asArray = none ∧
      (∃ e, injectBalances fundedAccounts chainSpec = some (.error e)) ∨
    chainSpec.Walkable balancesPath ∧ (∃ items, chainSpec.getPath balancesPath = .array items) ∧
      ∃ document, injectBalances fundedAccounts chainSpec = some (.ok document) ∧
        Value.ExtendedAt balancesPath fundedAccounts chainSpec document := by
  have hwalk := @Value.indexPath_isSome balancesPath ⟨chainSpec, []⟩
  cases hcursor : (Value.Cursor.mk chainSpec []).indexPath balancesPath with
  | none =>
      rw [hcursor] at hwalk
      refine Or.inl ⟨fun h => ?_, by rw [injectBalances, hcursor, Option.map_none]⟩
      simpa using hwalk.mpr h
  | some balances =>
      rw [hcursor] at hwalk
      have hwalkable : chainSpec.Walkable balancesPath := hwalk.mp rfl
      obtain ⟨frames, _, heq, _⟩ := Value.indexPath_spec hcursor
      have hvalue : balances.value = chainSpec.getPath balancesPath := congrArg _ heq
      cases hitems : balances.value.asArray with
      | none =>
          refine Or.inr (Or.inl ⟨hwalkable, by rw [← hvalue, hitems], ?_⟩)
          rw [injectBalances, hcursor, Option.map_some, hitems]
          exact ⟨_, rfl⟩
      | some items =>
          obtain ⟨hget, hextended⟩ := Value.extendedAt_indexPath hcursor
            (Value.asArray_eq_some.mp hitems)
          refine Or.inr (Or.inr ⟨hwalkable, ⟨items, hget⟩, _, ?_, hextended⟩)
          rw [injectBalances, hcursor, Option.map_some, hitems]

/-! ## Injecting the accounts of a range -/

/-- One pair of an address and the balance for each account of the range, in any order. -/
def OnePerAccount (k : Keys SrPair EthPair) (c : GenerateEndowedAccounts)
    (endowments : List Value) : Prop :=
  (endowments.map some).Perm ((Chunk.span c.startId.toNat (c.lastId.toNat + 1)).map
    fun i => (k.address i c.chain).map (endowment c.balance))

/-- The command does not panic. It writes the chain spec with the accounts of the range added, or
fails and writes nothing. -/
def InjectsOrFails (k : Keys SrPair EthPair) (overflowChecks : Bool) (parallelism : Nat)
    (refuses : String → Option String) (files : Files) (c : GenerateEndowedAccounts)
    (chainSpec : Value) : Prop :=
  ∃ result files', c.run k overflowChecks parallelism refuses files = some (result, files') ∧
    ((result = .ok () ∧ ∃ endowments document, OnePerAccount k c endowments ∧
        Value.ExtendedAt balancesPath endowments chainSpec document ∧
        files' = Function.update files c.outFileName (some (.ok document))) ∨
      ((∃ e, result = .error e) ∧ files' = files))

/-- On a fake chain there are no accounts to add to an array. -/
def Endowable (refuses : String → Option String) (c : GenerateEndowedAccounts)
    (chainSpec : Value) : Prop :=
  c.chain = .fake → c.lastId < c.startId ∨ (chainSpec.getPath balancesPath).asArray = none ∨
    (refuses c.outFileName).isSome

variable {k : Keys SrPair EthPair} {overflowChecks : Bool} {parallelism : Nat}
  {refuses : String → Option String} {files : Files} {c : GenerateEndowedAccounts}
  {chainSpec : Value} {path : String} {addresses : List String}

theorem span_eq_nil {startId lastId : UInt32} :
    Chunk.span startId.toNat (lastId.toNat + 1) = [] ↔ lastId < startId := by
  rw [Chunk.span, List.range'_eq_nil_iff, UInt32.lt_iff_toNat_lt, Nat.sub_eq_zero_iff_le]
  rfl

theorem address_isSome (k : Keys SrPair EthPair) {chain : ChainType} (hchain : chain ≠ .fake)
    (i : Nat) : (k.address i chain).isSome := by
  cases chain with
  | fake => exact absurd rfl hchain
  | eth | sub => rfl

/-- The pairs that are made of the addresses are one for each account, unless the chain is a fake
one and there are accounts. -/
theorem onePerAccount_funded
    (hperm : addresses.Perm ((Chunk.span c.startId.toNat (c.lastId.toNat + 1)).filterMap
      fun i => k.address i c.chain)) :
    OnePerAccount k c (addresses.map (endowment c.balance)) ↔
      (c.chain = .fake → c.lastId < c.startId) := by
  constructor
  · intro h hchain
    have hnone : addresses.length = 0 := by
      rw [hperm.length_eq, hchain]
      simp [Keys.address]
    have hlength := h.length_eq
    rw [List.length_map, List.length_map, hnone, List.length_map] at hlength
    exact span_eq_nil.mp (List.length_eq_zero_iff.mp hlength.symm)
  · intro hrange
    have hsome : ∀ i ∈ Chunk.span c.startId.toNat (c.lastId.toNat + 1),
        (k.address i c.chain).isSome := by
      intro i hi
      by_cases hchain : c.chain = .fake
      · rw [span_eq_nil.mpr (hrange hchain)] at hi
        cases hi
      · exact address_isSome k hchain i
    have hsplit : (fun i => (k.address i c.chain).map (endowment c.balance)) =
        Option.map (endowment c.balance) ∘ fun i => k.address i c.chain := rfl
    rw [OnePerAccount, hsplit, ← List.map_map, ← List.map_some_filterMap hsome, List.map_map,
      List.map_map]
    exact hperm.map _

/-- The command with a chain spec that can be read, once the addresses are there. -/
theorem run_chainSpec (hspec : c.chainSpec = some path) (hdoc : openFile files path = .ok chainSpec)
    (hfunded : fundedAddresses k overflowChecks parallelism c.chain c.startId c.lastId =
      some addresses) :
    c.run k overflowChecks parallelism refuses files =
      (injectBalances (addresses.map (endowment c.balance)) chainSpec).map fun injected =>
        match injected with
        | .error e => (.error e, files)
        | .ok document => writeFile refuses files c.outFileName document := by
  simp only [GenerateEndowedAccounts.run, hfunded, Option.bind_some, hspec, hdoc]

/-- What the file that was written says about the accounts in it. -/
theorem written_iff {endowments : List Value} {document : Value}
    (h : Value.ExtendedAt balancesPath endowments chainSpec document) :
    (∃ endowments' document', OnePerAccount k c endowments' ∧
      Value.ExtendedAt balancesPath endowments' chainSpec document' ∧
      Function.update files c.outFileName (some (.ok document)) =
        Function.update files c.outFileName (some (.ok document'))) ↔
      OnePerAccount k c endowments := by
  constructor
  · rintro ⟨endowments', document', hone, h', hfiles⟩
    have hsame : document = document' := by
      have hout := congrFun hfiles c.outFileName
      rw [Function.update_self, Function.update_self] at hout
      exact Except.ok.inj (Option.some.inj hout)
    subst hsame
    rwa [h'.unique h] at hone
  · intro hone
    exact ⟨endowments, document, hone, h, rfl⟩

/-- The accounts of an accepted range are injected, or the command fails, exactly if every value
that is indexed is an object or a null. A fake chain must not have accounts to inject. -/
theorem injected_iff (hp : 1 ≤ parallelism) (hrange : Accepted c.startId c.lastId)
    (hspec : c.chainSpec = some path) (hdoc : openFile files path = .ok chainSpec) :
    InjectsOrFails k overflowChecks parallelism refuses files c chainSpec ↔
      chainSpec.Walkable balancesPath ∧ Endowable refuses c chainSpec := by
  obtain ⟨addresses, hfunded, hperm⟩ := funded_range k overflowChecks c.chain hp hrange
  have hrun := @run_chainSpec _ _ k overflowChecks parallelism refuses files c chainSpec path
    addresses hspec hdoc hfunded
  unfold InjectsOrFails
  rw [hrun]
  obtain ⟨hwalk, hinject⟩ | ⟨hwalk, hnone, e, hinject⟩ |
      ⟨hwalk, ⟨items, hitems⟩, document, hinject, hextended⟩ :=
    injectBalances_cases (addresses.map (endowment c.balance)) chainSpec
  · rw [hinject]
    constructor
    · rintro ⟨_, _, hnone, _⟩
      cases hnone
    · exact fun h => absurd h.1 hwalk
  · rw [hinject]
    refine ⟨fun _ => ⟨hwalk, fun _ => Or.inr (Or.inl hnone)⟩, fun _ => ?_⟩
    exact ⟨_, _, rfl, Or.inr ⟨⟨e, rfl⟩, rfl⟩⟩
  · rw [hinject, Option.map_some]
    cases hrefuses : refuses c.outFileName with
    | some e =>
        simp only [writeFile, hrefuses]
        refine ⟨fun _ => ⟨hwalk, fun _ => Or.inr (Or.inr (by rw [hrefuses]; rfl))⟩, fun _ => ?_⟩
        exact ⟨_, _, rfl, Or.inr ⟨⟨e, rfl⟩, rfl⟩⟩
    | none =>
        have hendowable : Endowable refuses c chainSpec ↔
            (c.chain = .fake → c.lastId < c.startId) := by
          simp [Endowable, hitems, hrefuses, Value.asArray]
        rw [hendowable, ← onePerAccount_funded hperm, ← @written_iff _ _ k files _ _ _ _ hextended]
        simp only [writeFile, hrefuses]
        constructor
        · rintro ⟨_, _, heq, hresult⟩
          cases heq
          rcases hresult with ⟨_, hwritten⟩ | ⟨⟨_, herror⟩, _⟩
          · exact ⟨hwalk, hwritten⟩
          · cases herror
        · rintro ⟨_, hwritten⟩
          exact ⟨_, _, rfl, Or.inl ⟨rfl, hwritten⟩⟩

def chainSpecWith (balances : Value) : Value :=
  .object [("genesis", .object [("runtimeGenesis", .object [("patch",
    .object [("balances", balances)])])])]

def endowFirst : GenerateEndowedAccounts where
  chain := .eth
  startId := 0
  lastId := 0
  balance := 100000000000000
  outFileName := "endowed.json"
  chainSpec := some "chain.json"

/-- The balances are an array where an object of them is expected. -/
theorem balances_array_panics :
    endowFirst.run devKeys true 1 (fun _ => none)
      (fun _ => some (.ok (chainSpecWith (.array [])))) = none ∧
    ¬ (∀ chainSpec refuses files, openFile files "chain.json" = .ok chainSpec →
      InjectsOrFails devKeys true 1 refuses files endowFirst chainSpec) := by
  have hwalk : ¬ (chainSpecWith (.array [])).Walkable balancesPath := by
    rintro ⟨_, _, _, _, hpanic, _⟩
    cases hpanic
  have hnone : endowFirst.run devKeys true 1 (fun _ => none)
      (fun _ => some (.ok (chainSpecWith (.array [])))) = none := by
    obtain ⟨addresses, hfunded, _⟩ := funded_range devKeys true endowFirst.chain (Nat.le_refl 1)
      (show Accepted endowFirst.startId endowFirst.lastId from ⟨by decide, by decide⟩)
    rw [run_chainSpec rfl rfl hfunded]
    obtain ⟨_, hinject⟩ | ⟨hwalk', _⟩ | ⟨hwalk', _⟩ :=
      injectBalances_cases (addresses.map (endowment endowFirst.balance))
        (chainSpecWith (.array []))
    · rw [hinject, Option.map_none]
    · exact absurd hwalk' hwalk
    · exact absurd hwalk' hwalk
  refine ⟨hnone, fun h => ?_⟩
  obtain ⟨_, _, hrun, _⟩ := h _ (fun _ => none) (fun _ => some (.ok (chainSpecWith (.array [])))) rfl
  rw [hnone] at hrun
  cases hrun

def endowPair : GenerateEndowedAccounts := { endowFirst with chain := .sub, lastId := 1 }

/-- One account is endowed already. -/
def endowedSpec : Value :=
  chainSpecWith (.object [("balances", .array [endowment 5 "5GrwvaEF"])])

theorem injected_pair :
    InjectsOrFails devKeys true 4 (fun _ => none) (fun _ => some (.ok endowedSpec)) endowPair
      endowedSpec := by
  have hwalk : endowedSpec.Walkable balancesPath := ⟨rfl, rfl, rfl, rfl, rfl, trivial⟩
  have hchain : endowPair.chain ≠ .fake := by decide
  exact (@injected_iff _ _ devKeys true 4 _ _ endowPair _ "chain.json" (by decide)
    ⟨by decide, by decide⟩ rfl rfl).mpr ⟨hwalk, fun h => absurd h hchain⟩

end TxTestTool
