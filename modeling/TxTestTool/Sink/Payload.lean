import TxTestTool.Codec.Hex
import TxTestTool.Sink.Nonces

/-!
# The calls that are signed

A payload builder makes the call of a transaction. `none` is a panic.
-/

namespace TxTestTool

structure TxPayloadBuildContext where
  toAccountId : AccountId
  fromAccountId : AccountId
  account : String
  nonce : Nat

/-- The values that the builders make. Composites and variants have one member each. -/
inductive PayloadValue
  | u128 (n : Nat)
  | bytes (bs : List UInt8)
  | unnamedComposite (value : PayloadValue)
  | variant (name : String) (value : PayloadValue)
deriving DecidableEq, Repr

structure DynamicPayload where
  palletName : String
  callName : String
  args : List PayloadValue
deriving DecidableEq, Repr

abbrev PayloadBuilderFn := TxPayloadBuildContext → Option DynamicPayload

/-- The text is ASCII, so its last byte is that of its last character. -/
def remarkPayloadBuilder (sizeKb : UInt32) : PayloadBuilderFn := fun ctx =>
  (Hex.encode ctx.toAccountId).toList.getLast?.map fun c =>
    ⟨"System", "remark", [.bytes (List.replicate (sizeKb.toNat * 1024) (UInt8.ofNat c.toNat))]⟩

def subTransferPayloadBuilder : PayloadBuilderFn := fun ctx =>
  some ⟨"Balances", "transfer_keep_alive", [.variant "Id" (.bytes ctx.toAccountId), .u128 1]⟩

def ethTransferPayloadBuilder : PayloadBuilderFn := fun ctx =>
  some ⟨"Balances", "transfer_keep_alive",
    [.unnamedComposite (.bytes ctx.toAccountId), .u128 1]⟩

inductive TransactionCall
  | transfer
  | remark (sizeKb : UInt32)
deriving DecidableEq

structure TransactionRecipe where
  call : TransactionCall
deriving DecidableEq

namespace TransactionRecipe

def transfer : TransactionRecipe := ⟨.transfer⟩

def remark (size : UInt32) : TransactionRecipe := ⟨.remark size⟩

end TransactionRecipe

inductive TxPayloadBuilderSource
  | recipe (recipe : TransactionRecipe)
  | subCustom (f : PayloadBuilderFn)
  | ethCustom (f : PayloadBuilderFn)

namespace TxPayloadBuilderSource

def intoSubBuilder : TxPayloadBuilderSource → Option PayloadBuilderFn
  | .subCustom f => some f
  | .recipe ⟨.remark sizeKb⟩ => some (remarkPayloadBuilder sizeKb)
  | .recipe ⟨.transfer⟩ => some subTransferPayloadBuilder
  | .ethCustom _ => none

def intoEthBuilder : TxPayloadBuilderSource → Option PayloadBuilderFn
  | .ethCustom f => some f
  | .recipe ⟨.remark sizeKb⟩ => some (remarkPayloadBuilder sizeKb)
  | .recipe ⟨.transfer⟩ => some ethTransferPayloadBuilder
  | .subCustom _ => none

end TxPayloadBuilderSource

variable {sizeKb : UInt32} {ctx ctx' : TxPayloadBuildContext} {call : DynamicPayload}
  {source : TxPayloadBuilderSource} {f : PayloadBuilderFn}

theorem encode_getLast? (bs : List UInt8) : (Hex.encode bs).toList.getLast? =
    bs.getLast?.map fun b => Nat.digitChar (b.toNat % 16) := by
  rcases List.eq_nil_or_concat bs with rfl | ⟨init, b, rfl⟩
  · rfl
  · simp [Hex.encode, Hex.digits]

/-- The remark of an account says the last digit of its id over and over. -/
theorem remarkPayloadBuilder_eq : remarkPayloadBuilder sizeKb ctx =
    ctx.toAccountId.getLast?.map fun b => ⟨"System", "remark",
      [.bytes (List.replicate (sizeKb.toNat * 1024)
        (UInt8.ofNat (Nat.digitChar (b.toNat % 16)).toNat))]⟩ := by
  rw [remarkPayloadBuilder, encode_getLast?, Option.map_map]
  rfl

/-- A builder that a recipe stands for. -/
def OfRecipe (f : PayloadBuilderFn) : Prop :=
  (∃ sizeKb, f = remarkPayloadBuilder sizeKb) ∨ f = subTransferPayloadBuilder ∨
    f = ethTransferPayloadBuilder

theorem ofRecipe_sub {recipe : TransactionRecipe} (h : (TxPayloadBuilderSource.recipe
    recipe).intoSubBuilder = some f) : OfRecipe f := by
  rcases recipe with ⟨_ | sizeKb⟩ <;> cases h
  · exact Or.inr (Or.inl rfl)
  · exact Or.inl ⟨sizeKb, rfl⟩

theorem ofRecipe_eth {recipe : TransactionRecipe} (h : (TxPayloadBuilderSource.recipe
    recipe).intoEthBuilder = some f) : OfRecipe f := by
  rcases recipe with ⟨_ | sizeKb⟩ <;> cases h
  · exact Or.inr (Or.inr rfl)
  · exact Or.inl ⟨sizeKb, rfl⟩

/-- A recipe makes a call for every account id that is not empty. -/
theorem OfRecipe.isSome (h : OfRecipe f) (hne : ctx.toAccountId ≠ []) : (f ctx).isSome := by
  rcases h with ⟨sizeKb, rfl⟩ | rfl | rfl
  · rw [remarkPayloadBuilder_eq, Option.isSome_map, List.getLast?_isSome]
    exact hne
  · rfl
  · rfl

/-- A recipe reads nothing but the receiver: the transactions of one account make the same call. -/
theorem OfRecipe.congr (h : OfRecipe f) (hto : ctx.toAccountId = ctx'.toAccountId) :
    f ctx = f ctx' := by
  rcases h with ⟨sizeKb, rfl⟩ | rfl | rfl
  · rw [remarkPayloadBuilder, remarkPayloadBuilder, hto]
  · rw [subTransferPayloadBuilder, subTransferPayloadBuilder, hto]
  · rw [ethTransferPayloadBuilder, ethTransferPayloadBuilder, hto]

end TxTestTool
