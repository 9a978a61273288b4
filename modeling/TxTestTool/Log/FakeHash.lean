import TxTestTool.Codec.Hex
import TxTestTool.Codec.Serde

/-!
# The hashes of the fake chain
-/

namespace TxTestTool

structure FakeHash where
  bytes : List UInt8
  length_eq : bytes.length = 4
deriving DecidableEq

namespace FakeHash

/-- `u32::to_le_bytes`. -/
def ofIndex (index : Nat) : FakeHash where
  bytes := [UInt8.ofNat index, UInt8.ofNat (index / 2 ^ 8), UInt8.ofNat (index / 2 ^ 16),
    UInt8.ofNat (index / 2 ^ 24)]
  length_eq := rfl

/-- `into = "String"` and `try_from = "String"` -/
def textForm : TextForm FakeHash where
  write h := Hex.encode h.bytes
  read s := (Hex.decode s).bind fun bytes => if h : bytes.length = 4 then some ⟨bytes, h⟩ else none
  read_write h := by simp [h.length_eq]

end FakeHash

end TxTestTool
