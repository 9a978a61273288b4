import Mathlib.Data.Option.Basic
import Mathlib.Logic.Function.Basic

/-!
# Hexadecimal text

Bytes are written with two lower-case digits each, and read in either case.
-/

namespace Hex

def digits (b : UInt8) : List Char :=
  [Nat.digitChar (b.toNat / 16), Nat.digitChar (b.toNat % 16)]

def encode (bs : List UInt8) : String := String.ofList (bs.flatMap digits)

def value (c : Char) : Option Nat :=
  if '0' ≤ c ∧ c ≤ '9' then some (c.toNat - 48)
  else if 'a' ≤ c ∧ c ≤ 'f' then some (c.toNat - 87)
  else if 'A' ≤ c ∧ c ≤ 'F' then some (c.toNat - 55)
  else none

def decodeChars : List Char → Option (List UInt8)
  | [] => some []
  | [_] => none
  | high :: low :: rest =>
      (value high).bind fun h => (value low).bind fun l =>
        (decodeChars rest).map fun bs => UInt8.ofNat (16 * h + l) :: bs

def decode (s : String) : Option (List UInt8) := decodeChars s.toList

theorem value_digitChar {n : Nat} (h : n < 16) : value (Nat.digitChar n) = some n := by
  have hall : ∀ k : Fin 16, value (Nat.digitChar k) = some k.val := by decide
  exact hall ⟨n, h⟩

theorem decodeChars_flatMap (bs : List UInt8) : decodeChars (bs.flatMap digits) = some bs := by
  induction bs with
  | nil => rfl
  | cons b bs ih =>
      have hb : b.toNat < 256 := b.toNat_lt
      have hhigh := value_digitChar (show b.toNat / 16 < 16 by omega)
      have hlow := value_digitChar (show b.toNat % 16 < 16 by omega)
      have hsum : UInt8.ofNat (16 * (b.toNat / 16) + b.toNat % 16) = b := by
        rw [Nat.div_add_mod, UInt8.ofNat_toNat]
      simp only [List.flatMap_cons, digits, List.cons_append, List.nil_append, decodeChars, hhigh,
        hlow, ih, Option.bind_some, Option.map_some, hsum]

@[simp] theorem decode_encode (bs : List UInt8) : decode (encode bs) = some bs := by
  simp [decode, encode, decodeChars_flatMap]

theorem encode_injective : Function.Injective encode := by
  intro as bs h
  have hdecode := congrArg decode h
  simpa using hdecode

end Hex
