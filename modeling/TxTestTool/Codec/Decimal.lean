import Mathlib.Data.Option.Basic
import Mathlib.Logic.Function.Basic

/-!
# Decimal text

Numbers are written without leading zeros. They are read with any number of them, after an
optional plus sign, if the result is below a bound.
-/

namespace Decimal

def unsigned : List Char → List Char
  | '+' :: cs => cs
  | cs => cs

def parse (bound : Nat) (s : String) : Option Nat :=
  let cs := unsigned s.toList
  if cs ≠ [] ∧ cs.all Char.isDigit ∧ Nat.ofDigitChars 10 cs 0 < bound then
    some (Nat.ofDigitChars 10 cs 0)
  else none

variable {n m bound : Nat} {s : String}

theorem isDigit_toDigits {c : Char} (h : c ∈ Nat.toDigits 10 n) : c.isDigit = true :=
  Nat.isDigit_of_mem_toDigits (by decide) (by decide) h

theorem unsigned_toDigits : unsigned (Nat.toDigits 10 n) = Nat.toDigits 10 n := by
  cases h : Nat.toDigits 10 n with
  | nil => rfl
  | cons c cs =>
      have hc : c.isDigit = true := isDigit_toDigits (h ▸ List.mem_cons_self ..)
      unfold unsigned
      split
      · rename_i heq
        cases heq
        cases hc
      · rfl

theorem parse_repr (h : n < bound) : parse bound n.repr = some n := by
  have hall : (Nat.toDigits 10 n).all Char.isDigit = true :=
    List.all_eq_true.mpr fun _ hc => isDigit_toDigits hc
  simp only [parse, Nat.toList_repr, unsigned_toDigits, Nat.ofDigitChars_ten_toDigits, hall,
    Nat.toDigits_ne_nil, h, ne_eq, not_false_eq_true, and_self, ↓reduceIte]

theorem parse_lt (h : parse bound s = some n) : n < bound := by
  simp only [parse, Option.ite_none_right_eq_some, Option.some.injEq] at h
  obtain ⟨⟨_, _, hlt⟩, rfl⟩ := h
  exact hlt

theorem repr_injective : Function.Injective Nat.repr := by
  intro n m h
  have hdigits : Nat.toDigits 10 n = Nat.toDigits 10 m := by
    rw [← Nat.toList_repr, ← Nat.toList_repr, h]
  rw [← Nat.ofDigitChars_ten_toDigits (n := n), hdigits, Nat.ofDigitChars_ten_toDigits]

end Decimal
