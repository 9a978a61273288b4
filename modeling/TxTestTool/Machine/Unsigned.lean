import Mathlib.Algebra.Group.Nat.Defs

/-!
# Unsigned arithmetic of a fixed width

Sums and products are computed exactly and then made to fit. A build with overflow checks panics
(`none`) on a result that is out of range, one without wraps it.
-/

namespace Unsigned

def fit (w : Nat) (checks : Bool) (n : Nat) : Option Nat :=
  if n < 2 ^ w then some n else if checks then none else some (n % 2 ^ w)

variable {w n m : Nat} {checks : Bool}

@[simp] theorem fit_of_lt (h : n < 2 ^ w) : fit w checks n = some n := if_pos h

theorem fit_checked (h : 2 ^ w ≤ n) : fit w true n = none := by
  simp [fit, Nat.not_lt.mpr h]

theorem fit_unchecked : fit w false n = some (n % 2 ^ w) := by
  unfold fit
  split
  · rename_i h
    rw [Nat.mod_eq_of_lt h]
  · rfl

theorem fit_lt (h : fit w checks n = some m) : m < 2 ^ w := by
  unfold fit at h
  split at h
  · rename_i hn
    cases h
    exact hn
  · split at h
    · cases h
    · cases h
      exact Nat.mod_lt _ (Nat.two_pow_pos w)

theorem fit_eq_self_iff : fit w checks n = some n ↔ n < 2 ^ w := ⟨fit_lt, fit_of_lt⟩

theorem fit_true_eq_some_iff : fit w true n = some m ↔ n = m ∧ n < 2 ^ w := by
  by_cases h : n < 2 ^ w
  · simp [h]
  · simp [fit_checked (Nat.not_lt.mp h), h]

/-- The two profiles agree on a sum that fits, and on no other. -/
theorem fit_map_profile_iff {β : Type*} {f : Nat → β} :
    (fit w true n).map f = (fit w false n).map f ↔ n < 2 ^ w := by
  by_cases h : n < 2 ^ w
  · simp [h]
  · simp [fit_checked (Nat.not_lt.mp h), fit_unchecked, h]

/-- A counter that is kept modulo the width, and its successor. -/
theorem fit_succ_mod (h : fit w checks (n % 2 ^ w + 1) = some m) : m = (n + 1) % 2 ^ w := by
  rw [← Nat.mod_add_mod]
  unfold fit at h
  split at h
  · rename_i hlt
    cases h
    rw [Nat.mod_eq_of_lt hlt]
  · split at h <;> cases h
    rfl

end Unsigned
