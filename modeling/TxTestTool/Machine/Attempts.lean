import Mathlib.Data.List.Basic

/-!
# Loops over attempts

A loop makes at most `n` attempts. `body i` is what attempt `i` ends the loop with, or `none` when
the loop goes on to the next attempt.
-/

namespace Attempts

variable {β : Type*} {n i : Nat} {body : Nat → Option β} {r : β}

/-- The attempt that ends the loop, with its result. `none`: the loop has made all attempts. -/
def first (n : Nat) (body : Nat → Option β) : Option (Nat × β) :=
  (List.range n).findSome? fun i => (body i).map (i, ·)

theorem first_succ : first (n + 1) body = (first n body).or ((body n).map (n, ·)) := by
  rw [first, List.range_succ, List.findSome?_append]
  cases h : body n <;> simp [first, h]

theorem first_map_snd : (first n body).map Prod.snd = (List.range n).findSome? body := by
  rw [first, List.map_findSome?]
  congr 1
  funext i
  cases h : body i <;> simp [h]

theorem first_eq_none_iff : first n body = none ↔ ∀ j < n, body j = none := by
  simp [first, List.findSome?_eq_none_iff]

theorem first_of_ends (hi : i < n) (hr : body i = some r) (hbefore : ∀ j < i, body j = none) :
    first n body = some (i, r) := by
  induction n with
  | zero => cases hi
  | succ n ih =>
      rw [first_succ]
      rcases Nat.lt_succ_iff_lt_or_eq.mp hi with hlt | rfl
      · rw [ih hlt, Option.some_or]
      · rw [first_eq_none_iff.mpr hbefore, Option.none_or, hr, Option.map_some]

theorem first_spec (h : first n body = some (i, r)) :
    i < n ∧ body i = some r ∧ ∀ j < i, body j = none := by
  induction n with
  | zero => cases h
  | succ n ih =>
      rw [first_succ] at h
      cases hn : first n body with
      | some found =>
          rw [hn, Option.some_or, Option.some.injEq] at h
          obtain ⟨hlt, hrest⟩ := ih (hn.trans (congrArg some h))
          exact ⟨Nat.lt_succ_of_lt hlt, hrest⟩
      | none =>
          rw [hn, Option.none_or] at h
          obtain ⟨b, hb, heq⟩ := Option.map_eq_some_iff.mp h
          cases heq
          exact ⟨Nat.lt_succ_self _, hb, first_eq_none_iff.mp hn⟩

end Attempts
