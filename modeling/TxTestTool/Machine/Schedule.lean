import TxTestTool.Machine.Run

/-!
# Infinite runs and fairness

A fair run takes the inputs of a class again and again if they can happen again and again. What such
a run comes to is shown with one rule: a condition holds until an input of the class ends it.
-/

namespace Machine

variable {σ α : Type*} {M : Machine σ α}

structure Schedule (M : Machine σ α) where
  state : Nat → σ
  input : Nat → α
  step : ∀ n, M.step (state n) (input n) = some (state (n + 1))

namespace Schedule

variable {S : M.Schedule} {P Q R : σ → Prop} {help : α → Prop}

def Fair (S : M.Schedule) (help : α → Prop) : Prop :=
  (∀ n, ∃ m, n ≤ m ∧ ∃ a, help a ∧ (M.step (S.state m) a).isSome = true) →
    ∀ n, ∃ m, n ≤ m ∧ help (S.input m)

def LeadsTo (S : M.Schedule) (P Q : σ → Prop) : Prop :=
  ∀ n, P (S.state n) → ∃ m, n ≤ m ∧ Q (S.state m)

theorem invariant {ok : σ → α → Prop} (hok : ∀ n, ok (S.state n) (S.input n))
    (hstep : ∀ s a t, P s → ok s a → M.step s a = some t → P t) (h₀ : P (S.state 0)) (n : Nat) :
    P (S.state n) := by
  induction n with
  | zero => exact h₀
  | succ n ih => exact hstep _ _ _ ih (hok n) (S.step n)

theorem LeadsTo.trans (h : S.LeadsTo P Q) (h' : S.LeadsTo Q R) : S.LeadsTo P R := by
  intro n hn
  obtain ⟨m, hm, hq⟩ := h n hn
  obtain ⟨k, hk, hr⟩ := h' m hq
  exact ⟨k, Nat.le_trans hm hk, hr⟩

/-- The input changes nothing, and comes again and again. -/
def stutter {s : σ} {a : α} (h : M.step s a = some s) : M.Schedule :=
  ⟨fun _ => s, fun _ => a, fun _ => h⟩

/-- One step before the others. -/
def cons {s : σ} {a : α} (S : M.Schedule) (h : M.step s a = some (S.state 0)) : M.Schedule where
  state n := Nat.casesOn n s S.state
  input n := Nat.casesOn n a S.input
  step n := by
    cases n with
    | zero => exact h
    | succ n => exact S.step n

theorem Fair.cons {s : σ} {a : α} (hfair : S.Fair help) (h : M.step s a = some (S.state 0)) :
    (S.cons h).Fair help := by
  intro hagain n
  have htail : ∀ n, ∃ m, n ≤ m ∧ ∃ b, help b ∧ (M.step (S.state m) b).isSome = true := by
    intro n
    obtain ⟨_ | m, hm, hb⟩ := hagain (n + 1)
    · exact absurd hm (Nat.not_succ_le_zero n)
    · exact ⟨m, Nat.le_of_succ_le_succ hm, hb⟩
  obtain ⟨m, hm, hb⟩ := hfair htail n
  exact ⟨m + 1, Nat.le_succ_of_le hm, hb⟩

end Schedule

end Machine
