import Mathlib.Data.Finset.Card

/-!
# Flow control by a window

A sender hands items to a receiver. An item is outstanding while the receiver holds it or while it
has been sent and not acknowledged. The sender spends one unit of credit for each item, and gets new
credit from an estimate of what is outstanding. An estimate that is not too low never lets more
than `N` items be outstanding.
-/

structure Window (α : Type*) where
  inside : Finset α
  unacked : Finset α
  credit : Nat

namespace Window

variable {α : Type*} [DecidableEq α]

def outstanding (w : Window α) : Finset α := w.inside ∪ w.unacked

inductive Step (N : Nat) (w : Window α) : Window α → Prop
  /-- Items arrive, leave or are acknowledged, and credit is given up. -/
  | settle {inside unacked credit} (hi : inside ⊆ w.outstanding) (hu : unacked ⊆ w.unacked)
      (hc : credit ≤ w.credit) : Step N w ⟨inside, unacked, credit⟩
  | send {a unacked credit} (hu : unacked ⊆ insert a w.unacked) (hc : credit + 1 = w.credit) :
      Step N w ⟨w.inside, unacked, credit⟩
  | grant {estimate} (he : w.outstanding.card ≤ estimate) :
      Step N w ⟨w.inside, w.unacked, N - estimate⟩

def Bounded (N : Nat) (w : Window α) : Prop := w.outstanding.card + w.credit ≤ N

variable {N : Nat} {w w' : Window α}

theorem Bounded.card_le (h : w.Bounded N) : w.outstanding.card ≤ N :=
  (Nat.le_add_right _ _).trans h

theorem Step.bounded (hs : Step N w w') (h : w.Bounded N) : w'.Bounded N := by
  cases hs with
  | @settle inside unacked credit hi hu hc =>
      have hsub : inside ∪ unacked ⊆ w.outstanding :=
        Finset.union_subset hi (hu.trans Finset.subset_union_right)
      exact (Nat.add_le_add (Finset.card_le_card hsub) hc).trans h
  | @send a unacked credit hu hc =>
      have hsub : w.inside ∪ unacked ⊆ insert a w.outstanding := by
        rw [outstanding, ← Finset.union_insert]
        exact Finset.union_subset_union_right hu
      have hcard : (w.inside ∪ unacked).card ≤ w.outstanding.card + 1 :=
        (Finset.card_le_card hsub).trans (Finset.card_insert_le a w.outstanding)
      unfold Bounded at h ⊢
      calc (w.inside ∪ unacked).card + credit
          ≤ w.outstanding.card + 1 + credit := Nat.add_le_add_right hcard credit
        _ = w.outstanding.card + w.credit := by rw [← hc]; omega
        _ ≤ N := h
  | @grant estimate he =>
      have hcard := h.card_le
      show w.outstanding.card + (N - estimate) ≤ N
      omega

theorem outstanding_card_le (w : Window α) : w.outstanding.card ≤ w.inside.card + w.unacked.card :=
  Finset.card_union_le _ _

end Window
