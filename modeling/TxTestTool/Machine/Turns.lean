import Mathlib.Data.List.Sort

/-!
# Taking turns

A list is sorted by a key. The keys of the elements of one group are its turns. When every group has
its turns from `k` on, one after the other, no prefix lets a group get more than one turn ahead.
-/

namespace Turns

variable {α β : Type*} [DecidableEq β] {l pre : List α} {key : α → Nat} {group : α → β} {g g' : β}
  {k c : Nat}

def turns (key : α → Nat) (group : α → β) (g : β) (l : List α) : List Nat :=
  (l.filter fun a => group a = g).map key

/-- The turns from `k` on. -/
def upTo (k m : Nat) : List Nat := (List.range m).map (k + ·)

@[simp] theorem length_upTo : (upTo k c).length = c := by simp [upTo]

theorem mem_upTo {n : Nat} : n ∈ upTo k c ↔ k ≤ n ∧ n < k + c := by
  simp only [upTo, List.mem_map, List.mem_range]
  constructor
  · rintro ⟨j, hj, rfl⟩
    omega
  · rintro ⟨hk, hc⟩
    exact ⟨n - k, by omega, by omega⟩

theorem upTo_pairwise (k m : Nat) : (upTo k m).Pairwise (· ≤ ·) := by
  refine List.pairwise_map.mpr (List.Pairwise.imp ?_ List.pairwise_lt_range)
  intro a b hab
  omega

theorem take_upTo {m : Nat} (hm : m ≤ c) : (upTo k c).take m = upTo k m := by
  rw [upTo, ← List.map_take, List.take_range, Nat.min_eq_left hm, upTo]

theorem prefix_upTo {ts : List Nat} (h : ts <+: upTo k c) : ts = upTo k ts.length := by
  have hle : ts.length ≤ c := by simpa using h.length_le
  exact (List.prefix_iff_eq_take.mp h).trans (take_upTo hle)

theorem turns_append (l l' : List α) :
    turns key group g (l ++ l') = turns key group g l ++ turns key group g l' := by
  simp [turns]

theorem turns_mono (key : α → Nat) (group : α → β) (g : β) (hpre : pre <+: l) :
    turns key group g pre <+: turns key group g l := by
  obtain ⟨rest, rfl⟩ := hpre
  rw [turns_append]
  exact List.prefix_append _ _

theorem mem_turns {n : Nat} (h : n ∈ turns key group g l) : ∃ a ∈ l, key a = n := by
  obtain ⟨a, ha, hn⟩ := List.mem_map.mp h
  exact ⟨a, (List.mem_filter.mp ha).1, hn⟩

/-- In a sorted list the turns of a group are known from what they are up to order. -/
theorem turns_eq_upTo (hsorted : l.Pairwise fun a b => key a ≤ key b)
    (hperm : (turns key group g l).Perm (upTo k c)) : turns key group g l = upTo k c := by
  have hpairwise : (turns key group g l).Pairwise (· ≤ ·) :=
    List.pairwise_map.mpr (hsorted.filter _)
  exact hperm.eq_of_pairwise (fun a b _ _ hab hba => Nat.le_antisymm hab hba) hpairwise
    (upTo_pairwise k c)

/-- The turns of a group in a prefix are the first ones. -/
theorem turns_in_order (hpre : pre <+: l) (h : turns key group g l = upTo k c) :
    turns key group g pre = upTo k (turns key group g pre).length :=
  prefix_upTo (c := c) (h ▸ turns_mono key group g hpre)

/-- No group gets more than one turn ahead of another. -/
theorem balanced (hsorted : l.Pairwise fun a b => key a ≤ key b) (hpre : pre <+: l)
    (h : turns key group g l = upTo k c) (h' : turns key group g' l = upTo k c) :
    (turns key group g pre).length ≤ (turns key group g' pre).length + 1 := by
  by_contra hlt
  have hle : (turns key group g pre).length ≤ c := by
    have hlength := (turns_mono key group g hpre).length_le
    rwa [h, length_upTo] at hlength
  obtain ⟨rest, rfl⟩ := hpre
  -- a turn that `g` has had, and an earlier one that `g'` still has to come
  have hhad : k + (turns key group g' pre).length + 1 ∈ turns key group g pre := by
    rw [turns_in_order (List.prefix_append pre rest) h, mem_upTo]
    omega
  have hcome : k + (turns key group g' pre).length ∈ turns key group g' rest := by
    have hall : k + (turns key group g' pre).length ∈ turns key group g' (pre ++ rest) := by
      rw [h', mem_upTo]
      omega
    rw [turns_append] at hall
    refine (List.mem_append.mp hall).resolve_left fun hpast => ?_
    have hlist := turns_in_order (List.prefix_append pre rest) h'
    have hin : k + (turns key group g' pre).length ∈ upTo k (turns key group g' pre).length := by
      rw [← hlist]
      exact hpast
    have hbound := (mem_upTo.mp hin).2
    omega
  obtain ⟨a, ha, hkey⟩ := mem_turns hhad
  obtain ⟨b, hb, hkey'⟩ := mem_turns hcome
  have hab := (List.pairwise_append.mp hsorted).2.2 a ha b hb
  omega

end Turns
