import Mathlib.Algebra.BigOperators.Group.List.Basic
import Mathlib.Algebra.GroupWithZero.Nat
import TxTestTool.Machine.AssocList

/-!
# Counting with a map

A map from the elements of a list to how often they occur, built one element after the other. Its
numbers do not depend on the order of the list.
-/

namespace AList

variable {α : Type*} [DecidableEq α]

/-- `*map.entry(a).or_default() += 1` -/
def bump (m : AList fun _ : α => Nat) (a : α) : AList fun _ : α => Nat :=
  m.insert a ((m.lookup a).getD 0 + 1)

def histogram (l : List α) : AList fun _ : α => Nat := l.foldl bump ∅

/-- The number that a map holds for `a`, zero when it holds none. -/
def freq (m : AList fun _ : α => Nat) (a : α) : Nat := (m.lookup a).getD 0

/-- The numbers of a map, weighted by `f`. -/
def weigh (m : AList fun _ : α => Nat) (f : α → Nat) : Nat :=
  (m.pairs.map fun p => p.2 * f p.1).sum

def total (m : AList fun _ : α => Nat) : Nat := m.weigh fun _ => 1

variable {m : AList fun _ : α => Nat} {l l' : List α} {a : α} {f : α → Nat}

theorem freq_bump (b : α) : (m.bump a).freq b = m.freq b + if b = a then 1 else 0 := by
  unfold freq bump
  rw [lookup_insert_eq]
  split
  · rename_i h
    rw [h]
    rfl
  · rfl

theorem weigh_insert {n : Nat} :
    (m.insert a n).weigh f + m.freq a * f a = m.weigh f + n * f a := by
  have hinsert : (m.insert a n).weigh f = n * f a + (m.erase a).weigh f := rfl
  have herase : m.weigh f = m.freq a * f a + (m.erase a).weigh f := by
    unfold freq
    cases hl : m.lookup a with
    | none => rw [erase_of_notMem (lookup_eq_none.mp hl), Option.getD_none, Nat.zero_mul, Nat.zero_add]
    | some k =>
        obtain ⟨c, l₁, l₂, hfree, hentries, hrest⟩ := List.exists_of_kerase
          (mem_keys.mp (mem_of_lookup hl))
        have hc : c = k := by
          have hd : List.dlookup a m.entries = some k := hl
          rw [hentries, List.dlookup_append, List.dlookup_eq_none.mpr hfree] at hd
          simpa using hd
        subst hc
        have hrest : (m.erase a).entries = l₁ ++ l₂ := hrest
        simp only [weigh, pairs, hentries, hrest, List.map_append, List.map_cons, List.sum_append,
          List.sum_cons, Option.getD_some]
        omega
  rw [hinsert, herase]
  omega

theorem weigh_bump : (m.bump a).weigh f = m.weigh f + f a := by
  have h : (m.insert a (m.freq a + 1)).weigh f + m.freq a * f a =
      m.weigh f + (m.freq a + 1) * f a := weigh_insert
  rw [Nat.add_mul, Nat.one_mul] at h
  show (m.insert a (m.freq a + 1)).weigh f = _
  omega

theorem freq_foldl (b : α) : (l.foldl bump m).freq b = m.freq b + l.count b := by
  induction l generalizing m with
  | nil => rfl
  | cons a l ih =>
      rw [List.foldl_cons, ih, freq_bump, List.count_cons]
      by_cases hb : b = a
      · subst hb
        simp only [↓reduceIte, beq_self_eq_true]
        omega
      · simp only [hb, ↓reduceIte, beq_iff_eq, Ne.symm hb, Nat.add_zero]

theorem weigh_foldl : (l.foldl bump m).weigh f = m.weigh f + (l.map f).sum := by
  induction l generalizing m with
  | nil => rfl
  | cons a l ih =>
      rw [List.foldl_cons, ih, weigh_bump, List.map_cons, List.sum_cons, Nat.add_assoc]

@[simp] theorem freq_histogram (b : α) : (histogram l).freq b = l.count b := by
  rw [histogram, freq_foldl]
  exact Nat.zero_add _

@[simp] theorem weigh_histogram : (histogram l).weigh f = (l.map f).sum := by
  rw [histogram, weigh_foldl]
  exact Nat.zero_add _

@[simp] theorem total_histogram : (histogram l).total = l.length := by
  rw [total, weigh_histogram]
  induction l with
  | nil => rfl
  | cons a l ih => rw [List.map_cons, List.sum_cons, ih, List.length_cons, Nat.add_comm]

/-- What occurs is a key, and nothing else is. -/
theorem mem_foldl (b : α) : b ∈ l.foldl bump m ↔ b ∈ m ∨ b ∈ l := by
  induction l generalizing m with
  | nil => simp
  | cons a l ih =>
      rw [List.foldl_cons, ih, bump, mem_insert, List.mem_cons]
      constructor
      · rintro ((h | h) | h)
        · exact Or.inr (Or.inl h)
        · exact Or.inl h
        · exact Or.inr (Or.inr h)
      · rintro (h | h | h)
        · exact Or.inl (Or.inr h)
        · exact Or.inl (Or.inl h)
        · exact Or.inr h

theorem mem_histogram (b : α) : b ∈ histogram l ↔ b ∈ l := by
  rw [histogram, mem_foldl]
  simp

/-- The order of the list leaves no trace. -/
theorem lookup_histogram_perm (h : l.Perm l') (b : α) :
    (histogram l).lookup b = (histogram l').lookup b := by
  have hfreq : (histogram l).freq b = (histogram l').freq b := by
    rw [freq_histogram, freq_histogram, h.count_eq]
  have hmem : b ∈ histogram l ↔ b ∈ histogram l' := by
    rw [mem_histogram, mem_histogram, h.mem_iff]
  by_cases hb : b ∈ histogram l
  · obtain ⟨n, hn⟩ := Option.isSome_iff_exists.mp (lookup_isSome.mpr hb)
    obtain ⟨n', hn'⟩ := Option.isSome_iff_exists.mp (lookup_isSome.mpr (hmem.mp hb))
    rw [freq, freq, hn, hn'] at hfreq
    rw [hn, hn']
    exact congrArg some hfreq
  · rw [lookup_eq_none.mpr hb, lookup_eq_none.mpr (mt hmem.mpr hb)]

/-- Counting list after list counts their concatenation. -/
theorem foldl_foldl {β : Type*} (g : β → List α) (bs : List β) :
    bs.foldl (fun m b => (g b).foldl bump m) m = (bs.flatMap g).foldl bump m := by
  induction bs generalizing m with
  | nil => rfl
  | cons b bs ih => rw [List.foldl_cons, ih, List.flatMap_cons, List.foldl_append]

end AList
