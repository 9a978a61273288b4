import Mathlib.Data.List.Perm.Basic
import Mathlib.Data.List.Sort
import TxTestTool.Machine.Chunk

/-!
# A stable sort that restores a round robin

Groups of `c` items each come one after the other, and the items of every group are numbered
`k, …, k + c - 1` in some order. Sorting them stably by number gives rounds: first the items
numbered `k` in the order of their groups, then those numbered `k + 1`, and so on.
-/

namespace RoundRobin

variable {α β : Type*} {key group : α → Nat} {l : List α}

theorem le_trans_key (key : α → Nat) (a b c : α) (hab : decide (key a ≤ key b) = true)
    (hbc : decide (key b ≤ key c) = true) : decide (key a ≤ key c) = true := by
  simp only [decide_eq_true_eq] at *
  omega

theorem le_total_key (key : α → Nat) (a b : α) :
    (decide (key a ≤ key b) || decide (key b ≤ key a)) = true := by
  simp only [Bool.or_eq_true, decide_eq_true_eq]
  omega

/-- Items with the same number stay in their order. -/
theorem filter_mergeSort (v : Nat) :
    (l.mergeSort fun a b => key a ≤ key b).filter (key · = v) = l.filter (key · = v) := by
  have hsorted : (l.filter (key · = v)).Pairwise fun a b => decide (key a ≤ key b) = true := by
    apply List.pairwise_of_forall_mem_list
    intro a ha b hb
    have hka := of_decide_eq_true (List.mem_filter.mp ha).2
    have hkb := of_decide_eq_true (List.mem_filter.mp hb).2
    simp [hka, hkb]
  have hsub := List.sublist_mergeSort (le_trans_key key) (le_total_key key) hsorted
    List.filter_sublist
  have hfilter := hsub.filter (key · = v)
  rw [List.filter_filter] at hfilter
  simp only [Bool.and_self] at hfilter
  have hperm := (List.mergeSort_perm l fun a b => key a ≤ key b).filter (key · = v)
  exact (hfilter.eq_of_length hperm.length_eq.symm).symm

theorem filter_lt_append (h : l.Pairwise fun a b => key a ≤ key b) (v : Nat) :
    l.filter (key · < v) ++ l.filter (v ≤ key ·) = l := by
  induction l with
  | nil => rfl
  | cons a l ih =>
      obtain ⟨ha, hl⟩ := List.pairwise_cons.mp h
      by_cases hlt : key a < v
      · have hnot : ¬ v ≤ key a := Nat.not_le.mpr hlt
        simp [hlt, hnot, ih hl]
      · have hle : v ≤ key a := Nat.not_lt.mp hlt
        have hnone : l.filter (key · < v) = [] := by
          apply List.filter_eq_nil_iff.mpr
          intro b hb
          have := ha b hb
          simp only [decide_eq_true_eq]
          omega
        have hrest := ih hl
        rw [hnone, List.nil_append] at hrest
        simp [hlt, hle, hnone, hrest]

/-- A sorted list is its items of each number in turn. -/
theorem flatMap_filter {k c : Nat} (h : l.Pairwise fun a b => key a ≤ key b)
    (hlow : ∀ a ∈ l, k ≤ key a) (hhigh : ∀ a ∈ l, key a < k + c) :
    (List.range c).flatMap (fun j => l.filter (key · = k + j)) = l := by
  have hfirst : ∀ c, (List.range c).flatMap (fun j => l.filter (key · = k + j)) =
      l.filter (key · < k + c) := by
    intro c
    induction c with
    | zero =>
        symm
        apply List.filter_eq_nil_iff.mpr
        intro a ha
        have := hlow a ha
        simp only [decide_eq_true_eq]
        omega
    | succ c ih =>
        rw [List.range_succ, List.flatMap_append, ih, List.flatMap_singleton]
        have hsplit := filter_lt_append (h.filter (key · < k + (c + 1))) (k + c)
        rw [List.filter_filter, List.filter_filter] at hsplit
        rw [← hsplit]
        congr 1 <;> apply List.filter_congr <;> intro a _ <;>
          simp only [← Bool.decide_and, decide_eq_decide] <;> omega
  rw [hfirst]
  apply List.filter_eq_self.mpr
  intro a ha
  simpa using hhigh a ha

theorem row_div {row columns j : Nat} (hj : j < columns) : (row * columns + j) / columns = row := by
  rw [Nat.mul_comm, Nat.mul_add_div (by omega), Nat.div_eq_of_lt hj, Nat.add_zero]

/-- The items of a table, row after row. -/
theorem flatMap_range_map (f : Nat → Nat → β) (rows columns : Nat) :
    (List.range rows).flatMap (fun i => (List.range columns).map (f i)) =
      (List.range (rows * columns)).map fun n => f (n / columns) (n % columns) := by
  induction rows with
  | zero => simp
  | succ rows ih =>
      rw [List.range_succ, List.flatMap_append, ih, List.flatMap_singleton, Nat.succ_mul,
        List.range_add, List.map_append, List.map_map]
      congr 1
      apply List.map_congr_left
      intro j hj
      have hlt := List.mem_range.mp hj
      simp [row_div hlt, Nat.mod_eq_of_lt hlt]

theorem countP_row {rows columns row : Nat} :
    (List.range (rows * columns)).countP (· / columns = row) = if row < rows then columns else 0 := by
  induction rows with
  | zero => simp
  | succ rows ih =>
      have hlast : ((List.range columns).map (rows * columns + ·)).countP (· / columns = row) =
          if row = rows then columns else 0 := by
        rw [List.countP_map]
        by_cases hr : row = rows
        · rw [if_pos hr, List.countP_eq_length.mpr, List.length_range]
          intro j hj
          simp [row_div (List.mem_range.mp hj), hr]
        · rw [if_neg hr, List.countP_eq_zero]
          intro j hj
          simp [row_div (List.mem_range.mp hj), Ne.symm hr]
      rw [Nat.succ_mul, List.range_add, List.countP_append, ih, hlast]
      split_ifs <;> omega

/-- All pairs of a group below `groups` and one of its `c` numbers, counted from `k` of the
group. -/
def table (k : Nat → Nat) (start groups c : Nat) : List (Nat × Nat) :=
  (Chunk.span start (start + groups)).flatMap fun g => (List.range c).map fun j => (g, k g + j)

theorem span_eq_map (start n : Nat) :
    Chunk.span start (start + n) = (List.range n).map (start + ·) := by
  rw [Chunk.span, Nat.add_sub_cancel_left, List.range_eq_range', List.map_add_range', Nat.add_zero]

theorem table_nodup (k : Nat → Nat) (start groups c : Nat) : (table k start groups c).Nodup := by
  apply List.nodup_flatMap.mpr
  constructor
  · intro g _
    exact List.nodup_range.map fun i j h => Nat.add_left_cancel (congrArg Prod.snd h)
  · have hdistinct : (Chunk.span start (start + groups)).Nodup := List.nodup_range' ..
    apply hdistinct.imp
    intro g g' hne p hp hp'
    obtain ⟨i, _, rfl⟩ := List.mem_map.mp hp
    obtain ⟨j, _, heq⟩ := List.mem_map.mp hp'
    exact hne (congrArg Prod.fst heq).symm

theorem table_filter {k start groups c j : Nat} (hj : j < c) :
    (table (fun _ => k) start groups c).filter (·.2 = k + j) =
      (Chunk.span start (start + groups)).map fun g => (g, k + j) := by
  have hone : ∀ g : Nat,
      ((List.range c).map fun i => (g, k + i)).filter (·.2 = k + j) = [(g, k + j)] := by
    intro g
    have hcomp : ((fun p : Nat × Nat => decide (p.2 = k + j)) ∘ fun i => (g, k + i)) =
        fun i => i == j := by
      funext i
      simp [beq_eq_decide]
    rw [List.filter_map, hcomp, List.filter_beq,
      List.count_eq_one_of_mem List.nodup_range (List.mem_range.mpr hj)]
    rfl
  rw [table, List.filter_flatMap]
  simp only [hone]
  exact List.flatMap_pure_eq_map _ _

theorem flatMap_filter_perm {groups : List Nat} {ps : List (Nat × Nat)} (hnodup : groups.Nodup)
    (hmem : ∀ p ∈ ps, p.1 ∈ groups) :
    (groups.flatMap fun g => ps.filter (·.1 = g)).Perm ps := by
  induction ps with
  | nil => simp
  | cons p ps ih =>
      have hone : (groups.flatMap fun g => (p :: ps).filter (·.1 = g)).Perm
          (p :: groups.flatMap fun g => ps.filter (·.1 = g)) :=
        Chunk.flatMap_perm_cons hnodup (hmem p (List.mem_cons_self ..))
          (fun g hg => by simp [Ne.symm hg]) (by simp)
      exact hone.trans ((ih fun q hq => hmem q (List.mem_cons_of_mem _ hq)).cons p)

/-- Items that make up a table group by group make it up. -/
theorem perm_table {k : Nat → Nat} {start groups c : Nat} {ps : List (Nat × Nat)}
    (hmem : ∀ p ∈ ps, p.1 ∈ Chunk.span start (start + groups))
    (hgroup : ∀ g ∈ Chunk.span start (start + groups),
      ((ps.filter (·.1 = g)).map (·.2)).Perm ((List.range c).map (k g + ·))) :
    ps.Perm (table k start groups c) := by
  have hnodup : (Chunk.span start (start + groups)).Nodup := List.nodup_range' ..
  refine (flatMap_filter_perm hnodup hmem).symm.trans (List.Perm.flatMap_left _ fun g hg => ?_)
  have hpair : ps.filter (·.1 = g) = ((ps.filter (·.1 = g)).map (·.2)).map (g, ·) := by
    have hid : ∀ p ∈ ps.filter (·.1 = g), ((g, ·) ∘ fun q : Nat × Nat => q.2) p = id p := by
      intro p hp
      have hfst : p.1 = g := of_decide_eq_true (List.mem_filter.mp hp).2
      simp [← hfst]
    rw [List.map_map, List.map_congr_left hid, List.map_id]
  rw [hpair]
  simpa [List.map_map, Function.comp_def] using (hgroup g hg).map (g, ·)

/-- Groups in their order, each with its numbers in any order, become rounds. -/
theorem mergeSort_rounds {k start groups c : Nat} (hgroups : (l.map group).Pairwise (· ≤ ·))
    (hperm : (l.map fun a => (group a, key a)).Perm (table (fun _ => k) start groups c)) :
    (l.mergeSort fun a b => key a ≤ key b).map (fun a => (group a, key a)) =
      (List.range (c * groups)).map fun i => (start + i % groups, k + i / groups) := by
  have hmem : ∀ a ∈ l, k ≤ key a ∧ key a < k + c := by
    intro a ha
    obtain ⟨g, _, hg⟩ := List.mem_flatMap.mp (hperm.subset (List.mem_map.mpr ⟨a, ha, rfl⟩))
    obtain ⟨j, hj, heq⟩ := List.mem_map.mp hg
    have hkey : k + j = key a := congrArg Prod.snd heq
    have hlt := List.mem_range.mp hj
    omega
  have hround : ∀ j, j < c → (l.filter (key · = k + j)).map (fun a => (group a, key a)) =
      (List.range groups).map fun i => (start + i, k + j) := by
    intro j hj
    have hpairs : ((l.filter (key · = k + j)).map fun a => (group a, key a)).Perm
        ((List.range groups).map fun i => (start + i, k + j)) := by
      have hfilter := hperm.filter (·.2 = k + j)
      rw [table_filter hj, span_eq_map, List.map_map, List.filter_map] at hfilter
      exact hfilter
    have hsame : (l.filter (key · = k + j)).map group = (List.range groups).map (start + ·) := by
      have hfst := hpairs.map Prod.fst
      rw [List.map_map, List.map_map] at hfst
      refine List.Perm.eq_of_pairwise (fun a b _ _ hab hba => Nat.le_antisymm hab hba) ?_ ?_ hfst
      · exact hgroups.sublist (List.filter_sublist.map _)
      · exact List.pairwise_le_range.map _ fun a b hab => Nat.add_le_add_left hab start
    calc (l.filter (key · = k + j)).map (fun a => (group a, key a))
        = ((l.filter (key · = k + j)).map group).map fun g => (g, k + j) := by
          rw [List.map_map]
          apply List.map_congr_left
          intro a ha
          have hk : key a = k + j := of_decide_eq_true (List.mem_filter.mp ha).2
          simp [hk]
      _ = (List.range groups).map fun i => (start + i, k + j) := by
          rw [hsame, List.map_map]
          rfl
  have hsorted : (l.mergeSort fun a b => key a ≤ key b).Pairwise fun a b => key a ≤ key b :=
    (List.pairwise_mergeSort (le_trans_key key) (le_total_key key) l).imp of_decide_eq_true
  have hsplit := flatMap_filter hsorted (fun a ha => (hmem a (List.mem_mergeSort.mp ha)).1)
    fun a ha => (hmem a (List.mem_mergeSort.mp ha)).2
  rw [← hsplit, List.map_flatMap, ← flatMap_range_map fun j i => (start + i, k + j)]
  apply List.flatMap_congr
  intro j hj
  rw [filter_mergeSort, hround j (List.mem_range.mp hj)]

end RoundRobin
