import Mathlib.Data.List.Basic
import Mathlib.Data.List.Nodup

/-!
# Cutting a range into chunks

The indices below `n` are dealt out to `t` workers. Worker `i` gets those from `i * n / t` up to
`(i + 1) * n / t`, so that the chunks differ in length by one at most.
-/

namespace Chunk

/-- The indices from `start` up to `stop`. -/
def span (start stop : Nat) : List Nat := List.range' start (stop - start)

@[simp] theorem mem_span {start stop i : Nat} : i ∈ span start stop ↔ start ≤ i ∧ i < stop := by
  simp only [span, List.mem_range'_1]
  omega

theorem nodup_span (start stop : Nat) : (span start stop).Nodup := List.nodup_range'

theorem length_span (start stop : Nat) : (span start stop).length = stop - start :=
  List.length_range'

theorem span_append {a b c : Nat} (hab : a ≤ b) (hbc : b ≤ c) : span a b ++ span b c = span a c := by
  have hb : b = a + (b - a) := by omega
  have hc : c - a = (b - a) + (c - b) := by omega
  rw [span, span, span, hc, ← List.range'_append_1, ← hb]

theorem map_add_span (k a b : Nat) : (span a b).map (k + ·) = span (k + a) (k + b) := by
  rw [span, span, List.map_add_range', Nat.add_sub_add_left]

/-- The products that bound the chunks are below that of the last one. -/
theorem bounds_le {n t i : Nat} (hi : i < t) : i * n ≤ t * n ∧ (i + 1) * n ≤ t * n :=
  ⟨Nat.mul_le_mul_right n (Nat.le_of_lt hi), Nat.mul_le_mul_right n hi⟩

def chunk (n t i : Nat) : List Nat := span (i * n / t) ((i + 1) * n / t)

theorem flatMap_first_chunks (n t k : Nat) :
    (List.range k).flatMap (chunk n t) = span 0 (k * n / t) := by
  induction k with
  | zero => simp [span]
  | succ k ih =>
      have hle : k * n / t ≤ (k + 1) * n / t :=
        Nat.div_le_div_right (Nat.mul_le_mul_right n (Nat.le_succ k))
      rw [List.range_succ, List.flatMap_append, ih, List.flatMap_singleton, chunk,
        span_append (Nat.zero_le _) hle]

/-- Every index is in exactly one chunk, and the chunks come in the order of the indices. -/
theorem flatMap_chunk {n t : Nat} (h : 0 < t) :
    (List.range t).flatMap (chunk n t) = List.range n := by
  rw [flatMap_first_chunks, Nat.mul_div_cancel_left n h, span, Nat.sub_zero,
    List.range_eq_range']

/-- There are no more workers than indices. -/
theorem flatMap_chunk_min {n p : Nat} (hp : 1 ≤ p) :
    (List.range (min n p)).flatMap (chunk n (min n p)) = List.range n := by
  rcases Nat.eq_zero_or_pos n with rfl | hpos
  · simp
  · exact flatMap_chunk (by omega)

/-- When only one worker has items, they are those of all workers. -/
theorem flatMap_single {ι α : Type*} {workers : List ι} {f : ι → List α} {i : ι}
    (hnodup : workers.Nodup) (hi : i ∈ workers) (hnone : ∀ j ∈ workers, j ≠ i → f j = []) :
    workers.flatMap f = f i := by
  obtain ⟨before, after, rfl⟩ := List.append_of_mem hi
  have hne := (List.nodup_cons.mp (List.nodup_middle.mp hnodup)).1
  have hbefore : before.flatMap f = [] := by
    refine List.flatMap_eq_nil_iff.mpr fun j hj => hnone j (List.mem_append_left _ hj) ?_
    rintro rfl
    exact hne (List.mem_append_left _ hj)
  have hafter : after.flatMap f = [] := by
    refine List.flatMap_eq_nil_iff.mpr fun j hj => hnone j (by simp [hj]) ?_
    rintro rfl
    exact hne (List.mem_append_right _ hj)
  rw [List.flatMap_append, List.flatMap_cons, hbefore, hafter, List.nil_append, List.append_nil]

/-- One more item for one of the workers is one more item of them all. -/
theorem flatMap_perm_cons {ι α : Type*} [DecidableEq ι] {workers : List ι} {f f' : ι → List α}
    {i : ι} {x : α} (hnodup : workers.Nodup) (hi : i ∈ workers)
    (hsame : ∀ j, j ≠ i → f' j = f j) (hmore : (f' i).Perm (x :: f i)) :
    (workers.flatMap f').Perm (x :: workers.flatMap f) := by
  have hsplit : ∀ g : ι → List α,
      (workers.flatMap g).Perm (g i ++ (workers.erase i).flatMap g) := fun g =>
    (List.perm_cons_erase hi).flatMap_right g
  have hrest : (workers.erase i).flatMap f' = (workers.erase i).flatMap f := by
    apply List.flatMap_congr
    intro j hj
    exact hsame j (hnodup.mem_erase_iff.mp hj).1
  have hone := hmore.append_right ((workers.erase i).flatMap f)
  have hall := hsplit f'
  rw [hrest] at hall
  exact hall.trans (hone.trans ((hsplit f).symm.cons x))

end Chunk
