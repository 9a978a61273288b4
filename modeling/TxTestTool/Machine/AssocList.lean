import Mathlib.Data.List.AList

/-!
# The values of an association list

Counting and collecting the values of a map whose keys are only names. The order of the entries
carries no meaning, so the facts are stated up to permutation.
-/

namespace AList

variable {α β : Type*} {l : AList fun _ : α => β} {a : α} {b : β}

def values (l : AList fun _ : α => β) : List β := l.entries.map Sigma.snd

@[simp] theorem values_empty : (∅ : AList fun _ : α => β).values = [] := rfl

variable [DecidableEq α]

@[simp] theorem values_insert : (l.insert a b).values = b :: (l.erase a).values := rfl

theorem erase_of_notMem (h : a ∉ l) : l.erase a = l :=
  AList.ext (List.kerase_of_notMem_keys (by rwa [AList.mem_keys] at h))

theorem values_insert_of_notMem (h : a ∉ l) : (l.insert a b).values = b :: l.values := by
  rw [values_insert, erase_of_notMem h]

theorem values_perm_of_lookup (h : l.lookup a = some b) :
    l.values.Perm (b :: (l.erase a).values) := by
  have hmem : a ∈ l.keys := by
    rw [← AList.mem_keys, ← AList.lookup_isSome, h]; rfl
  obtain ⟨c, l₁, l₂, hnot, hl, he⟩ := List.exists_of_kerase hmem
  have hc : c = b := by
    have hd : List.dlookup a l.entries = some b := h
    rw [hl, List.dlookup_append, List.dlookup_eq_none.mpr hnot] at hd
    simpa using hd
  subst hc
  have hv : l.values = l₁.map Sigma.snd ++ c :: l₂.map Sigma.snd := by simp [values, hl]
  have hr : (l.erase a).values = l₁.map Sigma.snd ++ l₂.map Sigma.snd := by
    change (List.kerase a l.entries).map Sigma.snd = _
    rw [he, List.map_append]
  rw [hv, hr]
  exact List.perm_middle

theorem mem_values : b ∈ l.values ↔ ∃ a, l.lookup a = some b := by
  simp only [values, List.mem_map, Sigma.exists]
  constructor
  · rintro ⟨a, c, hmem, rfl⟩
    exact ⟨a, AList.mem_lookup_iff.mpr hmem⟩
  · rintro ⟨a, ha⟩
    exact ⟨a, b, AList.mem_lookup_iff.mp ha, rfl⟩

theorem mem_of_lookup (h : l.lookup a = some b) : a ∈ l := by
  rw [← AList.lookup_isSome, h]; rfl

theorem lookup_insert_eq (a' : α) :
    (l.insert a b).lookup a' = if a' = a then some b else l.lookup a' := by
  split
  · rename_i h; subst h; exact AList.lookup_insert l
  · rename_i h; exact AList.lookup_insert_ne h

theorem lookup_erase_eq (a' : α) :
    (l.erase a).lookup a' = if a' = a then none else l.lookup a' := by
  split
  · rename_i h; subst h; exact AList.lookup_erase _ l
  · rename_i h; exact AList.lookup_erase_ne h

/-! ## Entries as pairs -/

def pairs (l : AList fun _ : α => β) : List (α × β) := l.entries.map fun e => (e.1, e.2)

/-- A map read from a list of entries. A later entry replaces an earlier one. -/
def ofPairs (ps : List (α × β)) : AList fun _ : α => β := ps.foldl (fun l p => l.insert p.1 p.2) ∅

omit [DecidableEq α] in
theorem values_eq_pairs (l : AList fun _ : α => β) : l.values = l.pairs.map Prod.snd := by
  rw [values, pairs, List.map_map]
  rfl

theorem mem_pairs : (a, b) ∈ l.pairs ↔ l.lookup a = some b := by
  have hentries : (⟨a, b⟩ : Σ _ : α, β) ∈ l.entries ↔ l.lookup a = some b :=
    AList.mem_lookup_iff.symm
  rw [← hentries, pairs, List.mem_map]
  constructor
  · rintro ⟨⟨a', b'⟩, hmem, heq⟩
    cases heq
    exact hmem
  · exact fun hmem => ⟨_, hmem, rfl⟩

omit [DecidableEq α] in
theorem nodup_pairs (l : AList fun _ : α => β) : (l.pairs.map Prod.fst).Nodup := by
  have hkeys := l.nodupKeys
  rw [pairs, List.map_map]
  exact hkeys

theorem mem_foldl_insert {ps : List (α × β)} (m : AList fun _ : α => β) :
    a ∈ ps.foldl (fun l p => l.insert p.1 p.2) m ↔ a ∈ m ∨ a ∈ ps.map Prod.fst := by
  induction ps generalizing m with
  | nil => simp
  | cons p ps ih =>
      rw [List.foldl_cons, ih, AList.mem_insert, List.map_cons, List.mem_cons]
      tauto

theorem mem_ofPairs {ps : List (α × β)} : a ∈ ofPairs ps ↔ a ∈ ps.map Prod.fst := by
  rw [ofPairs, mem_foldl_insert]
  simp

theorem lookup_foldl_insert {ps : List (α × β)} (hnodup : (ps.map Prod.fst).Nodup)
    (m : AList fun _ : α => β) :
    (ps.foldl (fun l p => l.insert p.1 p.2) m).lookup a = some b ↔
      (a, b) ∈ ps ∨ a ∉ ps.map Prod.fst ∧ m.lookup a = some b := by
  induction ps generalizing m with
  | nil => simp
  | cons p ps ih =>
      obtain ⟨hp, hps⟩ := List.nodup_cons.mp hnodup
      rw [List.foldl_cons, ih hps, lookup_insert_eq, List.mem_cons, List.map_cons, List.mem_cons,
        not_or]
      by_cases ha : a = p.1
      · subst ha
        have hnot : (p.1, b) ∉ ps := fun hmem => hp (List.mem_map.mpr ⟨_, hmem, rfl⟩)
        simp [hp, hnot, Prod.ext_iff, eq_comm]
      · simp [ha, Prod.ext_iff]

theorem lookup_ofPairs {ps : List (α × β)} (hnodup : (ps.map Prod.fst).Nodup) :
    (ofPairs ps).lookup a = some b ↔ (a, b) ∈ ps := by
  rw [ofPairs, lookup_foldl_insert hnodup]
  simp

/-- What is found under a name was entered under it, whatever came in between. -/
theorem mem_of_lookup_foldl {ps : List (α × β)} (m : AList fun _ : α => β)
    (h : (ps.foldl (fun l p => l.insert p.1 p.2) m).lookup a = some b) :
    (a, b) ∈ ps ∨ m.lookup a = some b := by
  induction ps generalizing m with
  | nil => exact Or.inr h
  | cons p ps ih =>
      rcases ih (m.insert p.1 p.2) h with hmem | hlookup
      · exact Or.inl (List.mem_cons_of_mem _ hmem)
      · rw [lookup_insert_eq] at hlookup
        split at hlookup
        · rename_i ha
          cases hlookup
          exact Or.inl (ha ▸ List.mem_cons_self ..)
        · exact Or.inr hlookup

theorem mem_of_lookup_ofPairs {ps : List (α × β)} (h : (ofPairs ps).lookup a = some b) :
    (a, b) ∈ ps := by
  rcases mem_of_lookup_foldl ∅ h with hmem | hlookup
  · exact hmem
  · rw [AList.lookup_empty] at hlookup
    cases hlookup

theorem pairs_ofPairs_perm {ps : List (α × β)} (hnodup : (ps.map Prod.fst).Nodup) :
    (ofPairs ps).pairs.Perm ps := by
  apply (List.perm_ext_iff_of_nodup (ofPairs ps).nodup_pairs.of_map hnodup.of_map).mpr
  rintro ⟨a, b⟩
  rw [mem_pairs, lookup_ofPairs hnodup]

theorem pairs_perm {l' : AList fun _ : α => β} (h : ∀ a, l.lookup a = l'.lookup a) :
    l.pairs.Perm l'.pairs := by
  apply (List.perm_ext_iff_of_nodup l.nodup_pairs.of_map l'.nodup_pairs.of_map).mpr
  rintro ⟨a, b⟩
  rw [mem_pairs, mem_pairs, h a]

end AList
