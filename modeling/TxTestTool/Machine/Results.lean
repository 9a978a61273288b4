import Mathlib.Data.List.Basic

/-!
# Lists of results that may fail

`List.mapM` in `Option`: all the results, if every one of them is there.
-/

namespace List

variable {α β γ : Type*} {f : α → Option β} {l : List α} {bs : List β}

theorem mapM_of_forall_eq {g : α → β} (h : ∀ a ∈ l, f a = some (g a)) :
    l.mapM f = some (l.map g) := by
  induction l with
  | nil => rfl
  | cons a l ih =>
      rw [mapM_cons, h a (mem_cons_self ..), ih fun x hx => h x (mem_cons_of_mem _ hx)]
      rfl

theorem mem_of_mapM (h : l.mapM f = some bs) {b : β} (hb : b ∈ bs) : ∃ a ∈ l, f a = some b := by
  induction l generalizing bs with
  | nil =>
      cases h
      cases hb
  | cons a l ih =>
      rw [mapM_cons] at h
      obtain ⟨c, hc, h⟩ := Option.bind_eq_some_iff.mp h
      obtain ⟨cs, hcs, h⟩ := Option.bind_eq_some_iff.mp h
      cases h
      rcases mem_cons.mp hb with rfl | hb
      · exact ⟨a, mem_cons_self .., hc⟩
      · obtain ⟨x, hx, hfx⟩ := ih hcs hb
        exact ⟨x, mem_cons_of_mem _ hx, hfx⟩

theorem exists_mem_of_mapM (h : l.mapM f = some bs) {a : α} (ha : a ∈ l) :
    ∃ b ∈ bs, f a = some b := by
  induction l generalizing bs with
  | nil => cases ha
  | cons x l ih =>
      rw [mapM_cons] at h
      obtain ⟨c, hc, h⟩ := Option.bind_eq_some_iff.mp h
      obtain ⟨cs, hcs, h⟩ := Option.bind_eq_some_iff.mp h
      cases h
      rcases mem_cons.mp ha with rfl | ha
      · exact ⟨c, mem_cons_self .., hc⟩
      · obtain ⟨b, hb, hab⟩ := ih hcs ha
        exact ⟨b, mem_cons_of_mem _ hb, hab⟩

theorem map_of_mapM {g : β → γ} {k : α → γ} (hg : ∀ a b, f a = some b → g b = k a)
    (h : l.mapM f = some bs) : bs.map g = l.map k := by
  induction l generalizing bs with
  | nil =>
      cases h
      rfl
  | cons a l ih =>
      rw [mapM_cons] at h
      obtain ⟨c, hc, h⟩ := Option.bind_eq_some_iff.mp h
      obtain ⟨cs, hcs, h⟩ := Option.bind_eq_some_iff.mp h
      cases h
      rw [map_cons, map_cons, hg a c hc, ih hcs]

/-- Results that lead back one by one lead back together. -/
theorem mapM_round_trip {g : β → Option α} {P : β → Prop}
    (h : ∀ a ∈ l, ∃ b, f a = some b ∧ P b ∧ g b = some a) :
    ∃ bs, l.mapM f = some bs ∧ (∀ b ∈ bs, P b) ∧ bs.mapM g = some l := by
  induction l with
  | nil => exact ⟨[], rfl, by simp, rfl⟩
  | cons a l ih =>
      obtain ⟨b, hf, hP, hg⟩ := h a (mem_cons_self ..)
      obtain ⟨bs, hfs, hPs, hgs⟩ := ih fun x hx => h x (mem_cons_of_mem _ hx)
      refine ⟨b :: bs, ?_, ?_, ?_⟩
      · rw [mapM_cons, hf, hfs]
        rfl
      · simpa using ⟨hP, hPs⟩
      · rw [mapM_cons, hg, hgs]
        rfl

theorem isSome_mapM (f : α → Option β) (l : List α) :
    (l.mapM f).isSome = l.all fun a => (f a).isSome := by
  induction l with
  | nil => rfl
  | cons a l ih =>
      rw [all_cons, ← ih, mapM_cons]
      cases f a with
      | none => rfl
      | some b => cases l.mapM f <;> rfl

theorem mapM_isSome (h : ∀ a ∈ l, (f a).isSome) : (l.mapM f).isSome := by
  rw [isSome_mapM, all_eq_true]
  exact h

theorem map_some_filterMap (h : ∀ a ∈ l, (f a).isSome) : (l.filterMap f).map some = l.map f := by
  induction l with
  | nil => rfl
  | cons a l ih =>
      obtain ⟨b, hb⟩ := Option.isSome_iff_exists.mp (h a (mem_cons_self ..))
      have htail := ih fun x hx => h x (mem_cons_of_mem a hx)
      rw [filterMap_cons, hb, map_cons, map_cons, htail, hb]

/-- What relates the results one by one relates the lists of them. -/
theorem mapM_forall₂ {g : α → Option γ} {R : β → γ → Prop} (h : l.mapM f = some bs)
    (hR : ∀ a ∈ l, ∀ b, f a = some b → ∃ c, g a = some c ∧ R b c) :
    ∃ cs, l.mapM g = some cs ∧ Forall₂ R bs cs := by
  induction l generalizing bs with
  | nil =>
      cases h
      exact ⟨[], rfl, .nil⟩
  | cons a l ih =>
      rw [mapM_cons] at h
      obtain ⟨b, hb, h⟩ := Option.bind_eq_some_iff.mp h
      obtain ⟨bs', hbs, h⟩ := Option.bind_eq_some_iff.mp h
      cases h
      obtain ⟨c, hc, hbc⟩ := hR a (mem_cons_self ..) b hb
      obtain ⟨cs, hcs, hrest⟩ := ih hbs fun x hx => hR x (mem_cons_of_mem _ hx)
      refine ⟨c :: cs, ?_, .cons hbc hrest⟩
      rw [mapM_cons, hc, hcs]
      rfl

theorem mapM_perm {l' : List α} (hl : l.Perm l') (h : l.mapM f = some bs) :
    ∃ bs', l'.mapM f = some bs' ∧ bs.Perm bs' := by
  have hall : ∀ a ∈ l, (f a).isSome := by
    intro a ha
    obtain ⟨b, _, hb⟩ := exists_mem_of_mapM h ha
    rw [hb]
    rfl
  have hbs : bs.map some = l.map f := map_of_mapM (fun a b hb => hb.symm) h
  obtain ⟨bs', hbs'⟩ := Option.isSome_iff_exists.mp
    (mapM_isSome fun a ha => hall a (hl.mem_iff.mpr ha))
  refine ⟨bs', hbs', ?_⟩
  have hmap : (bs.map some).Perm (bs'.map some) := by
    rw [hbs, map_of_mapM (fun a b hb => hb.symm) hbs']
    exact hl.map f
  simpa using hmap.filterMap id

/-- Filters that agree on related elements keep related lists, and so do maps. -/
theorem Forall₂.map_filter {R : α → β → Prop} {P : α → Bool} {Q : β → Bool} {f : α → γ} {g : β → γ}
    (h : Forall₂ R l bs) (hPQ : ∀ a ∈ l, ∀ b, R a b → P a = Q b ∧ (P a = true → f a = g b)) :
    (l.filter P).map f = (bs.filter Q).map g := by
  induction h with
  | nil => rfl
  | @cons a b l bs hab _ ih =>
      have htail := ih fun x hx => hPQ x (mem_cons_of_mem _ hx)
      obtain ⟨hsame, hfg⟩ := hPQ a (mem_cons_self ..) b hab
      cases hP : P a with
      | false =>
          have hQ : ¬ Q b = true := by rw [← hsame, hP]; exact Bool.false_ne_true
          rw [filter_cons_of_neg (by simp [hP]), filter_cons_of_neg hQ, htail]
      | true =>
          have hQ : Q b = true := hsame.symm.trans hP
          rw [filter_cons_of_pos hP, filter_cons_of_pos hQ, map_cons, map_cons, hfg hP, htail]

end List
