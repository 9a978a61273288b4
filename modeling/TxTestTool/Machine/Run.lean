import Mathlib.Data.List.Basic

/-!
# Partial machines and their runs

A machine is given by a partial step function. Which inputs can happen in a state is part of the
step: `step s a = none` says that `a` cannot happen in `s`. Interleavings are runs over lists of
inputs, so "for every interleaving" is a quantifier over input lists.
-/

structure Machine (σ α : Type*) where
  step : σ → α → Option σ

namespace Machine

variable {σ τ α β : Type*}

/-- The state after a list of inputs, if every one of them can happen in its turn. -/
def run (M : Machine σ α) (s : σ) : List α → Option σ
  | [] => some s
  | a :: as => (M.step s a).bind fun t => M.run t as

variable {M : Machine σ α} {N : Machine τ β}

@[simp] theorem run_nil {s} : M.run s [] = some s := rfl

theorem run_cons {s a as u} : M.run s (a :: as) = some u ↔
    ∃ t, M.step s a = some t ∧ M.run t as = some u := by
  simp [run, Option.bind_eq_some_iff]

theorem run_append {s as bs u} : M.run s (as ++ bs) = some u ↔
    ∃ t, M.run s as = some t ∧ M.run t bs = some u := by
  induction as generalizing s with
  | nil => simp
  | cons a as ih =>
      simp only [List.cons_append, run_cons, ih]
      constructor
      · rintro ⟨t, ht, v, hv, hu⟩
        exact ⟨v, ⟨t, ht, hv⟩, hu⟩
      · rintro ⟨v, ⟨t, ht, hv⟩, hu⟩
        exact ⟨t, ht, v, hv, hu⟩

theorem run_snoc {s as a u} : M.run s (as ++ [a]) = some u ↔
    ∃ t, M.run s as = some t ∧ M.step t a = some u := by
  simp [run_append, run_cons]

def Reaches (M : Machine σ α) (s t : σ) : Prop := ∃ as, M.run s as = some t

theorem Reaches.refl {s} : M.Reaches s s := ⟨[], rfl⟩

theorem Reaches.step {s t a u} (h : M.Reaches s t) (ht : M.step t a = some u) : M.Reaches s u := by
  obtain ⟨as, has⟩ := h
  exact ⟨as ++ [a], run_snoc.mpr ⟨t, has, ht⟩⟩

/-! ## Runs whose steps all meet a condition -/

/-- Every step of the run of `as` from `s` meets `ok`, which sees the inputs so far (`past` and
those already consumed), the state before the step and the input. -/
def Meets (M : Machine σ α) (ok : List α → σ → α → Prop) (past : List α) (s : σ) : List α → Prop
  | [] => True
  | a :: as => ok past s a ∧
      match M.step s a with
      | none => True
      | some t => M.Meets ok (past ++ [a]) t as

instance Meets.decidable {ok : List α → σ → α → Prop} [∀ past s a, Decidable (ok past s a)]
    (past : List α) (s : σ) : (as : List α) → Decidable (M.Meets ok past s as)
  | [] => isTrue trivial
  | a :: as =>
      match h : M.step s a with
      | none => decidable_of_iff (ok past s a) (by simp [Meets, h])
      | some t =>
          have : Decidable (M.Meets ok (past ++ [a]) t as) := Meets.decidable (past ++ [a]) t as
          decidable_of_iff (ok past s a ∧ M.Meets ok (past ++ [a]) t as) (by simp [Meets, h])

theorem Meets.cons {ok : List α → σ → α → Prop} {past s a as t}
    (h : M.Meets ok past s (a :: as)) (ht : M.step s a = some t) :
    ok past s a ∧ M.Meets ok (past ++ [a]) t as := by
  simpa [Meets, ht] using h

theorem Meets.of_forall {ok : List α → σ → α → Prop} (hall : ∀ past s a, ok past s a) {past s as} :
    M.Meets ok past s as := by
  induction as generalizing past s with
  | nil => trivial
  | cons a as ih =>
      refine ⟨hall past s a, ?_⟩
      cases M.step s a with
      | none => trivial
      | some t => exact ih

/-- An invariant of the inputs so far and the state, kept by every step that meets `ok`, holds at
the end of every run whose steps meet `ok`. -/
theorem Meets.invariant {ok : List α → σ → α → Prop} {Inv : List α → σ → Prop}
    (hstep : ∀ past s a t, Inv past s → ok past s a → M.step s a = some t → Inv (past ++ [a]) t)
    {past s as t} (h₀ : Inv past s) (hok : M.Meets ok past s as) (hrun : M.run s as = some t) :
    Inv (past ++ as) t := by
  induction as generalizing past s with
  | nil => simp only [run_nil, Option.some.injEq] at hrun; subst t; simpa using h₀
  | cons a as ih =>
      obtain ⟨u, hu, hrun⟩ := run_cons.mp hrun
      obtain ⟨ha, hok⟩ := hok.cons hu
      simpa using ih (hstep _ _ _ _ h₀ ha hu) hok hrun

/-- A step that violates `ok` leads into `P`, which no step leaves: then a run meets `ok` or ends
in `P`. -/
theorem Meets.or_absorbed {ok : List α → σ → α → Prop} {Inv P : σ → Prop}
    (hinv : ∀ s a t, Inv s → M.step s a = some t → Inv t)
    (hkeep : ∀ s a t, Inv s → P s → M.step s a = some t → P t)
    (henter : ∀ past s a t, Inv s → ¬ ok past s a → M.step s a = some t → P t)
    {past s as t} (h₀ : Inv s) (hrun : M.run s as = some t) : M.Meets ok past s as ∨ P t := by
  have hstay : ∀ {s as}, Inv s ∧ P s → M.run s as = some t → P t := by
    intro s as
    induction as generalizing s with
    | nil => intro hp h; simp only [run_nil, Option.some.injEq] at h; exact h ▸ hp.2
    | cons a as ih =>
        intro hp h
        obtain ⟨u, hu, h⟩ := run_cons.mp h
        exact ih ⟨hinv _ _ _ hp.1 hu, hkeep _ _ _ hp.1 hp.2 hu⟩ h
  induction as generalizing past s with
  | nil => exact Or.inl trivial
  | cons a as ih =>
      obtain ⟨u, hu, hrun⟩ := run_cons.mp hrun
      by_cases ha : ok past s a
      · rcases ih (hinv _ _ _ h₀ hu) hrun with hok | hp
        · exact Or.inl ⟨ha, by simpa only [hu] using hok⟩
        · exact Or.inr hp
      · exact Or.inr (hstay ⟨hinv _ _ _ h₀ hu, henter _ _ _ _ h₀ ha hu⟩ hrun)

/-- Inputs that leave the state as it is can be left out of a run. -/
theorem Meets.run_filter {ok : List α → σ → α → Prop} {keep : α → Bool}
    (hskip : ∀ past s a, ok past s a → keep a = false → M.step s a = some s)
    {past s as} (hok : M.Meets ok past s as) : M.run s (as.filter keep) = M.run s as := by
  induction as generalizing past s with
  | nil => rfl
  | cons a as ih =>
      cases hk : keep a with
      | false =>
          have hstep := hskip past s a hok.1 hk
          rw [List.filter_cons_of_neg (by simp [hk]), ih (hok.cons hstep).2]
          simp [run, hstep]
      | true =>
          rw [List.filter_cons_of_pos hk]
          cases hu : M.step s a with
          | none => simp [run, hu]
          | some u => simpa [run, hu] using ih (hok.cons hu).2

theorem run_history_invariant {Inv : List α → σ → Prop}
    (hstep : ∀ past s a t, Inv past s → M.step s a = some t → Inv (past ++ [a]) t)
    {past s as t} (h₀ : Inv past s) (hrun : M.run s as = some t) : Inv (past ++ as) t := by
  have hok : M.Meets (fun _ _ _ => True) past s as := .of_forall fun _ _ _ => trivial
  exact Meets.invariant (fun past s a t hi _ ht => hstep past s a t hi ht) h₀ hok hrun

theorem run_invariant {Inv : σ → Prop}
    (hstep : ∀ s a t, Inv s → M.step s a = some t → Inv t)
    {s as t} (h₀ : Inv s) (hrun : M.run s as = some t) : Inv t := by
  have hok : M.Meets (fun _ _ _ => True) [] s as := .of_forall fun _ _ _ => trivial
  exact Meets.invariant (fun _ s a t hi _ ht => hstep s a t hi ht) h₀ hok hrun

/-- The steps of the inputs of one run are enough. -/
theorem run_invariant_of_mem {Inv : σ → Prop} {s as t}
    (hstep : ∀ s t, ∀ a ∈ as, Inv s → M.step s a = some t → Inv t)
    (h₀ : Inv s) (hrun : M.run s as = some t) : Inv t := by
  induction as generalizing s with
  | nil =>
      simp only [run_nil, Option.some.injEq] at hrun
      exact hrun ▸ h₀
  | cons a as ih =>
      obtain ⟨u, hu, hrun⟩ := run_cons.mp hrun
      have htail : ∀ s t, ∀ b ∈ as, Inv s → M.step s b = some t → Inv t :=
        fun s t b hb => hstep s t b (List.mem_cons_of_mem _ hb)
      exact ih htail (hstep s u a (List.mem_cons_self ..) h₀ hu) hrun

/-! ## Simulation -/

/-- A relation that is carried over by the steps of some inputs, and kept when `M` alone takes the
steps of the others, relates a run of `M` to the run of `N` over the former. -/
theorem run_project {N : Machine τ α} {R : σ → τ → Prop} {keep : α → Bool}
    (hkeep : ∀ s t a u, R s t → keep a = true → M.step s a = some u →
      ∃ v, N.step t a = some v ∧ R u v)
    (hskip : ∀ s t a u, R s t → keep a = false → M.step s a = some u → R u t)
    {s t as u} (h₀ : R s t) (hrun : M.run s as = some u) :
    ∃ v, N.run t (as.filter keep) = some v ∧ R u v := by
  induction as generalizing s t with
  | nil => simp only [run_nil, Option.some.injEq] at hrun; exact ⟨t, rfl, hrun ▸ h₀⟩
  | cons a as ih =>
      obtain ⟨x, hx, hrun⟩ := run_cons.mp hrun
      cases hk : keep a with
      | false =>
          rw [List.filter_cons_of_neg (by simp [hk])]
          exact ih (hskip s t a x h₀ hk hx) hrun
      | true =>
          obtain ⟨y, hy, hxy⟩ := hkeep s t a x h₀ hk hx
          obtain ⟨v, hv, huv⟩ := ih hxy hrun
          rw [List.filter_cons_of_pos hk]
          exact ⟨v, run_cons.mpr ⟨y, hy, hv⟩, huv⟩

/-- The inputs of the abstract machine that a run of `M` from `s` performs, when every step
performs the inputs `g s a`. -/
def translate (M : Machine σ α) (g : σ → α → List β) (s : σ) : List α → List β
  | [] => []
  | a :: as =>
      match M.step s a with
      | none => []
      | some t => g s a ++ M.translate g t as

theorem mem_translate {g : σ → α → List β} {s as b} (h : b ∈ M.translate g s as) :
    ∃ a ∈ as, ∃ t u, M.step t a = some u ∧ b ∈ g t a := by
  induction as generalizing s with
  | nil => cases h
  | cons a as ih =>
      cases hs : M.step s a with
      | none => simp [translate, hs] at h
      | some t =>
          simp only [translate, hs, List.mem_append] at h
          rcases h with h | h
          · exact ⟨a, List.mem_cons_self .., s, t, hs, h⟩
          · obtain ⟨c, hc, hrest⟩ := ih h
            exact ⟨c, List.mem_cons_of_mem _ hc, hrest⟩

/-- If every step of `M`, seen through `f`, is a run of `N`, then every run of `M` is a run of
`N`. -/
theorem run_translate {f : σ → τ} {g : σ → α → List β}
    (hsim : ∀ s a t, M.step s a = some t → N.run (f s) (g s a) = some (f t))
    {s as t} (hrun : M.run s as = some t) :
    N.run (f s) (M.translate g s as) = some (f t) := by
  induction as generalizing s with
  | nil => simp only [run_nil, Option.some.injEq] at hrun; subst t; rfl
  | cons a as ih =>
      obtain ⟨u, hu, hrun⟩ := run_cons.mp hrun
      simp only [translate, hu]
      exact run_append.mpr ⟨f u, hsim _ _ _ hu, ih hrun⟩

/-- The same for steps from states that satisfy an invariant. -/
theorem run_translate_of_invariant {Inv : σ → Prop} {f : σ → τ} {g : σ → α → List β}
    (hinv : ∀ s a t, Inv s → M.step s a = some t → Inv t)
    (hsim : ∀ s a t, Inv s → M.step s a = some t → N.run (f s) (g s a) = some (f t))
    {s as t} (h₀ : Inv s) (hrun : M.run s as = some t) :
    N.run (f s) (M.translate g s as) = some (f t) := by
  induction as generalizing s with
  | nil => simp only [run_nil, Option.some.injEq] at hrun; subst t; rfl
  | cons a as ih =>
      obtain ⟨u, hu, hrun⟩ := run_cons.mp hrun
      simp only [translate, hu]
      exact run_append.mpr ⟨f u, hsim _ _ _ h₀ hu, ih (hinv _ _ _ h₀ hu) hrun⟩

/-- An invariant of the inputs performed so far and the state. The steps of the inputs of one run
are enough. -/
theorem translate_invariant_of_mem {g : σ → α → List β} {Inv : List β → σ → Prop} {past s as t}
    (hstep : ∀ past s t, ∀ a ∈ as, Inv past s → M.step s a = some t → Inv (past ++ g s a) t)
    (h₀ : Inv past s) (hrun : M.run s as = some t) : Inv (past ++ M.translate g s as) t := by
  induction as generalizing past s with
  | nil =>
      simp only [run_nil, Option.some.injEq] at hrun
      subst t
      simpa [translate] using h₀
  | cons a as ih =>
      obtain ⟨u, hu, hrun⟩ := run_cons.mp hrun
      have htail : ∀ past s t, ∀ b ∈ as, Inv past s → M.step s b = some t →
          Inv (past ++ g s b) t :=
        fun past s t b hb => hstep past s t b (List.mem_cons_of_mem _ hb)
      simpa [translate, hu] using ih htail (hstep _ _ _ a (List.mem_cons_self ..) h₀ hu) hrun

theorem translate_invariant {g : σ → α → List β} {Inv : List β → σ → Prop}
    (hstep : ∀ past s a t, Inv past s → M.step s a = some t → Inv (past ++ g s a) t)
    {past s as t} (h₀ : Inv past s) (hrun : M.run s as = some t) :
    Inv (past ++ M.translate g s as) t :=
  translate_invariant_of_mem (fun past s t a _ => hstep past s a t) h₀ hrun

/-- The conditional rule: steps that meet `ok` in states that satisfy an invariant are runs of `N`,
with inputs that depend on the input of the step only. -/
theorem Meets.run_flatMap {ok : List α → σ → α → Prop} {Inv : σ → Prop} {f : σ → τ}
    {g : α → List β} (hinv : ∀ past s a t, Inv s → ok past s a → M.step s a = some t → Inv t)
    (hsim : ∀ past s a t, Inv s → ok past s a → M.step s a = some t →
      N.run (f s) (g a) = some (f t))
    {past s as t} (h₀ : Inv s) (hok : M.Meets ok past s as) (hrun : M.run s as = some t) :
    N.run (f s) (as.flatMap g) = some (f t) := by
  induction as generalizing past s with
  | nil => simp only [run_nil, Option.some.injEq] at hrun; subst t; rfl
  | cons a as ih =>
      obtain ⟨u, hu, hrun⟩ := run_cons.mp hrun
      obtain ⟨ha, hok⟩ := hok.cons hu
      rw [List.flatMap_cons]
      exact run_append.mpr ⟨f u, hsim _ _ _ _ h₀ ha hu, ih (hinv _ _ _ _ h₀ ha hu) hok hrun⟩

end Machine
