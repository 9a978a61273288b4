import Mathlib.Data.List.Perm.Subperm
import TxTestTool.Scenario.Tasks

/-!
# Tasks that share the nonces of an account

A chunk may end within the transactions of one account, so that several tasks ask the sink for its
nonces. Whatever their order, every account gets each of its nonces once.
-/

namespace TxTestTool.BuildTasks

variable {S H : Type*} {build : BuildTransaction S H} {next : S → String → Nat} {plan : BuildPlan}
  {s s' : State S H} {sink : S} {is : List Nat} {threadIdx i : Nat} {a : String}

/-- Parameter `i` is one of the account. -/
def owns (plan : BuildPlan) (a : String) (i : Nat) : Bool := (plan.params[i]?).any (·.account = a)

/-- How many transactions of the account are to be built. -/
def quota (plan : BuildPlan) (a : String) : Nat :=
  (List.range plan.params.length).countP (owns plan a)

def State.nonces (plan : BuildPlan) (s : State S H) (a : String) : List Nat :=
  ((s.all plan).filter fun e => owns plan a e.1).map (·.2.tx.nonce)

/-- No task is stuck before the end of its chunk. -/
def State.Progress (build : BuildTransaction S H) (plan : BuildPlan) (s : State S H) : Prop :=
  ∀ threadIdx < plan.chunks.length, ¬ s.Ended plan threadIdx →
    (step build plan s threadIdx).isSome

/-- The result holds one task for each parameter, built from it. -/
def State.BuiltOnce (build : BuildTransaction S H) (plan : BuildPlan) (s : State S H) : Prop :=
  ∃ tasks : List (DefaultTxTask H), (s.transactions plan).Perm tasks ∧
    List.Forall₂ (fun params task => ∃ s₀ s₁, build s₀ params = some (s₁, task)) plan.params tasks

/-- The nonces that the sink has handed out so far. -/
structure Handed (next : S → String → Nat) (sink : S) (plan : BuildPlan) (s : State S H) :
    Prop where
  next_eq : ∀ a, next s.sink a = next sink a + (s.nonces plan a).length
  nonces : ∀ a,
    (s.nonces plan a).Perm ((List.range (s.nonces plan a).length).map (next sink a + ·))

/-- One more of a row of consecutive numbers. -/
theorem consecutive_cons {k : Nat} {l l' : List Nat}
    (h : l.Perm ((List.range l.length).map (k + ·))) (hmore : l'.Perm ((k + l.length) :: l)) :
    l'.Perm ((List.range l'.length).map (k + ·)) := by
  rw [hmore.length_eq, List.length_cons, List.range_succ, List.map_append]
  exact hmore.trans ((h.cons _).trans (List.perm_append_singleton _ _).symm)

theorem nonces_length : (s.nonces plan a).length = ((s.all plan).map (·.1)).countP (owns plan a) := by
  rw [State.nonces, List.length_map, List.countP_map, List.countP_eq_length_filter]
  rfl

/-- The next parameter of a task has not been built yet. -/
theorem Inv.pending (h : Inv build plan s) (hexact : Exact plan)
    (hi : (chunk plan threadIdx)[(s.built threadIdx).length]? = some i) :
    (i :: (s.all plan).map (·.1)).Subperm (List.range plan.params.length) := by
  have hlt : threadIdx < plan.chunks.length := by
    by_contra hge
    simp [chunk, Nat.not_lt.mp hge] at hi
  let first : Nat → List Nat := fun j => (s.built j).map (·.1)
  let first' := Function.update first threadIdx (first threadIdx ++ [i])
  have hself : first' threadIdx = first threadIdx ++ [i] := Function.update_self ..
  have hother : ∀ j, j ≠ threadIdx → first' j = first j := fun j hj =>
    Function.update_of_ne hj _ _
  have hperm : ((List.range plan.chunks.length).flatMap first').Perm
      (i :: (List.range plan.chunks.length).flatMap first) := by
    apply Chunk.flatMap_perm_cons List.nodup_range (List.mem_range.mpr hlt) hother
    rw [hself]
    exact List.perm_append_singleton _ _
  have hsub : ((List.range plan.chunks.length).flatMap first').Sublist
      (List.range plan.params.length) := by
    rw [← hexact, ← range_flatMap_chunk]
    apply List.Sublist.flatMap_right
    intro j _
    by_cases hj : j = threadIdx
    · subst hj
      rw [hself]
      exact (extend_first (h.first j) (by simpa [first] using hi)).sublist
    · rw [hother j hj]
      exact (h.first j).sublist
  rw [State.all, List.map_flatMap]
  exact hperm.symm.subperm.trans hsub.subperm

theorem Inv.pending_lt (h : Inv build plan s) (hexact : Exact plan)
    (hi : (chunk plan threadIdx)[(s.built threadIdx).length]? = some i) :
    ∃ params, plan.params[i]? = some params := by
  have hmem := (h.pending hexact hi).subset (List.mem_cons_self ..)
  exact ⟨_, List.getElem?_eq_getElem (List.mem_range.mp hmem)⟩

/-- The sink has a nonce left for the next parameter of a task. -/
theorem Handed.next_lt (h : Handed next sink plan s) (hinv : Inv build plan s)
    (hexact : Exact plan)
    (hquota : ∀ p ∈ plan.params, next sink p.account + quota plan p.account ≤ 2 ^ 128)
    (hi : (chunk plan threadIdx)[(s.built threadIdx).length]? = some i)
    {params : TransactionBuildParams} (hparams : plan.params[i]? = some params) :
    next s.sink params.account < 2 ^ 128 := by
  have howns : owns plan params.account i = true := by simp [owns, hparams]
  have hcount := (hinv.pending hexact hi).countP_le (owns plan params.account)
  rw [List.countP_cons_of_pos howns, ← nonces_length] at hcount
  have hle := hquota params (List.mem_of_getElem? hparams)
  have hnext := h.next_eq params.account
  unfold quota at hle
  omega

theorem Handed.step (h : Handed next sink plan s) (hinv : Inv build plan s) (hexact : Exact plan)
    (hquota : ∀ p ∈ plan.params, next sink p.account + quota plan p.account ≤ 2 ^ 128)
    (hbuild : build.HandsOut next) (hs : step build plan s threadIdx = some s') :
    Handed next sink plan s' := by
  obtain ⟨i, params, r, hi, hparams, hr, hsink, hperm⟩ := step_all hs
  have hlt := h.next_lt hinv hexact hquota hi hparams
  obtain ⟨sink', task, hr', hnonce, hnext⟩ := hbuild.hands s.sink params hlt
  rw [hr, Option.some.injEq] at hr'
  subst hr'
  have howns : ∀ a, owns plan a i = decide (params.account = a) := fun a => by
    simp [owns, hparams]
  have hnonces : ∀ a, (s'.nonces plan a).Perm
      (if a = params.account then next s.sink a :: s.nonces plan a else s.nonces plan a) := by
    intro a
    have hfilter := (hperm.filter fun e => owns plan a e.1).map (·.2.tx.nonce)
    by_cases ha : a = params.account
    · subst ha
      simpa [State.nonces, howns, hnonce] using hfilter
    · have hne : params.account ≠ a := fun he => ha he.symm
      simpa [State.nonces, howns, ha, hne] using hfilter
  constructor
  · intro a
    rw [hsink, hnext a, h.next_eq a, (hnonces a).length_eq]
    split
    · rw [List.length_cons, Nat.add_assoc]
    · rfl
  · intro a
    have hmore := hnonces a
    by_cases ha : a = params.account
    · rw [if_pos ha, h.next_eq a] at hmore
      exact consecutive_cons (h.nonces a) hmore
    · rw [if_neg ha] at hmore
      rw [hmore.length_eq]
      exact hmore.trans (h.nonces a)

theorem new_handed (next : S → String → Nat) (sink : S) (plan : BuildPlan) :
    Handed next sink plan (new sink : State S H) := by
  have hnone : ∀ a, (new sink : State S H).nonces plan a = [] := by
    intro a
    simp [State.nonces, State.all, new]
  constructor
  · intro a
    rw [hnone]
    rfl
  · intro a
    simp [hnone]

theorem run_handed (hexact : Exact plan)
    (hquota : ∀ p ∈ plan.params, next sink p.account + quota plan p.account ≤ 2 ^ 128)
    (hbuild : build.HandsOut next) (h : (machine build plan).run (new sink) is = some s) :
    Inv build plan s ∧ Handed next sink plan s := by
  have hstep : ∀ (s : State S H) i t, Inv build plan s ∧ Handed next sink plan s →
      (machine build plan).step s i = some t → Inv build plan t ∧ Handed next sink plan t :=
    fun s i t hi hs => ⟨hi.1.step hs, hi.2.step hi.1 hexact hquota hbuild hs⟩
  exact Machine.run_invariant hstep ⟨new_inv, new_handed next sink plan⟩ h

theorem Inv.builtOnce (h : Inv build plan s) (hexact : Exact plan) (hj : s.Joined plan) :
    s.BuiltOnce build plan := by
  have hfirst := h.all_joined hexact hj
  have hlen : plan.params.length = (s.all plan).length := by
    have hlength := congrArg List.length hfirst
    rw [List.length_map, List.length_range] at hlength
    exact hlength.symm
  refine ⟨(s.all plan).map (·.2), ?_, ?_⟩
  · rw [transactions_eq]
    exact List.mergeSort_perm _ _
  · apply List.forall₂_iff_get.mpr
    constructor
    · rw [List.length_map, hlen]
    · intro i hi hi'
      have hall : i < (s.all plan).length := hlen ▸ hi
      obtain ⟨j, _, he⟩ := List.mem_flatMap.mp ((s.all plan).getElem_mem hall)
      obtain ⟨p, hp, s₀, s₁, hr⟩ := h.made j _ he
      have hindex : (s.all plan)[i].1 = i := by
        have hget := List.getElem_of_eq hfirst (by simpa using hall)
        simpa using hget
      rw [hindex, List.getElem?_eq_getElem hi, Option.some.injEq] at hp
      refine ⟨s₀, s₁, ?_⟩
      simpa [hp] using hr

/-! ## Progress -/

theorem step_isSome {params : TransactionBuildParams}
    (hi : (chunk plan threadIdx)[(s.built threadIdx).length]? = some i)
    (hparams : plan.params[i]? = some params) (hbuild : (build s.sink params).isSome) :
    (step build plan s threadIdx).isSome := by
  simp [step, hi, hparams, hbuild]

theorem exists_next (h : ¬ s.Ended plan threadIdx) :
    ∃ i, (chunk plan threadIdx)[(s.built threadIdx).length]? = some i :=
  ⟨_, List.getElem?_eq_getElem (Nat.not_le.mp h)⟩

theorem Handed.progress (h : Handed next sink plan s) (hinv : Inv build plan s)
    (hexact : Exact plan)
    (hquota : ∀ p ∈ plan.params, next sink p.account + quota plan p.account ≤ 2 ^ 128)
    (hbuild : build.HandsOut next) : s.Progress build plan := by
  intro threadIdx _ hended
  obtain ⟨i, hi⟩ := exists_next hended
  obtain ⟨params, hparams⟩ := hinv.pending_lt hexact hi
  have hlt := h.next_lt hinv hexact hquota hi hparams
  obtain ⟨sink', task, hr, _⟩ := hbuild.hands s.sink params hlt
  exact step_isSome hi hparams (by simp [hr])

theorem Inv.progress (hinv : Inv build plan s) (hexact : Exact plan) (hbuild : build.KeepsNonce)
    (hnonce : ∀ p ∈ plan.params, p.nonce.isSome) : s.Progress build plan := by
  intro threadIdx _ hended
  obtain ⟨i, hi⟩ := exists_next hended
  obtain ⟨params, hparams⟩ := hinv.pending_lt hexact hi
  obtain ⟨nonce, hp⟩ := Option.isSome_iff_exists.mp (hnonce params (List.mem_of_getElem? hparams))
  obtain ⟨sink', task, hr, _⟩ := hbuild.keeps s.sink params nonce hp
  exact step_isSome hi hparams (by simp [hr])

end TxTestTool.BuildTasks
