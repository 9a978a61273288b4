import Mathlib.Data.List.Flatten
import TxTestTool.Machine.Run
import TxTestTool.Scenario.FakeBuilder
import TxTestTool.Scenario.Order

/-!
# The spawned build tasks

Each task builds the parameters of its chunk in their order. The tasks run concurrently, so their
calls of the builder interleave in any way.
-/

namespace TxTestTool

/-- One of the ranges that the tasks of `build_transactions` work on. -/
def buildChunk (overflowChecks : Bool) (n t threadIdx : Nat) : Option (List Nat) :=
  (Unsigned.fit 64 overflowChecks (threadIdx * n)).bind fun a =>
    (Unsigned.fit 64 overflowChecks ((threadIdx + 1) * n)).map fun b => Chunk.span (a / t) (b / t)

structure BuildPlan where
  params : List TransactionBuildParams
  chunks : List (List Nat)

/-- What `build_transactions` spawns. -/
def ScenarioBuilder.buildPlan (overflowChecks : Bool) (parallelism : Nat) (b : ScenarioBuilder) :
    Option BuildPlan :=
  (b.buildParams overflowChecks).bind fun params =>
    let n := params.length
    let t := min n parallelism
    ((List.range t).mapM (buildChunk overflowChecks n t)).map fun chunks => ⟨params, chunks⟩

namespace BuildTasks

variable {S H : Type*}

structure State (S H : Type*) where
  sink : S
  /-- The tasks that each thread has built, with the indices of their parameters. -/
  built : Nat → List (Nat × DefaultTxTask H)

def new (sink : S) : State S H := ⟨sink, fun _ => []⟩

def chunk (plan : BuildPlan) (threadIdx : Nat) : List Nat := plan.chunks.getD threadIdx []

def State.push (s : State S H) (threadIdx i : Nat) (r : S × DefaultTxTask H) : State S H where
  sink := r.1
  built := Function.update s.built threadIdx (s.built threadIdx ++ [(i, r.2)])

/-- The next call of one of the tasks, if it has not ended and the call does not panic. -/
def step (build : BuildTransaction S H) (plan : BuildPlan) (s : State S H) (threadIdx : Nat) :
    Option (State S H) :=
  ((chunk plan threadIdx)[(s.built threadIdx).length]?).bind fun i =>
    (plan.params[i]?).bind fun params => (build s.sink params).map (s.push threadIdx i)

def machine (build : BuildTransaction S H) (plan : BuildPlan) : Machine (State S H) Nat :=
  ⟨step build plan⟩

/-- The task has built its chunk. -/
def State.Ended (plan : BuildPlan) (s : State S H) (threadIdx : Nat) : Prop :=
  (chunk plan threadIdx).length ≤ (s.built threadIdx).length

/-- All handles can be awaited. -/
def State.Joined (plan : BuildPlan) (s : State S H) : Prop :=
  ∀ threadIdx < plan.chunks.length, s.Ended plan threadIdx

def State.all (plan : BuildPlan) (s : State S H) : List (Nat × DefaultTxTask H) :=
  (List.range plan.chunks.length).flatMap s.built

/-- What `build_transactions` returns once all tasks have ended. -/
def State.transactions (plan : BuildPlan) (s : State S H) : List (DefaultTxTask H) :=
  ScenarioBuilder.sortByNonce
    ((List.range plan.chunks.length).map fun threadIdx => (s.built threadIdx).map (·.2))

/-- The chunks deal out every index once, in its order. -/
def Exact (plan : BuildPlan) : Prop := plan.chunks.flatten = List.range plan.params.length

variable {build : BuildTransaction S H} {plan : BuildPlan} {s s' : State S H} {sink : S}
  {is : List Nat} {threadIdx : Nat}

theorem range_flatMap_chunk (plan : BuildPlan) :
    (List.range plan.chunks.length).flatMap (chunk plan) = plan.chunks.flatten := by
  have hmap : (List.range plan.chunks.length).map (chunk plan) = plan.chunks := by
    apply List.ext_getElem (by simp)
    intro i h₁ h₂
    simp [chunk, h₂]
  rw [List.flatMap_def, hmap]

/-! ## Every parameter once -/

structure Inv (build : BuildTransaction S H) (plan : BuildPlan) (s : State S H) : Prop where
  first : ∀ threadIdx, (s.built threadIdx).map (·.1) <+: chunk plan threadIdx
  made : ∀ threadIdx, ∀ e ∈ s.built threadIdx, ∃ params, plan.params[e.1]? = some params ∧
    ∃ s₀ s₁, build s₀ params = some (s₁, e.2)

theorem step_push (h : step build plan s threadIdx = some s') :
    ∃ i params r, (chunk plan threadIdx)[(s.built threadIdx).length]? = some i ∧
      plan.params[i]? = some params ∧ build s.sink params = some r ∧ s' = s.push threadIdx i r := by
  obtain ⟨i, hi, h⟩ := Option.bind_eq_some_iff.mp h
  obtain ⟨params, hparams, h⟩ := Option.bind_eq_some_iff.mp h
  obtain ⟨r, hr, rfl⟩ := Option.map_eq_some_iff.mp h
  exact ⟨i, params, r, hi, hparams, hr, rfl⟩

theorem extend_first {l chunk : List Nat} {i : Nat} (h : l <+: chunk)
    (hi : chunk[l.length]? = some i) : l ++ [i] <+: chunk := by
  obtain ⟨rest, rfl⟩ := h
  rw [List.getElem?_append_right (Nat.le_refl _), Nat.sub_self] at hi
  cases rest with
  | nil => cases hi
  | cons j rest =>
      simp only [List.getElem?_cons_zero, Option.some.injEq] at hi
      subst hi
      exact ⟨rest, by simp⟩

theorem Inv.step (h : Inv build plan s) (hs : step build plan s threadIdx = some s') :
    Inv build plan s' := by
  obtain ⟨i, params, r, hi, hparams, hr, rfl⟩ := step_push hs
  have hother : ∀ j, j ≠ threadIdx → (s.push threadIdx i r).built j = s.built j :=
    fun j hj => Function.update_of_ne hj _ _
  have hself : (s.push threadIdx i r).built threadIdx = s.built threadIdx ++ [(i, r.2)] :=
    Function.update_self ..
  refine ⟨fun j => ?_, fun j e he => ?_⟩
  · by_cases hj : j = threadIdx
    · subst hj
      rw [hself, List.map_append]
      exact extend_first (h.first j) (by simpa using hi)
    · rw [hother j hj]
      exact h.first j
  · by_cases hj : j = threadIdx
    · subst hj
      rw [hself] at he
      rcases List.mem_append.mp he with he | he
      · exact h.made j e he
      · rw [List.mem_singleton.mp he]
        exact ⟨params, hparams, s.sink, r.1, hr⟩
    · rw [hother j hj] at he
      exact h.made j e he

theorem new_inv : Inv build plan (new sink) where
  first _ := List.nil_prefix
  made _ _ he := by cases he

theorem run_inv (h : (machine build plan).run (new sink) is = some s) : Inv build plan s :=
  Machine.run_invariant (M := machine build plan) (fun _ _ _ hi hs => hi.step hs) new_inv h

theorem step_all (hs : step build plan s threadIdx = some s') :
    ∃ i params r, (chunk plan threadIdx)[(s.built threadIdx).length]? = some i ∧
      plan.params[i]? = some params ∧ build s.sink params = some r ∧ s'.sink = r.1 ∧
      (s'.all plan).Perm ((i, r.2) :: s.all plan) := by
  obtain ⟨i, params, r, hi, hparams, hr, rfl⟩ := step_push hs
  have hlt : threadIdx < plan.chunks.length := by
    by_contra hge
    simp [chunk, Nat.not_lt.mp hge] at hi
  refine ⟨i, params, r, hi, hparams, hr, rfl, ?_⟩
  apply Chunk.flatMap_perm_cons List.nodup_range (List.mem_range.mpr hlt)
  · exact fun j hj => Function.update_of_ne hj _ _
  · simp only [State.push, Function.update_self]
    exact List.perm_append_singleton _ _

/-- A run takes one step for each parameter that has been built. -/
theorem run_length (h : (machine build plan).run (new sink) is = some s) :
    (s.all plan).length = is.length := by
  have hstep : ∀ (past : List Nat) (s : State S H) i t, (s.all plan).length = past.length →
      (machine build plan).step s i = some t → (t.all plan).length = (past ++ [i]).length := by
    intro past s i t hlen hs
    obtain ⟨_, _, _, _, _, _, _, hperm⟩ := step_all hs
    simp [hperm.length_eq, hlen]
  have hnew : ((new sink : State S H).all plan).length = ([] : List Nat).length := by
    simp [State.all, new]
  simpa using Machine.run_history_invariant hstep hnew h

theorem Inv.all_sublist (h : Inv build plan s) (hexact : Exact plan) :
    ((s.all plan).map (·.1)).Sublist (List.range plan.params.length) := by
  rw [← hexact, ← range_flatMap_chunk, State.all, List.map_flatMap]
  exact List.Sublist.flatMap_right _ fun j _ => (h.first j).sublist

theorem Inv.all_joined (h : Inv build plan s) (hexact : Exact plan) (hj : s.Joined plan) :
    (s.all plan).map (·.1) = List.range plan.params.length := by
  rw [← hexact, ← range_flatMap_chunk, State.all, List.map_flatMap]
  apply List.flatMap_congr
  intro j hmem
  apply (h.first j).eq_of_length_le
  rw [List.length_map]
  exact hj j (List.mem_range.mp hmem)

theorem transactions_eq (plan : BuildPlan) (s : State S H) :
    s.transactions plan =
      ((s.all plan).map (·.2)).mergeSort fun a b => a.tx.nonce ≤ b.tx.nonce := by
  rw [State.transactions, ScenarioBuilder.sortByNonce, State.all, List.map_flatMap,
    List.flatMap_def]

end BuildTasks

end TxTestTool
