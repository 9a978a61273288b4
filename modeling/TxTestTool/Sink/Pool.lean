import TxTestTool.Machine.Window
import TxTestTool.Runner.Lemmas.Invariants

/-!
# The runner over a sink with an exact pool

The sink has no block monitor. A transaction enters its pool while its task is popped and has no
submission result, and leaves at any moment; before the result it may even come back.
`pending_extrinsics` reads the size of the pool at some moment of the call.
-/

namespace TxTestTool

namespace Runner

variable {H : Type*} [DecidableEq H]

def State.unrepliedHashes (s : State H) : Finset H :=
  ((s.workers.values.filter (·.awaiting.unreplied)).map (·.task.tx.hash)).toFinset

def Phase.credit : Phase → Nat
  | .burst n | .refill _ n => n
  | _ => 0

def State.window (s : State H) (pool : Finset H) : Window H :=
  ⟨pool, s.unrepliedHashes, s.phase.credit⟩

variable {cfg : Config} {s s' : State H} {i : Input H} {pool : Finset H}

theorem State.mem_unrepliedHashes {h : H} : h ∈ s.unrepliedHashes ↔
    ∃ id w, s.workers.lookup id = some w ∧ w.awaiting.unreplied = true ∧ w.task.tx.hash = h := by
  simp only [unrepliedHashes, List.mem_toFinset, List.mem_map, List.mem_filter, AList.mem_values]
  constructor
  · rintro ⟨w, ⟨⟨id, hw⟩, hr⟩, rfl⟩
    exact ⟨id, w, hw, hr, rfl⟩
  · rintro ⟨id, w, hw, hr, rfl⟩
    exact ⟨w, ⟨⟨id, hw⟩, hr⟩, rfl⟩

theorem State.card_unrepliedHashes_le : s.unrepliedHashes.card ≤ s.ledger.unreplied := by
  refine (List.toFinset_card_le _).trans ?_
  rw [List.length_map, ← List.countP_eq_length_filter]
  rfl

theorem window_settle {N : Nat} (hu : s'.unrepliedHashes ⊆ s.unrepliedHashes)
    (hc : s'.phase.credit ≤ s.phase.credit) :
    Window.Step N (s.window pool) (s'.window pool) :=
  .settle Finset.subset_union_left hu hc

omit [DecidableEq H] in
theorem Pops.credit {next : Phase} (hp : Pops s.phase next) : next.credit + 1 = s.phase.credit := by
  cases hph : s.phase <;> rw [hph] at hp <;> cases hp <;> rfl

omit [DecidableEq H] in
theorem consumePending_counting (hN : cfg.sendThreshold ≠ usizeMax) :
    (s.consumePending cfg).phase = .counting := by
  simp [State.consumePending, hN]

/-- Every step of the runner is a step of the window, if the counts it is given are not too low. -/
theorem Trans.window (hN : cfg.sendThreshold ≠ usizeMax) (hs : Trans cfg s i s')
    (hcount : ∀ n b, i = .pendingExtrinsics (some n) →
      s.eventCounters.buffered cfg.overflowChecks = some b →
      (s.window pool).outstanding.card ≤ n + b) :
    Window.Step cfg.sendThreshold (s.window pool) (s'.window pool) := by
  have hzero : ∀ p : Phase, 0 ≤ p.credit := fun p => Nat.zero_le _
  cases hs with
  | @pop next t ts hp ht hlog =>
      have hu : (s.launch t ts next).unrepliedHashes ⊆ insert t.tx.hash s.unrepliedHashes := by
        intro h hh
        obtain ⟨id, w, hw, hr, rfl⟩ := State.mem_unrepliedHashes.mp hh
        simp only [State.launch, AList.lookup_insert_eq] at hw
        split at hw
        · simp only [Option.some.injEq] at hw; subst hw
          exact Finset.mem_insert_self _ _
        · exact Finset.mem_insert_of_mem (State.mem_unrepliedHashes.mpr ⟨id, w, hw, hr, rfl⟩)
      exact .send hu hp.credit
  | @move id w r es p hp hw hm =>
      refine window_settle ?_ (by simp [State.pushEvents])
      intro h hh
      obtain ⟨k, v, hv, hr, rfl⟩ := State.mem_unrepliedHashes.mp hh
      simp only [AList.lookup_insert_eq] at hv
      split at hv
      · simp only [Option.some.injEq] at hv; subst hv
        have hold := (DefaultTxTask.execute_move hm).unreplied_of_pending hr
        exact State.mem_unrepliedHashes.mpr ⟨id, w, hw, hold, rfl⟩
      · exact State.mem_unrepliedHashes.mpr ⟨k, v, hv, hr, rfl⟩
  | @finish id w r es result hp hw hm =>
      refine window_settle ?_ (by rw [consumePending_counting hN]; exact hzero _)
      intro h hh
      obtain ⟨k, v, hv, hr, rfl⟩ := State.mem_unrepliedHashes.mp hh
      simp only [State.consumePending, State.complete, AList.lookup_erase_eq] at hv
      split at hv
      · cases hv
      · exact State.mem_unrepliedHashes.mpr ⟨k, v, hv, hr, rfl⟩
  | tick => exact window_settle (fun _ h => h) (by rw [consumePending_counting hN]; exact hzero _)
  | classify =>
      obtain ⟨_, _, _, _, he⟩ := classify_frame s
      rw [he]
      exact window_settle (fun _ h => h) (hzero _)
  | @count n hp =>
      rcases startRefill_phase cfg s n with he | ⟨b, hb, he⟩ <;> rw [he]
      · exact window_settle (fun _ h => h) (hzero _)
      · have hgrant := Window.Step.grant (N := cfg.sendThreshold) (hcount n b rfl hb)
        rw [← Nat.sub_sub] at hgrant
        exact hgrant
  | sendStop | dropSender | elapse | setClock =>
      exact window_settle (fun _ h => h) (Nat.le_refl _)
  | _ => exact window_settle (fun _ h => h) (hzero _)

/-- Inside the loop of `consume_pending`, the count, the tasks without a result and the iterations
to go add up to the threshold at least. -/
def State.Supplied (cfg : Config) (s : State H) : Prop :=
  ∀ c n, s.phase = .refill c n → ∃ k, c = some k ∧ cfg.sendThreshold ≤ k + s.ledger.unreplied + n

theorem Trans.supplied {tasks : List (DefaultTxTask H)} (hN : cfg.sendThreshold ≠ usizeMax)
    (hgood : Good tasks s)
    (hbuf : s.eventCounters.buffered cfg.overflowChecks = some s.ledger.unreplied)
    (hs : Trans cfg s i s') (h : s.Supplied cfg) : s'.Supplied cfg := by
  cases hs with
  | @pop next t ts hp ht hlog =>
      intro c n hph
      have hnext : next = .refill c n := hph
      rw [hnext] at hp
      cases hold : s.phase with
      | refill c' n' =>
          rw [hold] at hp
          cases hp
          obtain ⟨k, hc, hle⟩ := h c (n + 1) hold
          have hfresh : s.popped.length ∉ s.workers := hgood.inv.next_fresh
          have hone : (s.launch t ts next).ledger.unreplied = s.ledger.unreplied + 1 := by
            simp [Ledger.unreplied, State.ledger, State.launch,
              AList.values_insert_of_notMem hfresh, AwaitPoint.unreplied]
          exact ⟨k, hc, by rw [hone]; omega⟩
      | _ => rw [hold] at hp; cases hp
  | @count m hp =>
      intro c n hph
      rcases startRefill_phase cfg s m with he | ⟨b, hb, he⟩ <;> rw [he] at hph ⊢
      · cases hph
      · cases hph
        have hbal : b = s.ledger.unreplied := by
          rw [hb] at hbuf
          simpa using hbuf
        exact ⟨m, rfl, by rw [hbal]; show _ ≤ m + s.ledger.unreplied + _; omega⟩
  | finish | tick =>
      intro c n hph
      rw [consumePending_counting hN] at hph
      cases hph
  | classify =>
      intro c n hph
      obtain ⟨_, _, _, _, he⟩ := classify_frame s
      rw [he] at hph
      cases hph
  | move hp =>
      intro c n hph
      have hsel : s.phase = .refill c n := hph
      rw [hp] at hsel
      cases hsel
  | sendStop | dropSender | elapse | setClock => exact h
  | _ => intro c n hph; cases hph

end Runner

namespace Pool

open Runner (Config)

structure State (H : Type*) where
  runner : Runner.State H
  pool : Finset H
  /-- What the call of `pending_extrinsics` under way has read. -/
  counted : Option Nat

inductive Input (H : Type*)
  | runner (i : Runner.Input H)
  | enter (hash : H)
  | leave (hash : H)
  | count

variable {H : Type*} [DecidableEq H]

def State.admits (s : State H) : Runner.Input H → Bool
  | .pendingExtrinsics count => count.isSome && s.counted == count
  | _ => true

def step (cfg : Config) (s : State H) : Input H → Option (State H)
  | .runner i =>
      if s.admits i then
        (Runner.step cfg s.runner i).map fun r =>
          { s with runner := r, counted := if r.phase = .counting then s.counted else none }
      else none
  | .enter hash =>
      if hash ∈ s.runner.unrepliedHashes then some { s with pool := insert hash s.pool } else none
  | .leave hash => some { s with pool := s.pool.erase hash }
  | .count =>
      if s.runner.phase = .counting then some { s with counted := some s.pool.card } else none

def machine (H : Type*) [DecidableEq H] (cfg : Config) : Machine (State H) (Input H) := ⟨step cfg⟩

def new (cfg : Config) (tasks : List (DefaultTxTask H)) (wall : SystemTime) : State H :=
  ⟨Runner.new cfg tasks wall, ∅, none⟩

def State.window (s : State H) : Window H := s.runner.window s.pool

/-- The tasks that are in the pool or popped without a submission result. -/
def State.outstanding (s : State H) (tasks : List (DefaultTxTask H)) : List (DefaultTxTask H) :=
  tasks.filter fun t => t.tx.hash ∈ s.window.outstanding

variable {cfg : Config} {tasks : List (DefaultTxTask H)} {wall : SystemTime}
  {is : List (Input H)} {s s' : State H}

theorem outstanding_length_le (hdistinct : (tasks.map (·.tx.hash)).Nodup) :
    (s.outstanding tasks).length ≤ s.window.outstanding.card := by
  have hnodup : ((s.outstanding tasks).map (·.tx.hash)).Nodup :=
    hdistinct.sublist (List.filter_sublist.map _)
  have hsub : ((s.outstanding tasks).map (·.tx.hash)).toFinset ⊆ s.window.outstanding := by
    intro h hh
    obtain ⟨t, ht, rfl⟩ := List.mem_map.mp (List.mem_toFinset.mp hh)
    simpa using (List.mem_filter.mp ht).2
  rw [← List.length_map (f := (·.tx.hash)), ← List.toFinset_card_of_nodup hnodup]
  exact Finset.card_le_card hsub

structure Inv (cfg : Config) (tasks : List (DefaultTxTask H)) (wall : SystemTime) (s : State H) :
    Prop where
  reached : (Runner.machine H cfg).Reaches (Runner.new cfg tasks wall) s.runner
  bounded : s.window.Bounded cfg.sendThreshold
  supplied : s.runner.Supplied cfg
  counted : ∀ n, s.counted = some n → s.runner.phase = .counting ∧
    s.window.outstanding.card ≤ n + s.runner.ledger.unreplied

theorem Inv.buffered (hmon : cfg.monitor = false) (h : Inv cfg tasks wall s) :
    s.runner.eventCounters.buffered cfg.overflowChecks = some s.runner.ledger.unreplied := by
  obtain ⟨is, his⟩ := h.reached
  exact Runner.run_buffered_of_no_monitor hmon his

theorem Inv.good (h : Inv cfg tasks wall s) : Runner.Good tasks s.runner := by
  obtain ⟨is, his⟩ := h.reached
  exact Runner.run_good his

/-- While the call is under way the workers are not polled. -/
theorem counting_frame {r r' : Runner.State H} {i : Runner.Input H} (hs : Runner.Trans cfg r i r')
    (hp : r.phase = .counting) (hp' : r'.phase = .counting) : r'.workers = r.workers := by
  cases hs with
  | count =>
      rcases Runner.startRefill_phase cfg r _ with he | ⟨b, _, he⟩ <;> rw [he]
  | pop hpop => rw [hp] at hpop; cases hpop
  | missing | sendStop | dropSender | elapse | setClock | countPanic => rfl
  | _ => simp_all

theorem Inv.shrink {pool : Finset H} (h : Inv cfg tasks wall s)
    (hsub : (s.runner.window pool).outstanding ⊆ s.window.outstanding) :
    Inv cfg tasks wall { s with pool } := by
  refine ⟨h.reached, ?_, h.supplied, fun n hn => ?_⟩
  · exact (Nat.add_le_add_right (Finset.card_le_card hsub) _).trans h.bounded
  · obtain ⟨hp, hle⟩ := h.counted n hn
    exact ⟨hp, (Finset.card_le_card hsub).trans hle⟩

theorem Inv.step (hN : cfg.sendThreshold ≠ usizeMax) (hmon : cfg.monitor = false) {i : Input H}
    (hs : step cfg s i = some s') (h : Inv cfg tasks wall s) : Inv cfg tasks wall s' := by
  cases i with
  | enter hash =>
      simp only [Pool.step, Option.ite_none_right_eq_some, Option.some.injEq] at hs
      obtain ⟨hmem, rfl⟩ := hs
      have hsame : (s.runner.window (insert hash s.pool)).outstanding ⊆ s.window.outstanding := by
        simp only [Runner.State.window, Window.outstanding, Finset.insert_union]
        exact Finset.insert_subset (Finset.mem_union_right _ hmem) (Finset.Subset.refl _)
      exact h.shrink hsame
  | leave hash =>
      simp only [Pool.step, Option.some.injEq] at hs; subst hs
      have hsub : (s.runner.window (s.pool.erase hash)).outstanding ⊆ s.window.outstanding :=
        Finset.union_subset_union_left (Finset.erase_subset _ _)
      exact h.shrink hsub
  | count =>
      simp only [Pool.step, Option.ite_none_right_eq_some, Option.some.injEq] at hs
      obtain ⟨hp, rfl⟩ := hs
      refine ⟨h.reached, h.bounded, h.supplied, fun n hn => ⟨hp, ?_⟩⟩
      cases hn
      have hunreplied : s.runner.unrepliedHashes.card ≤ s.runner.ledger.unreplied :=
        Runner.State.card_unrepliedHashes_le
      exact s.window.outstanding_card_le.trans (Nat.add_le_add_left hunreplied _)
  | runner i =>
      simp only [Pool.step, Option.ite_none_right_eq_some, Option.map_eq_some_iff] at hs
      obtain ⟨hadm, r, hr, rfl⟩ := hs
      have htrans := Runner.step_trans hr
      have hbuf := h.buffered hmon
      have hcount : ∀ n b, i = .pendingExtrinsics (some n) →
          s.runner.eventCounters.buffered cfg.overflowChecks = some b →
          s.window.outstanding.card ≤ n + b := by
        intro n b hi hb
        rw [hbuf, Option.some.injEq] at hb
        simp only [hi, State.admits, Option.isSome_some, Bool.true_and, beq_iff_eq] at hadm
        exact hb ▸ (h.counted n hadm).2
      refine ⟨h.reached.step hr, ?_, htrans.supplied hN h.good hbuf h.supplied, ?_⟩
      · exact (htrans.window hN hcount).bounded h.bounded
      · intro n hn
        obtain ⟨hp', hcounted⟩ := Option.ite_none_right_eq_some.mp hn
        obtain ⟨hp, hle⟩ := h.counted n hcounted
        have hw : r.workers = s.runner.workers := counting_frame htrans hp hp'
        refine ⟨hp', ?_⟩
        simpa only [State.window, Runner.State.window, Window.outstanding,
          Runner.State.unrepliedHashes, Runner.Ledger.unreplied, Runner.State.ledger, hw]
          using hle

theorem new_inv : Inv cfg tasks wall (new cfg tasks wall) where
  reached := .refl
  bounded := by
    simp [Window.Bounded, Window.outstanding, new, State.window, Runner.State.window,
      Runner.State.unrepliedHashes, Runner.new, Runner.Phase.credit]
  supplied := fun _ _ hp => by cases hp
  counted := fun _ hn => by cases hn

theorem run_inv (hN : cfg.sendThreshold ≠ usizeMax) (hmon : cfg.monitor = false)
    (h : (machine H cfg).run (new cfg tasks wall) is = some s) : Inv cfg tasks wall s :=
  Machine.run_invariant (M := machine H cfg) (fun _ _ _ hi hs => hi.step hN hmon hs) new_inv h

end Pool

end TxTestTool
