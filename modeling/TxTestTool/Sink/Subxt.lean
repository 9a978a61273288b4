import TxTestTool.Runner.Lemmas.Replay

/-!
# The runner over `SubxtTransactionsSink`

The calls of the runner are followed down to what the connection to the node reports. One input is
one report, or a step of the runner's own code; it makes the runner take the steps `calls`.
-/

namespace TxTestTool

inductive TxStatus (H : Type*)
  | validated
  | broadcasted
  | inBestBlock (block : H)
  | inFinalizedBlock (block : H)
  | error (message : String)
  | invalid (message : String)
  | dropped (message : String)
  | noLongerInBestBlock
deriving DecidableEq, Repr

def TxStatus.toTransactionStatus {H : Type*} : TxStatus H → TransactionStatus H
  | .validated => .validated
  | .broadcasted => .broadcasted
  | .inBestBlock block => .inBlock block
  | .inFinalizedBlock block => .finalized block
  | .error message => .error message
  | .invalid message => .invalid message
  | .dropped message => .dropped message
  | .noLongerInBestBlock => .noLongerInBestBlock

namespace Subxt

open Runner (Config)

structure State (H : Type*) where
  runner : Runner.State H
  /-- The time of the last request for the pending extrinsics, and their number. -/
  currentPendingExtrinsics : Option (Nat × Nat)
  /-- When the request that `update_count` awaits was made. -/
  asked : Option Nat
  monitorEnded : Bool
  /-- The workers whose request waits for room in the channel of the monitor. -/
  sending : List Nat

inductive Input (H : Type*)
  /-- A step that involves no call of the sink. -/
  | own (i : Runner.Input H)
  | start (id : Nat)
  | submitted (id : Nat) (r : Except String H)
  | watching (id : Nat) (r : Except String Unit)
  /-- The next item of a status stream, or its end. -/
  | item (id : Nat) (r : Option (Except String (TxStatus H)))
  /-- `register_listener` finds room in the channel of the monitor. -/
  | queued (id : Nat)
  /-- `register_listener` finds the channel closed. -/
  | refused (id : Nat)
  | answered (id : Nat) (r : Except BlockNumber H)
  /-- The monitor drops a trigger without firing it. -/
  | abandoned (id : Nat)
  | count
  | counted (r : Except String Nat)
  | monitorEnds
deriving DecidableEq, Repr

variable {H : Type*} [DecidableEq H]

/-- How `wait` reports that its listener was dropped. -/
def closedError : Error := .other "failed while waiting for tx finalization: channel closed"

/-- The reply to a worker that an input amounts to, if it is not a panic. -/
def Input.reply : Input H → Option (Nat × Reply H)
  | .start id => some (id, .start)
  | .submitted id r => some (id, .submit (r.mapError .subxt))
  | .watching id r => some (id, .submitAndWatch (r.mapError .subxt))
  | .item id none => some (id, .next none)
  | .item id (some (.ok status)) => some (id, .next (some status.toTransactionStatus))
  | .answered id r => some (id, .wait (r.mapError .mortalLifetimeSurpassed))
  | .abandoned id => some (id, .wait (.error closedError))
  | _ => none

/-- The inputs of the runner that reach no worker and no sink. -/
def isOwn : Runner.Input H → Bool
  | .poll _ _ | .pendingExtrinsics _ => false
  | _ => true

/-- A count younger than this is used again. -/
def countPeriod : Duration := 1000 * 10 ^ 6

/-- The count that `pending_extrinsics` returns without asking the node. -/
def State.cached (s : State H) : Option Nat :=
  match s.currentPendingExtrinsics with
  | some (ts, count) => if s.runner.now - ts ≤ countPeriod then some count else none
  | none => none

/-- What the runner does upon an input, or `none` when the input cannot happen. -/
def calls (cfg : Config) (s : State H) : Input H → Option (List (Runner.Input H))
  | .own i => if isOwn i then some [i] else none
  | .start id => some [.poll id .start]
  | .submitted id r =>
      -- `register_listener` comes with the same poll, and unwraps its send
      some (.poll id (.submit (r.mapError .subxt)) ::
        if r.toBool && cfg.monitor && s.monitorEnded then [.poll id .panic] else [])
  | .watching id r => some [.poll id (.submitAndWatch (r.mapError .subxt))]
  | .item id none => some [.poll id (.next none)]
  | .item id (some (.ok status)) => some [.poll id (.next (some status.toTransactionStatus))]
  | .item id (some (.error _)) =>
      -- `e.unwrap()`
      if (s.runner.workers.lookup id).map (·.awaiting) = some .streaming then
        some [.poll id .panic]
      else none
  | .queued id => if id ∈ s.sending ∧ ¬ s.monitorEnded then some [] else none
  | .refused id => if id ∈ s.sending ∧ s.monitorEnded then some [.poll id .panic] else none
  | .answered id r =>
      if id ∈ s.sending then none
      else some [.poll id (.wait (r.mapError .mortalLifetimeSurpassed))]
  | .abandoned id => if id ∈ s.sending then none else some [.poll id (.wait (.error closedError))]
  | .count =>
      if s.runner.phase = .counting ∧ s.asked = none then
        match s.cached with
        | some count => some [.pendingExtrinsics (some count)]
        | none => some []
      else none
  | .counted r =>
      -- `expect("author_pendingExtrinsics should not fail")`
      if s.asked.isSome then some [.pendingExtrinsics r.toOption] else none
  | .monitorEnds => some []

def update (cfg : Config) (s : State H) : Input H → State H
  | .submitted id (.ok _) => if cfg.monitor then { s with sending := id :: s.sending } else s
  | .queued id => { s with sending := s.sending.filter (· ≠ id) }
  | .count => if s.cached = none then { s with asked := some s.runner.now } else s
  | .counted (.ok count) =>
      { s with currentPendingExtrinsics := s.asked.map fun i => (i, count), asked := none }
  | .monitorEnds => { s with monitorEnded := true }
  | _ => s

def step (cfg : Config) (s : State H) (i : Input H) : Option (State H) :=
  (calls cfg s i).bind fun is =>
    ((Runner.machine H cfg).run s.runner is).map fun r => { update cfg s i with runner := r }

def machine (H : Type*) [DecidableEq H] (cfg : Config) : Machine (State H) (Input H) := ⟨step cfg⟩

def new (cfg : Config) (tasks : List (DefaultTxTask H)) (wall : SystemTime) : State H :=
  ⟨Runner.new cfg tasks wall, none, none, false, []⟩

variable {cfg : Config} {tasks : List (DefaultTxTask H)} {wall : SystemTime}
  {is : List (Input H)} {s s' : State H} {i : Input H}

/-- Every run over this sink is a run of the runner. -/
theorem run_runner (h : (machine H cfg).run s is = some s') :
    (Runner.machine H cfg).run s.runner
      ((machine H cfg).translate (fun s i => (calls cfg s i).getD []) s is) = some s'.runner := by
  refine Machine.run_translate (f := State.runner) (fun s i t ht => ?_) h
  obtain ⟨js, hjs, hmap⟩ := Option.bind_eq_some_iff.mp ht
  obtain ⟨r, hr, rfl⟩ := Option.map_eq_some_iff.mp hmap
  rw [hjs]
  exact hr

/-! ## The failures that the code survives -/

/-- No item of a stream is an error, no request for the count fails, nobody registers with a monitor
that has ended, a listener is dropped only in a run that does not count, and the clock is not set
back. -/
def Survivable (cfg : Config) (s : State H) : Input H → Prop
  | .item _ (some (.error _)) | .counted (.error _) | .refused _ => False
  | .submitted _ (.ok _) => ¬ (cfg.monitor ∧ s.monitorEnded)
  | .abandoned _ => cfg.sendThreshold = usizeMax
  | .own (.setClock t) => s.runner.wall ≤ t
  | _ => True

instance (i : Input H) : Decidable (Survivable cfg s i) := by
  unfold Survivable
  split <;> infer_instance

omit [DecidableEq H] in
/-- A survivable input is at most one calm step of the runner. -/
theorem calls_calm {js : List (Runner.Input H)} (hok : Survivable cfg s i)
    (h : calls cfg s i = some js) :
    (js = [] ∧ i.reply = none) ∨
      ∃ j, js = [j] ∧ Runner.Calm cfg s.runner j ∧ j.reply = i.reply := by
  cases i with
  | own j =>
      simp only [calls, Option.ite_none_right_eq_some, Option.some.injEq] at h
      obtain ⟨hown, rfl⟩ := h
      refine Or.inr ⟨j, rfl, ?_, ?_⟩
      · cases j with
        | setClock t => exact hok
        | poll => cases hown
        | pendingExtrinsics => cases hown
        | _ => trivial
      · cases j with
        | poll => cases hown
        | _ => rfl
  | start id =>
      cases h
      exact Or.inr ⟨_, rfl, .poll (by simp) rfl, rfl⟩
  | submitted id r =>
      cases h
      refine Or.inr ⟨.poll id (.submit (r.mapError .subxt)), ?_,
        .poll (by simp) rfl, rfl⟩
      cases r with
      | error e => rfl
      | ok a =>
          have hnot : (cfg.monitor && s.monitorEnded) = false := by
            simpa [Survivable] using hok
          simp [Except.toBool, hnot]
  | watching id r =>
      cases h
      exact Or.inr ⟨_, rfl, .poll (by simp) rfl, rfl⟩
  | item id r =>
      cases r with
      | none =>
          cases h
          exact Or.inr ⟨_, rfl, .poll (by simp) rfl, rfl⟩
      | some r =>
          cases r with
          | error e => cases hok
          | ok status =>
              cases h
              exact Or.inr ⟨_, rfl, .poll (by simp) rfl, rfl⟩
  | queued id =>
      simp only [calls, Option.ite_none_right_eq_some, Option.some.injEq] at h
      obtain ⟨_, rfl⟩ := h
      exact Or.inl ⟨rfl, rfl⟩
  | refused id => cases hok
  | answered id r =>
      simp only [calls, Option.ite_none_left_eq_some, Option.some.injEq] at h
      obtain ⟨_, rfl⟩ := h
      refine Or.inr ⟨_, rfl, ⟨by simp, fun hf => ?_⟩, rfl⟩
      cases r <;> cases hf
  | abandoned id =>
      simp only [calls, Option.ite_none_left_eq_some, Option.some.injEq] at h
      obtain ⟨_, rfl⟩ := h
      exact Or.inr ⟨_, rfl, ⟨by simp, fun _ => hok⟩, rfl⟩
  | count =>
      simp only [calls, Option.ite_none_right_eq_some] at h
      obtain ⟨_, h⟩ := h
      split at h <;> cases h
      · exact Or.inr ⟨_, rfl, rfl, rfl⟩
      · exact Or.inl ⟨rfl, rfl⟩
  | counted r =>
      simp only [calls, Option.ite_none_right_eq_some, Option.some.injEq] at h
      obtain ⟨_, rfl⟩ := h
      cases r with
      | error e => cases hok
      | ok count => exact Or.inr ⟨_, rfl, rfl, rfl⟩
  | monitorEnds =>
      cases h
      exact Or.inl ⟨rfl, rfl⟩

def repliesTo (id : Nat) (is : List (Input H)) : List (Reply H) :=
  is.flatMap fun i => Runner.repliesOf id i.reply

def Input.failed (i : Input H) : Option Nat :=
  match i.reply with
  | some (id, r) => if r.isFailure then some id else none
  | none => none

omit [DecidableEq H] in
theorem Input.failed_reply {id : Nat} (h : i.failed = some id) :
    ∃ r, i.reply = some (id, r) ∧ r.isFailure = true := by
  unfold Input.failed at h
  split at h
  · rename_i k r hr
    split at h
    · rename_i hf
      simp only [Option.some.injEq] at h
      subst h
      exact ⟨r, hr, hf⟩
    · cases h
  · cases h

structure Inv (cfg : Config) (tasks : List (DefaultTxTask H)) (past : List (Input H))
    (s : State H) : Prop where
  healthy : Runner.Healthy cfg tasks s.runner
  replayed : Runner.Replayed cfg (fun id => repliesTo id past) s.runner
  saved : s.runner.Saved
  failed : ∀ i ∈ past, ∀ id, i.failed = some id → ∃ t, s.runner.popped[id]? = some t ∧
    (id, .error t.tx.hash) ∈ s.runner.finished

theorem Inv.step {past : List (Input H)} (h : Inv cfg tasks past s) (hok : Survivable cfg s i)
    (hs : step cfg s i = some s') : Inv cfg tasks (past ++ [i]) s' := by
  obtain ⟨js, hjs, hmap⟩ := Option.bind_eq_some_iff.mp hs
  obtain ⟨r, hr, rfl⟩ := Option.map_eq_some_iff.mp hmap
  have hreplies : ∀ id, repliesTo id (past ++ [i]) =
      repliesTo id past ++ Runner.repliesOf id i.reply := by
    intro id
    simp [repliesTo]
  rcases calls_calm hok hjs with ⟨rfl, hnone⟩ | ⟨j, rfl, hcalm, hreply⟩
  · simp only [Machine.run_nil, Option.some.injEq] at hr
    subst hr
    refine ⟨h.healthy, ?_, h.saved, fun k hk id hid => ?_⟩
    · have hsame : (fun id => repliesTo id (past ++ [i])) = fun id => repliesTo id past := by
        funext id
        rw [hreplies, hnone]
        exact List.append_nil _
      rw [hsame]
      exact h.replayed
    · rcases List.mem_append.mp hk with hk | hk
      · exact h.failed k hk id hid
      · rw [List.mem_singleton.mp hk] at hid
        obtain ⟨r, hr, _⟩ := Input.failed_reply hid
        rw [hnone] at hr
        cases hr
  · obtain ⟨u, hu, hrun⟩ := Machine.run_cons.mp hr
    simp only [Machine.run_nil, Option.some.injEq] at hrun
    subst hrun
    have htrans := Runner.step_trans hu
    have hhealthy := h.healthy.step hcalm hu
    refine ⟨hhealthy, ?_, htrans.saved h.saved, fun k hk id hid => ?_⟩
    · have hsame : (fun id => repliesTo id (past ++ [i])) =
          fun id => repliesTo id past ++ j.received id := by
        funext id
        rw [hreplies, Runner.Input.received, hreply]
      rw [hsame]
      exact htrans.replayed h.healthy.good hhealthy.alive h.replayed
    · rcases List.mem_append.mp hk with hk | hk
      · obtain ⟨t, ht⟩ := h.failed k hk id hid
        exact ⟨t, htrans.keeps ht⟩
      · rw [List.mem_singleton.mp hk] at hid
        obtain ⟨r, hr, hf⟩ := Input.failed_reply hid
        rw [← hreply] at hr
        cases j with
        | poll id' r' =>
            simp only [Runner.Input.reply, Option.some.injEq, Prod.mk.injEq] at hr
            obtain ⟨rfl, rfl⟩ := hr
            exact htrans.failed h.healthy.good hf
        | _ => cases hr

theorem new_inv (hwall : 0 ≤ wall) : Inv cfg tasks [] (new cfg tasks wall) where
  healthy := Runner.new_healthy hwall
  replayed := ⟨fun _ _ hw => (by cases hw), fun _ _ hf => (by cases hf),
    fun _ _ hf => (by cases hf), fun _ _ => rfl⟩
  saved _ hp := by rcases hp with hp | hp <;> cases hp
  failed _ hi := by cases hi

theorem run_inv (hwall : 0 ≤ wall)
    (hok : (machine H cfg).Meets (fun _ => Survivable cfg) [] (new cfg tasks wall) is)
    (h : (machine H cfg).run (new cfg tasks wall) is = some s) : Inv cfg tasks is s := by
  have hstep : ∀ (past : List (Input H)) (s : State H) i t, Inv cfg tasks past s →
      Survivable cfg s i → (machine H cfg).step s i = some t → Inv cfg tasks (past ++ [i]) t :=
    fun _ _ _ _ hinv hsurv hs => hinv.step hsurv hs
  exact Machine.Meets.invariant hstep (new_inv hwall) hok h

end Subxt

end TxTestTool
