import Mathlib.Data.Finset.Card
import TxTestTool.Fake.Transaction
import TxTestTool.Runner.Isolation
import TxTestTool.Sink.Subxt

/-!
# The runner over `FakeTransactionsSink`

One input is one poll of a worker that is due, the reading of the pool, or a step of the runner's
own code. A poll runs the future of the worker through the sink until it waits again.
-/

namespace TxTestTool.Fake

open Runner (Config)

/-- Where the call of the sink that a worker awaits is. -/
inductive Call
  /-- `submit_result` sleeps. -/
  | submitting (deadline : Nat) (event : TransactionStatus FakeHash)
  /-- The stream is at its `yield_now`. -/
  | yielded (rest : EventsStreamDef)
  /-- The stream sleeps before `event`. -/
  | sleeping (deadline : Nat) (event : TransactionStatus FakeHash) (rest : EventsStreamDef)
deriving DecidableEq

structure State where
  runner : Runner.State FakeHash
  txs : Finset FakeHash
  calls : AList fun _ : Nat => Call

inductive Input
  | own (i : Runner.Input FakeHash)
  | poll (id : Nat)
  /-- `pending_extrinsics` -/
  | count
deriving DecidableEq

/-- What a poll does: the replies that the future gets on its way, the pool after it, and the call
in which it waits then. -/
structure Polled where
  replies : List (Reply FakeHash)
  txs : Finset FakeHash
  call : Option Call

def millis (delay : Nat) : Duration := delay * 10 ^ 6

/-- `submit_result` goes on after its sleep, and `submit` takes the hash out again. -/
def submitted (t : FakeTask) (event : TransactionStatus FakeHash) (txs : Finset FakeHash)
    (before : List (Reply FakeHash)) : Polled :=
  match t.tx.submitResult event with
  | some r => ⟨before ++ [.submit r], txs.erase t.tx.hash, none⟩
  | none => ⟨before ++ [.panic], txs, none⟩

/-- The stream yields `event`, and the task asks for the next one unless it is done. -/
def delivered (t : FakeTask) (event : TransactionStatus FakeHash) (rest : EventsStreamDef)
    (txs : Finset FakeHash) : Polled :=
  if event.isTerminal then ⟨[.next (some event)], txs.erase t.tx.hash, none⟩
  else ⟨[.next (some event)], txs, some (.yielded rest)⟩

/-- The first poll of a task. -/
def firstPoll (t : FakeTask) (now : Nat) (txs : Finset FakeHash) : Polled :=
  if t.watched then
    match t.tx.getCurrentStreamDef with
    | some streamDef =>
        ⟨[.start, .submitAndWatch (.ok ())], insert t.tx.hash txs, some (.yielded streamDef)⟩
    | none => ⟨[.start, .panic], insert t.tx.hash txs, none⟩
  else
    match t.tx.submitEvent with
    | some ⟨event, delay⟩ =>
        if 0 < delay then
          ⟨[.start], insert t.tx.hash txs, some (.submitting (now + millis delay) event)⟩
        else submitted t event (insert t.tx.hash txs) [.start]
    | none => ⟨[.start, .panic], insert t.tx.hash txs, none⟩

/-- The other polls. `none`: what the future waits for is not there. -/
def nextPoll (t : FakeTask) (now : Nat) (txs : Finset FakeHash) : Call → Option Polled
  | .submitting deadline event => if deadline ≤ now then some (submitted t event txs []) else none
  | .yielded [] => some ⟨[.next none], txs, none⟩
  | .yielded (⟨event, delay⟩ :: rest) =>
      if 0 < delay then some ⟨[], txs, some (.sleeping (now + millis delay) event rest)⟩
      else some (delivered t event rest txs)
  | .sleeping deadline event rest =>
      if deadline ≤ now then some (delivered t event rest txs) else none

/-- There is no monitor. -/
def config (cfg : Config) : Config := { cfg with monitor := false }

/-- The task of worker `id`: tasks are popped from the end of the list. -/
def taskOf (tasks : List FakeTask) (id : Nat) : Option FakeTask := tasks.reverse[id]?

def State.polled (tasks : List FakeTask) (s : State) (id : Nat) (w : Worker FakeHash) :
    Option Polled :=
  (taskOf tasks id).bind fun t =>
    if w.awaiting = .created then some (firstPoll t s.runner.now s.txs)
    else (s.calls.lookup id).bind (nextPoll t s.runner.now s.txs)

def State.follow (cfg : Config) (s : State) (id : Nat) (p : Polled) : Option State :=
  ((Runner.machine FakeHash (config cfg)).run s.runner (p.replies.map (.poll id))).map fun r =>
    ⟨r, p.txs, match p.call with
      | some call => s.calls.insert id call
      | none => s.calls.erase id⟩

def step (cfg : Config) (tasks : List FakeTask) (s : State) : Input → Option State
  | .own i =>
      if Subxt.isOwn i then
        (Runner.step (config cfg) s.runner i).map fun r => { s with runner := r }
      else none
  | .poll id =>
      if s.runner.phase = .select then
        (s.runner.workers.lookup id).bind fun w => (s.polled tasks id w).bind (s.follow cfg id)
      else none
  | .count =>
      (Runner.step (config cfg) s.runner (.pendingExtrinsics (some s.txs.card))).map fun r =>
        { s with runner := r }

def machine (cfg : Config) (tasks : List FakeTask) : Machine State Input := ⟨step cfg tasks⟩

def new (cfg : Config) (tasks : List FakeTask) (wall : SystemTime) : State :=
  ⟨Runner.new (config cfg) (tasks.map FakeTask.toTask) wall, ∅, ∅⟩

/-- The steps of the runner that an input amounts to. -/
def calls (tasks : List FakeTask) (s : State) : Input → List (Runner.Input FakeHash)
  | .own i => [i]
  | .poll id =>
      match (s.runner.workers.lookup id).bind (s.polled tasks id) with
      | some p => p.replies.map (.poll id)
      | none => []
  | .count => [.pendingExtrinsics (some s.txs.card)]

variable {cfg : Config} {tasks : List FakeTask} {wall : SystemTime} {is : List Input}
  {s s' : State} {i : Input}

/-! ## The inversion of a step -/

inductive Trans (cfg : Config) (tasks : List FakeTask) (s : State) : Input → State → Prop
  | own {i r} (hown : Subxt.isOwn i = true) (hr : Runner.step (config cfg) s.runner i = some r) :
      Trans cfg tasks s (.own i) { s with runner := r }
  | poll {id w p s'} (hp : s.runner.phase = .select) (hw : s.runner.workers.lookup id = some w)
      (hpolled : s.polled tasks id w = some p) (hs : s.follow cfg id p = some s') :
      Trans cfg tasks s (.poll id) s'
  | count {r} (hr : Runner.step (config cfg) s.runner
      (.pendingExtrinsics (some s.txs.card)) = some r) :
      Trans cfg tasks s .count { s with runner := r }

theorem step_trans (h : step cfg tasks s i = some s') : Trans cfg tasks s i s' := by
  cases i with
  | own i =>
      simp only [step, Option.ite_none_right_eq_some, Option.map_eq_some_iff] at h
      obtain ⟨hown, r, hr, rfl⟩ := h
      exact .own hown hr
  | poll id =>
      simp only [step, Option.ite_none_right_eq_some, Option.bind_eq_some_iff] at h
      obtain ⟨hp, w, hw, p, hpolled, hs⟩ := h
      exact .poll hp hw hpolled hs
  | count =>
      simp only [step, Option.map_eq_some_iff] at h
      obtain ⟨r, hr, rfl⟩ := h
      exact .count hr

/-- Every run over this sink is a run of the runner. -/
theorem run_runner (h : (machine cfg tasks).run s is = some s') :
    (Runner.machine FakeHash (config cfg)).run s.runner
      ((machine cfg tasks).translate (calls tasks) s is) = some s'.runner := by
  refine Machine.run_translate (f := State.runner) (fun s i u hu => ?_) h
  cases i with
  | own i =>
      simp only [machine, step, Option.ite_none_right_eq_some, Option.map_eq_some_iff] at hu
      obtain ⟨_, r, hr, rfl⟩ := hu
      exact Machine.run_cons.mpr ⟨r, hr, rfl⟩
  | poll id =>
      simp only [machine, step, Option.ite_none_right_eq_some, Option.bind_eq_some_iff] at hu
      obtain ⟨_, w, hw, p, hpolled, hs⟩ := hu
      obtain ⟨r, hr, rfl⟩ := Option.map_eq_some_iff.mp hs
      simpa only [calls, hw, Option.bind_some, hpolled] using hr
  | count =>
      simp only [machine, step, Option.map_eq_some_iff] at hu
      obtain ⟨r, hr, rfl⟩ := hu
      exact Machine.run_cons.mpr ⟨r, hr, rfl⟩

end TxTestTool.Fake
