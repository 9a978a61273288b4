import TxTestTool.Monitor.Answers
import TxTestTool.Monitor.Submission
import TxTestTool.Runner.Lemmas.Waiting
import TxTestTool.Sink.Subxt

/-!
# The runner, its sink and the block monitor together

A worker whose submission has returned puts a request on the channel of the monitor and waits for
the answer. Here the answers are those that the code of the monitor gives to the blocks of the node.
The machine goes as far as `run`: with its end the workers and the receivers of their answers are
dropped, and the next block that decides about one of them makes the monitor panic.
-/

namespace TxTestTool

/-- The blocks of the two subscriptions. -/
def BlockMonitor.Event.fromNode {H : Type*} : BlockMonitor.Event H → Bool
  | .finalized _ _ | .best _ => true
  | _ => false

namespace Monitored

open Runner (Config)

variable {H : Type*}

structure State (H : Type*) where
  sink : Subxt.State H
  monitor : BlockMonitor.State H
  /-- The workers whose requests are on the channel, the oldest request first. -/
  channel : List Nat
  /-- The listeners of the workers whose requests the monitor has taken. -/
  listeners : AList fun _ : Nat => Nat

inductive Input (H : Type*)
  /-- A step in which the monitor has no part. -/
  | sink (i : Subxt.Input H)
  /-- The request of a worker finds room on the channel. -/
  | queued (id : Nat)
  | refused (id : Nat)
  /-- The oldest request is taken, or dropped with the channel of a monitor that has ended. -/
  | take
  | node (e : BlockMonitor.Event H)
  /-- A worker is told the answer to its request. -/
  | answered (id : Nat)
  /-- A worker is told that its request was dropped. -/
  | abandoned (id : Nat)
deriving DecidableEq

/-- The inputs of the sink that the monitor decides about. -/
def ofMonitor : Subxt.Input H → Bool
  | .queued _ | .refused _ | .answered _ _ | .abandoned _ | .monitorEnds => true
  | _ => false

/-- What a listener has been told, as `wait` returns it. -/
def told (c : Channel H) : Option (Except BlockNumber H) :=
  match c.sent with
  | .ok hash :: _ => some (.ok hash)
  | .error (.mortalLifetimeSurpassed n) :: _ => some (.error n)
  | _ => none

def config (cfg : Config) : Config := { cfg with monitor := true }

variable [DecidableEq H]

namespace State

abbrev runner (s : State H) : Runner.State H := s.sink.runner

/-- The monitor has handled a block, and may have ended with it. -/
def handled (s : State H) (m : BlockMonitor.State H) : State H :=
  { s with
    monitor := m
    sink := if m.status = .running then s.sink else { s.sink with monitorEnded := true } }

/-- The request of `id` has left the channel. -/
def taken (s : State H) (id : Nat) (rest : List Nat) (m : BlockMonitor.State H) : State H :=
  { s with
    monitor := m
    channel := rest
    listeners := s.listeners.insert id s.monitor.requests.length }

end State

/-- A step before `run` has ended. -/
def act (cfg : Config) (s : State H) : Input H → Option (State H)
  | .sink i =>
      if ofMonitor i then none
      else (Subxt.step (config cfg) s.sink i).map fun u => { s with sink := u }
  | .queued id =>
      if s.channel.length < Submission.channelCapacity then
        (Subxt.step (config cfg) s.sink (.queued id)).map fun u =>
          { s with sink := u, channel := s.channel ++ [id] }
      else none
  | .refused id => (Subxt.step (config cfg) s.sink (.refused id)).map fun u => { s with sink := u }
  | .take =>
      match s.channel with
      | [] => none
      | id :: rest =>
          (s.runner.popped[id]?).bind fun t =>
            (BlockMonitor.step s.monitor (.request t.tx.hash t.tx.validUntil)).map
              (s.taken id rest)
  | .node e => if e.fromNode then (BlockMonitor.step s.monitor e).map s.handled else none
  | .answered id =>
      (s.listeners.lookup id).bind fun k => (told (s.monitor.channels k)).bind fun r =>
        (Subxt.step (config cfg) s.sink (.answered id r)).map fun u => { s with sink := u }
  | .abandoned id =>
      (s.listeners.lookup id).bind fun k =>
        if (s.monitor.channels k).sent = [] ∧ (s.monitor.channels k).closed then
          (Subxt.step (config cfg) s.sink (.abandoned id)).map fun u => { s with sink := u }
        else none

def step (cfg : Config) (s : State H) (i : Input H) : Option (State H) :=
  if s.runner.phase.ended then none else act cfg s i

def machine (H : Type*) [DecidableEq H] (cfg : Config) : Machine (State H) (Input H) := ⟨step cfg⟩

def new (cfg : Config) (tasks : List (DefaultTxTask H)) (wall : SystemTime) : State H :=
  ⟨Subxt.new (config cfg) tasks wall, BlockMonitor.new, [], ∅⟩

variable {cfg : Config} {tasks : List (DefaultTxTask H)} {wall : SystemTime}
  {is : List (Input H)} {s s' : State H} {i : Input H}

/-! ## The inversion of a step -/

/-- What a step does. That `run` goes on is left out. -/
inductive Trans (cfg : Config) (s : State H) : Input H → State H → Prop
  | sink {i u} (hi : ofMonitor i = false) (hu : Subxt.step (config cfg) s.sink i = some u) :
      Trans cfg s (.sink i) { s with sink := u }
  | queued {id u} (hroom : s.channel.length < Submission.channelCapacity)
      (hu : Subxt.step (config cfg) s.sink (.queued id) = some u) :
      Trans cfg s (.queued id) { s with sink := u, channel := s.channel ++ [id] }
  | refused {id u} (hu : Subxt.step (config cfg) s.sink (.refused id) = some u) :
      Trans cfg s (.refused id) { s with sink := u }
  | take {id rest t m} (hch : s.channel = id :: rest) (ht : s.runner.popped[id]? = some t)
      (hm : BlockMonitor.step s.monitor (.request t.tx.hash t.tx.validUntil) = some m) :
      Trans cfg s .take (s.taken id rest m)
  | node {e m} (he : e.fromNode = true) (hm : BlockMonitor.step s.monitor e = some m) :
      Trans cfg s (.node e) (s.handled m)
  | answered {id k r u} (hk : s.listeners.lookup id = some k)
      (hr : told (s.monitor.channels k) = some r)
      (hu : Subxt.step (config cfg) s.sink (.answered id r) = some u) :
      Trans cfg s (.answered id) { s with sink := u }
  | abandoned {id k u} (hk : s.listeners.lookup id = some k)
      (hsent : (s.monitor.channels k).sent = []) (hclosed : (s.monitor.channels k).closed = true)
      (hu : Subxt.step (config cfg) s.sink (.abandoned id) = some u) :
      Trans cfg s (.abandoned id) { s with sink := u }

theorem step_trans (hs : step cfg s i = some s') : Trans cfg s i s' := by
  obtain ⟨_, h⟩ := Option.ite_none_left_eq_some.mp hs
  cases i with
  | sink i =>
      simp only [act, Option.ite_none_left_eq_some, Option.map_eq_some_iff,
        Bool.not_eq_true] at h
      obtain ⟨hi, u, hu, rfl⟩ := h
      exact .sink hi hu
  | queued id =>
      simp only [act, Option.ite_none_right_eq_some, Option.map_eq_some_iff] at h
      obtain ⟨hroom, u, hu, rfl⟩ := h
      exact .queued hroom hu
  | refused id =>
      simp only [act, Option.map_eq_some_iff] at h
      obtain ⟨u, hu, rfl⟩ := h
      exact .refused hu
  | take =>
      simp only [act] at h
      split at h
      · cases h
      · rename_i id rest hch
        simp only [Option.bind_eq_some_iff, Option.map_eq_some_iff] at h
        obtain ⟨t, ht, m, hm, rfl⟩ := h
        exact .take hch ht hm
  | node e =>
      simp only [act, Option.ite_none_right_eq_some, Option.map_eq_some_iff] at h
      obtain ⟨he, m, hm, rfl⟩ := h
      exact .node he hm
  | answered id =>
      simp only [act, Option.bind_eq_some_iff, Option.map_eq_some_iff] at h
      obtain ⟨k, hk, r, hr, u, hu, rfl⟩ := h
      exact .answered hk hr hu
  | abandoned id =>
      simp only [act, Option.bind_eq_some_iff, Option.ite_none_right_eq_some,
        Option.map_eq_some_iff] at h
      obtain ⟨k, hk, ⟨hsent, hclosed⟩, u, hu, rfl⟩ := h
      exact .abandoned hk hsent hclosed hu

/-! ## What the parts see of a run -/

/-- What the sink does upon an input. -/
def calls (s : State H) : Input H → List (Subxt.Input H)
  | .sink i => [i]
  | .queued id => [.queued id]
  | .refused id => [.refused id]
  | .take => []
  | .node e =>
      match BlockMonitor.step s.monitor e with
      | some m => if m.status = .running then [] else [.monitorEnds]
      | none => []
  | .answered id =>
      match (s.listeners.lookup id).bind fun k => told (s.monitor.channels k) with
      | some r => [.answered id r]
      | none => []
  | .abandoned id => [.abandoned id]

/-- What the monitor sees of an input. -/
def events (s : State H) : Input H → List (BlockMonitor.Event H)
  | .take =>
      match s.channel.head?.bind fun id => s.runner.popped[id]? with
      | some t => [.request t.tx.hash t.tx.validUntil]
      | none => []
  | .node e => [e]
  | _ => []

def monitorEvents (cfg : Config) (tasks : List (DefaultTxTask H)) (wall : SystemTime)
    (is : List (Input H)) : List (BlockMonitor.Event H) :=
  (machine H cfg).translate events (new cfg tasks wall) is

theorem step_sink (h : step cfg s i = some s') :
    (Subxt.machine H (config cfg)).run s.sink (calls s i) = some s'.sink := by
  cases step_trans h with
  | sink _ hu => exact Machine.run_cons.mpr ⟨_, hu, rfl⟩
  | queued _ hu => exact Machine.run_cons.mpr ⟨_, hu, rfl⟩
  | refused hu => exact Machine.run_cons.mpr ⟨_, hu, rfl⟩
  | take => rfl
  | node _ hm =>
      simp only [calls, hm, State.handled]
      split
      · rfl
      · rfl
  | answered hk hr hu =>
      simp only [calls, hk, Option.bind_some, hr]
      exact Machine.run_cons.mpr ⟨_, hu, rfl⟩
  | abandoned _ _ _ hu => exact Machine.run_cons.mpr ⟨_, hu, rfl⟩

theorem step_monitor (h : step cfg s i = some s') :
    (BlockMonitor.machine H).run s.monitor (events s i) = some s'.monitor := by
  cases step_trans h with
  | take hch ht hm =>
      simp only [events, hch, List.head?_cons, Option.bind_some, ht]
      exact Machine.run_cons.mpr ⟨_, hm, rfl⟩
  | node _ hm => exact Machine.run_cons.mpr ⟨_, hm, rfl⟩
  | _ => rfl

/-- Every run is a run of the runner over its sink, and of the monitor. -/
theorem run_parts (h : (machine H cfg).run (new cfg tasks wall) is = some s) :
    (Subxt.machine H (config cfg)).run (Subxt.new (config cfg) tasks wall)
        ((machine H cfg).translate calls (new cfg tasks wall) is) = some s.sink ∧
      (BlockMonitor.machine H).run BlockMonitor.new (monitorEvents cfg tasks wall is) =
        some s.monitor :=
  ⟨Machine.run_translate (f := State.sink) (fun _ _ _ => step_sink) h,
    Machine.run_translate (f := State.monitor) (fun _ _ _ => step_monitor) h⟩

end Monitored

end TxTestTool
