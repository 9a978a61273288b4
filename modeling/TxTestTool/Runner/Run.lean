import TxTestTool.Log.Journal
import TxTestTool.Machine.Run
import TxTestTool.Runner.Task

/-!
# `Runner::run` as a machine

The state is the runner, the locals of `run` and the clocks. One input is either a step of the
runner's own code up to its next loop iteration, or something the environment does: a reply to a
worker, an answer of the sink, time. The futures of the workers are polled only inside `select!`,
so a worker moves only while the runner is there; everything else can happen at any moment.
-/

namespace TxTestTool

namespace Runner

inductive Exit
  | timeout
  | stop
  | allDone
deriving DecidableEq, Repr

inductive Panic
  /-- `self.logs[&hash]` -/
  | missingLog
  /-- A subtraction of `Counters::buffered`. -/
  | buffered
  /-- A call of the sink or of its monitor. -/
  | sink
  /-- The `unwrap` of the serialization in `save_logs`. -/
  | journal
  /-- `expect("time goes forward.")` in `make_stats`. -/
  | stats
deriving DecidableEq, Repr

inductive Phase
  /-- The loop before the main loop, with `left` iterations to go. -/
  | burst (left : Nat)
  | select
  /-- `consume_pending` awaits `pending_extrinsics`. -/
  | counting
  /-- The loop of `consume_pending`, with `left` iterations to go. -/
  | refill (currentCount : Option Nat) (left : Nat)
  | saving (how : Exit)
  | reporting (how : Exit)
  | returned (how : Exit)
  | panicked (why : Panic)
deriving DecidableEq, Repr

/-- `run` is over, and its locals are dropped. -/
def Phase.ended : Phase → Bool
  | .returned _ | .panicked _ => true
  | _ => false

/-- What does not change during a run. `monitor` is `rpc.transaction_monitor().is_some()`, and
`overflowChecks` is the build profile's. -/
structure Config where
  sendThreshold : Nat
  timeout : Option Duration
  monitor : Bool
  overflowChecks : Bool

/-- One task at a time, until all are done. -/
def oneAtATime : Config :=
  { sendThreshold := 1, timeout := none, monitor := false, overflowChecks := true }

structure State (H : Type*) where
  logs : Logs H
  transactions : List (DefaultTxTask H)
  done : List H
  errors : List H
  eventCounters : Counters
  /-- A `()` waits in the stop channel, which has room for one. -/
  stopQueued : Bool
  senderAlive : Bool
  /-- The future of a worker is named by how many tasks were popped before it. What is left here
  when `run` has ended are the futures that were dropped with it. -/
  workers : AList fun _ : Nat => Worker H
  phase : Phase
  /-- The result of the worker whose branch of the `select!` is being executed. -/
  held : Option (ExecutionResult H)
  timeout : Duration
  iterationStart : Nat
  /-- The monotonic clock. -/
  now : Nat
  wall : SystemTime
  journal : Option (Logs H)
  /-- History: the tasks popped so far, in order. -/
  popped : List (DefaultTxTask H)
  /-- History: the results of the finished workers, in order. -/
  finished : List (Nat × ExecutionResult H)

inductive Input (H : Type*)
  /-- The runner's own code runs on. -/
  | resume
  /-- `workers.next()` polls worker `id`, whose awaited call has returned `r`. -/
  | poll (id : Nat) (r : Reply H)
  | allDone
  | tick
  | timeout
  | stop
  /-- `pending_extrinsics` returns a count, or panics. -/
  | pendingExtrinsics (count : Option Nat)
  | sendStop
  | dropSender
  | elapse (d : Duration)
  | setClock (t : SystemTime)
deriving DecidableEq, Repr

def Input.isMonitorFailure {H : Type*} : Input H → Bool
  | .poll _ r => r.isMonitorFailure
  | _ => false

variable {H : Type*} [DecidableEq H]

/-- The logs that `Runner::new` collects. Tasks with one hash share the log of the last of them. -/
def collectLogs (ts : List (DefaultTxTask H)) : Logs H :=
  ts.foldl (fun logs t => logs.insert t.tx.hash (.newWithTx t.tx)) ∅

/-- `Runner::new`, and the locals of `run` before its first statement. -/
def new (cfg : Config) (ts : List (DefaultTxTask H)) (wall : SystemTime) : State H where
  logs := collectLogs ts
  transactions := ts
  done := []
  errors := []
  eventCounters := {}
  stopQueued := false
  senderAlive := true
  workers := ∅
  phase := .burst cfg.sendThreshold
  held := none
  timeout := cfg.timeout.getD ((2 ^ 64 - 1) * 10 ^ 9)
  iterationStart := 0
  now := 0
  wall := wall
  journal := none
  popped := []
  finished := []

namespace State

def books (s : State H) : Books H := ⟨s.logs, s.eventCounters⟩

def pushEvents (s : State H) (hash : H) (events : List (ExecutionEvent H)) : State H :=
  { s with
    logs := (s.books.pushEvents hash events).logs
    eventCounters := (s.books.pushEvents hash events).eventCounters }

/-- The head of the loop of `run`. -/
def startIteration (s : State H) : State H :=
  { s with phase := .select, iterationStart := s.now }

/-- The adjustment of the timeout at the end of an iteration. -/
def endIteration (s : State H) : State H :=
  { s with timeout := s.timeout - (s.now - s.iterationStart) }.startIteration

def classify (s : State H) : State H :=
  match s.held with
  | none => s
  | some (.done hash) => { s with done := s.done ++ [hash], held := none }
  | some (.error hash) => { s with errors := s.errors ++ [hash], held := none }

/-- The body of either loop that pops, for the task `t` that left `ts` behind. -/
def launch (s : State H) (t : DefaultTxTask H) (ts : List (DefaultTxTask H)) (next : Phase) :
    State H :=
  { s.pushEvents t.tx.hash [.popped s.wall] with
    transactions := ts
    popped := s.popped ++ [t]
    workers := s.workers.insert s.popped.length ⟨t, .created⟩
    phase := next }

/-- One iteration of either loop, or `none` when no task is left. -/
def popAndPush (s : State H) (next : Phase) : Option (State H) :=
  match s.transactions.getLast? with
  | none => none
  | some t =>
      match s.logs.lookup t.tx.hash with
      | none =>
          some { s with
            transactions := s.transactions.dropLast
            popped := s.popped ++ [t]
            phase := .panicked .missingLog }
      | some _ => some (s.launch t s.transactions.dropLast next)

def consumePending (cfg : Config) (s : State H) : State H :=
  { s with phase := if cfg.sendThreshold = usizeMax then .refill none usizeMax else .counting }

def complete (s : State H) (id : Nat) (hash : H) (events : List (ExecutionEvent H))
    (result : ExecutionResult H) : State H :=
  { s.pushEvents hash events with
    workers := s.workers.erase id
    held := some result
    finished := s.finished ++ [(id, result)] }

/-- A worker whose awaited call has returned runs to its next `await` or to its end. -/
def pollWorker (cfg : Config) (s : State H) (id : Nat) (r : Reply H) : Option (State H) :=
  match s.workers.lookup id with
  | none => none
  | some w =>
      match w.task.execute cfg.monitor s.wall w.awaiting r with
      | none => none
      | some (events, .pending p) =>
          some { s.pushEvents w.task.tx.hash events with
            workers := s.workers.insert id { w with awaiting := p } }
      | some (events, .ready result) =>
          some ((s.complete id w.task.tx.hash events result).consumePending cfg)
      | some (_, .panicked) => some { s with phase := .panicked .sink }

/-- The rest of `consume_pending` up to its loop, once `pending_extrinsics` has returned. -/
def startRefill (cfg : Config) (s : State H) (count : Nat) : State H :=
  match s.eventCounters.buffered cfg.overflowChecks with
  | none => { s with phase := .panicked .buffered }
  | some b => { s with phase := .refill (some count) (cfg.sendThreshold - count - b) }

/-- The runner's own steps. `save_logs` is taken to find a writable file, but cannot write a time
before the epoch (`Journal.isSome_saveLogs`). -/
def resume (s : State H) : Option (State H) :=
  match s.phase with
  | .burst 0 => some s.startIteration
  | .burst (n + 1) => some ((s.popAndPush (.burst n)).getD s.startIteration)
  | .refill _ 0 => some s.classify.endIteration
  | .refill c (n + 1) => some ((s.popAndPush (.refill c n)).getD s.classify.endIteration)
  | .saving how =>
      if s.logs.sinceEpoch then some { s with journal := some s.logs, phase := .reporting how }
      else some { s with phase := .panicked .journal }
  | .reporting how =>
      match TransactionExecutionLog.makeStats s.logs.values with
      | none => some { s with phase := .panicked .stats }
      | some _ => some { s with phase := .returned how }
  | _ => none

end State

def tickPeriod : Duration := 3000 * 10 ^ 6

/-- `select!` takes any branch that is ready, without priority. -/
def step (cfg : Config) (s : State H) : Input H → Option (State H)
  | .resume => s.resume
  | .poll id r => if s.phase = .select then s.pollWorker cfg id r else none
  | .allDone =>
      if s.phase = .select ∧ s.workers.entries = [] then some { s with phase := .saving .allDone }
      else none
  | .tick =>
      if s.phase = .select ∧ s.iterationStart + tickPeriod ≤ s.now then
        some (s.consumePending cfg)
      else none
  | .timeout =>
      if s.phase = .select ∧ s.iterationStart + s.timeout ≤ s.now then
        some { s with phase := .saving .timeout }
      else none
  | .stop =>
      if s.phase = .select ∧ (s.stopQueued ∨ ¬ s.senderAlive) then
        some { s with phase := .saving .stop, stopQueued := false }
      else none
  | .pendingExtrinsics count =>
      match s.phase, count with
      | .counting, some n => some (s.startRefill cfg n)
      | .counting, none => some { s with phase := .panicked .sink }
      | _, _ => none
  | .sendStop => if s.senderAlive ∧ ¬ s.stopQueued then some { s with stopQueued := true } else none
  | .dropSender => if s.senderAlive then some { s with senderAlive := false } else none
  | .elapse d => some { s with now := s.now + d }
  | .setClock t => some { s with wall := t }

def machine (H : Type*) [DecidableEq H] (cfg : Config) : Machine (State H) (Input H) := ⟨step cfg⟩

end Runner

end TxTestTool
