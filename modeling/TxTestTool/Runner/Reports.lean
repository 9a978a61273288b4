import TxTestTool.Log.Journal
import TxTestTool.Log.Statistics
import TxTestTool.Runner.Lemmas.Health
import TxTestTool.Runner.Lemmas.Replay
import TxTestTool.Runner.Records

/-!
# The report of a run and the report of its journal
-/

namespace TxTestTool

variable {H : Type*}

open TransactionExecutionLog

theorem TransactionExecutionLog.getSentTime_isSome {l : TransactionExecutionLog H} :
    l.getSentTime.isSome = true ↔ ∃ e ∈ l.events, e.isSent = true := by
  rw [getSentTime, getSentTimeStamp, List.findSome?_isSome_iff]
  constructor
  · rintro ⟨e, he, hs⟩
    refine ⟨e, he, ?_⟩
    cases e with
    | sent => rfl
    | _ => cases hs
  · rintro ⟨e, he, hs⟩
    refine ⟨e, he, ?_⟩
    cases e with
    | sent => rfl
    | _ => cases hs

namespace ExecutionEvent

def isPool : ExecutionEvent H → Bool
  | .txPoolEvent _ _ => true
  | _ => false

end ExecutionEvent

/-! ## What one poll writes -/

/-- Block numbers are `u64`. -/
def Reply.Fits : Reply H → Prop
  | .wait (.error (.mortalLifetimeSurpassed n)) => n < 2 ^ 64
  | _ => True

theorem DefaultTxTask.execute_writable {t : DefaultTxTask H} {monitor : Bool} {now : SystemTime}
    {p : AwaitPoint} {r : Reply H} {es : List (ExecutionEvent H)} {q : Poll H}
    (h : t.execute monitor now p r = some (es, q)) (hnow : SystemTime.codec.Valid now)
    (hr : r.Fits) : ∀ e ∈ es, e.Writable := by
  unfold execute sendWatchedTx sendTx at h
  split at h <;> split at h <;>
    simp only [Option.some.injEq, Prod.mk.injEq, reduceCtorEq] at h
  all_goals
    obtain ⟨rfl, _⟩ := h
    simp only [List.forall_mem_singleton, List.not_mem_nil, false_implies, implies_true]
  all_goals first | exact hnow | exact ⟨hnow, hr⟩

namespace Books

variable [DecidableEq H] {b : Books H} {hash : H} {es : List (ExecutionEvent H)}

/-- The pool has reported on sent transactions only. -/
def Started (b : Books H) : Prop := ∀ a log, b.logs.lookup a = some log → log.Started

def Writable (b : Books H) : Prop := ∀ a log, b.logs.lookup a = some log → log.Writable

theorem Started.pushes (h : b.Started) (hes : b.HasSent hash ∨ ∀ e ∈ es, e.isPool = false) :
    (b.pushEvents hash es).Started := by
  intro a log hlog
  rw [lookup_pushEvents] at hlog
  split at hlog
  · obtain ⟨old, hold, rfl⟩ := Option.map_eq_some_iff.mp hlog
    rintro ⟨i, status, hmem⟩
    have hsent : old.getSentTime.isSome = true := by
      rcases hes with ⟨log', hlog', hsent⟩ | hnone
      · rw [hold, Option.some.injEq] at hlog'
        subst hlog'
        exact getSentTime_isSome.mpr hsent
      · rcases List.mem_append.mp hmem with hmem | hmem
        · exact h hash old hold ⟨i, status, hmem⟩
        · cases hnone _ hmem
    obtain ⟨e, he, hs⟩ := getSentTime_isSome.mp hsent
    exact getSentTime_isSome.mpr ⟨e, List.mem_append_left _ he, hs⟩
  · exact h a log hlog

theorem Writable.pushes (h : b.Writable) (hes : ∀ e ∈ es, e.Writable) :
    (b.pushEvents hash es).Writable := by
  intro a log hlog
  rw [lookup_pushEvents] at hlog
  split at hlog
  · obtain ⟨old, hold, rfl⟩ := Option.map_eq_some_iff.mp hlog
    obtain ⟨hevents, hmeta, hnonce⟩ := h hash old hold
    refine ⟨fun e he => ?_, hmeta, hnonce⟩
    rcases List.mem_append.mp he with he | he
    · exact hevents e he
    · exact hes e he
  · exact h a log hlog

end Books

namespace Runner

variable [DecidableEq H] {cfg : Config} {tasks : List (DefaultTxTask H)} {wall : SystemTime}
  {is : List (Input H)} {s s' : State H} {i : Input H}

/-! ## The report of a run -/

namespace Ledger

variable {l l' : Ledger H} {monitor : Bool} {lbl : Option (Nat × Reply H)}

structure Started (l : Ledger H) : Prop where
  workers : ∀ id w, l.workers.lookup id = some w → w.awaiting ≠ .created →
    l.books.HasSent w.task.tx.hash
  books : l.books.Started

/-- A future that has been polled before has sent its transaction. One that has not sends it
now. -/
theorem Started.poll {id w r now es q} (h : l.Started) (hinv : l.Inv tasks)
    (hw : l.workers.lookup id = some w)
    (hm : w.task.execute monitor now w.awaiting r = some (es, q)) :
    (l.books.pushEvents w.task.tx.hash es).Started ∧
      (l.books.pushEvents w.task.tx.hash es).HasSent w.task.tx.hash := by
  by_cases hnew : w.awaiting = .created
  · have hmove := DefaultTxTask.execute_move hm
    rw [hnew] at hmove
    rw [hmove.created]
    refine ⟨h.books.pushes (Or.inr fun e he => ?_), Books.HasSent.new (hinv.worker_keys hw) rfl⟩
    rw [List.mem_singleton.mp he]
    rfl
  · have hsent := h.workers id w hw hnew
    exact ⟨h.books.pushes (Or.inl hsent), hsent.pushes⟩

theorem Step.started (hs : Step monitor l lbl l') (hinv : l.Inv tasks) (h : l.Started) :
    l'.Started := by
  cases hs with
  | pop =>
      refine ⟨fun k v hv hcr => ?_, h.books.pushes (Or.inr fun e he => ?_)⟩
      · rw [AList.lookup_insert_eq] at hv
        split at hv
        · cases hv
          exact absurd rfl hcr
        · exact (h.workers k v hv hcr).pushes
      · rw [List.mem_singleton.mp he]
        rfl
  | move hw hm =>
      obtain ⟨hbooks, hsent⟩ := h.poll hinv hw hm
      refine ⟨fun k v hv hcr => ?_, hbooks⟩
      rw [AList.lookup_insert_eq] at hv
      split at hv
      · cases hv
        exact hsent
      · exact (h.workers k v hv hcr).pushes
  | finish hheld hw hm =>
      refine ⟨fun k v hv hcr => ?_, (h.poll hinv hw hm).1⟩
      rw [AList.lookup_erase_eq] at hv
      split at hv
      · cases hv
      · exact (h.workers k v hv hcr).pushes
  | _ => exact ⟨h.workers, h.books⟩

end Ledger

theorem run_started (h : (machine H cfg).run (new cfg tasks wall) is = some s) :
    ∀ log ∈ s.logs.values, log.Started := by
  let Inv : State H → Prop := fun s => Good tasks s ∧ s.ledger.Started
  have hstep : ∀ s i t, Inv s → (machine H cfg).step s i = some t → Inv t := by
    intro s i t ⟨hg, hstarted⟩ ht
    obtain ⟨hl, _⟩ := (step_trans ht).ledger hg.idle hg.transactions_keys
    exact ⟨step_good hg ht, hl.started hg.inv hstarted⟩
  have h₀ : Inv (new cfg tasks wall) := by
    refine ⟨new_good, fun _ _ hw => (by cases hw), fun a log hlog => ?_⟩
    rintro ⟨i, status, hmem⟩
    rw [collectLogs_events hlog] at hmem
    cases hmem
  have hend := (Machine.run_invariant hstep h₀ h).2
  intro log hlog
  obtain ⟨a, ha⟩ := AList.mem_values.mp hlog
  exact hend.books a log ha

/-- In every state of every run, a report on the logs adds up to the counters of the stats line:
the reasons of each kind of failure, and the letters of the timeline, where a transaction that was
included more than once is one included transaction. -/
theorem reports_agree (h : (machine H cfg).run (new cfg tasks wall) is = some s)
    {r : StatsReport} (hr : statsReport s.logs.values = some r) : r.Agrees s.eventCounters := by
  rw [run_tallied h]
  exact statsReport_agrees (run_started h) hr

theorem reports_agree_two : ∃ s r,
    (machine Nat oneAtATime).run (new oneAtATime [watched 2, watched 1] 0) watchedInputs = some s ∧
    statsReport s.logs.values = some r ∧ r.Agrees s.eventCounters ∧
    s.eventCounters.tsDropped = 1 ∧ s.eventCounters.tsInBlock = 1 :=
  ⟨_, _, rfl, rfl, @reports_agree Nat _ oneAtATime [watched 2, watched 1] 0 watchedInputs _ rfl _ rfl,
    rfl, rfl⟩

/-! ## The journal of a run -/

/-- The clock shows a time that can be written. -/
def Input.Fits : Input H → Prop
  | .setClock t => SystemTime.codec.Valid t
  | .poll _ r => r.Fits
  | _ => True

/-- Account ids are `u32` and nonces `u128`. -/
def Fits (tasks : List (DefaultTxTask H)) : Prop :=
  ∀ t ∈ tasks, AccountMetadata.codec.Valid t.tx.accountMetadata ∧ t.tx.nonce < 2 ^ 128

theorem collectLogs_writable (hfits : Fits tasks) {a : H} {log : TransactionExecutionLog H}
    (h : (collectLogs tasks).lookup a = some log) : log.Writable := by
  have hfold : ∀ (ts : List (DefaultTxTask H)) (logs : Logs H), Fits ts →
      (∀ a log, logs.lookup a = some log → log.Writable) →
      ∀ a log, (ts.foldl (fun logs t => logs.insert t.tx.hash (.newWithTx t.tx)) logs).lookup a =
        some log → log.Writable := by
    intro ts
    induction ts with
    | nil => exact fun _ _ h => h
    | cons t ts ih =>
        intro logs hts hlogs
        apply ih _ fun u hu => hts u (List.mem_cons_of_mem t hu)
        intro a log hl
        rw [AList.lookup_insert_eq] at hl
        split at hl
        · cases hl
          obtain ⟨hmeta, hnonce⟩ := hts t (List.mem_cons_self ..)
          exact ⟨fun e he => (by cases he), hmeta, hnonce⟩
        · exact hlogs a log hl
  exact hfold tasks ∅ hfits (fun _ _ hl => by cases hl) a log h

theorem Trans.writable (hs : Trans cfg s i s') (hi : i.Fits) (hwall : SystemTime.codec.Valid s.wall)
    (h : s.books.Writable) : s'.books.Writable ∧ SystemTime.codec.Valid s'.wall := by
  cases hs with
  | pop =>
      refine ⟨h.pushes fun e he => ?_, hwall⟩
      rw [List.mem_singleton.mp he]
      exact hwall
  | move hp hw hm => exact ⟨h.pushes (DefaultTxTask.execute_writable hm hwall hi), hwall⟩
  | finish hp hw hm => exact ⟨h.pushes (DefaultTxTask.execute_writable hm hwall hi), hwall⟩
  | classify =>
      obtain ⟨_, _, _, _, he⟩ := classify_frame s
      rw [he]
      exact ⟨h, hwall⟩
  | @count n =>
      rcases startRefill_phase cfg s n with he | ⟨b, _, he⟩ <;> rw [he] <;> exact ⟨h, hwall⟩
  | setClock => exact ⟨h, hi⟩
  | _ => exact ⟨h, hwall⟩

theorem run_writable (hfits : Fits tasks) (hwall : SystemTime.codec.Valid wall)
    (his : ∀ i ∈ is, i.Fits) (h : (machine H cfg).run (new cfg tasks wall) is = some s) :
    ∀ a log, s.logs.lookup a = some log → log.Writable := by
  let Inv : State H → Prop := fun s => s.books.Writable ∧ SystemTime.codec.Valid s.wall
  have hstep : ∀ s t, ∀ i ∈ is, Inv s → (machine H cfg).step s i = some t → Inv t :=
    fun s t i hi ⟨hb, hw⟩ ht => (step_trans ht).writable (his i hi) hw hb
  have h₀ : Inv (new cfg tasks wall) := ⟨fun _ _ hl => collectLogs_writable hfits hl, hwall⟩
  exact (Machine.run_invariant_of_mem hstep h₀ h).1

/-- A run that has returned has shown its report. -/
def State.Shown (s : State H) : Prop :=
  ∀ how, s.phase = .returned how → (makeStats s.logs.values).isSome = true

theorem Trans.shown (hs : Trans cfg s i s') (h : s.Shown) : s'.Shown := by
  intro how hph
  cases hs with
  | report _ hst => rw [hst]; rfl
  | pop hp => cases hold : s.phase <;> rw [hold] at hp <;> cases hp <;> cases hph
  | move hp =>
      have hsel : s.phase = .returned how := hph
      rw [hp] at hsel
      cases hsel
  | finish =>
      rcases consumePending_phase cfg (s.complete _ _ _ _) with he | he <;> rw [he] at hph <;>
        cases hph
  | tick => rcases consumePending_phase cfg s with he | he <;> rw [he] at hph <;> cases hph
  | classify =>
      obtain ⟨_, _, _, _, he⟩ := classify_frame s
      rw [he] at hph
      cases hph
  | @count n =>
      rcases startRefill_phase cfg s n with he | ⟨b, _, he⟩ <;> rw [he] at hph <;> cases hph
  | sendStop | dropSender | elapse | setClock => exact h how hph
  | _ => cases hph

/-- When a run has returned, its journal is the logs it ended with, and their report was shown. -/
theorem run_shown {how : Exit} (h : (machine H cfg).run (new cfg tasks wall) is = some s)
    (hret : s.phase = .returned how) :
    s.journal = some s.logs ∧ ∃ r, statsReport s.logs.values = some r := by
  let Inv : State H → Prop := fun s => s.Saved ∧ s.Shown
  have hstep : ∀ s i t, Inv s → (machine H cfg).step s i = some t → Inv t :=
    fun s i t ⟨hsaved, hshown⟩ ht =>
      ⟨(step_trans ht).saved hsaved, (step_trans ht).shown hshown⟩
  have h₀ : Inv (new cfg tasks wall) := by
    refine ⟨fun _ hp => ?_, fun _ hp => ?_⟩
    · rcases hp with hp | hp <;> cases hp
    · cases hp
  obtain ⟨hsaved, hshown⟩ := Machine.run_invariant hstep h₀ h
  refine ⟨hsaved how (Or.inr hret), ?_⟩
  rw [statsReport]
  obtain ⟨times, htimes⟩ := Option.isSome_iff_exists.mp (hshown how hret)
  exact ⟨_, by rw [htimes]; rfl⟩

/-- The journal of a run that has returned can be written and read back, in whatever order its map
is gone through, and what is read back gives the counters that the run ended with and the report
that it showed. -/
theorem journal_recounts (hash : TextForm H) {how : Exit} (hfits : Fits tasks)
    (hwall : SystemTime.codec.Valid wall) (his : ∀ i ∈ is, i.Fits)
    (h : (machine H cfg).run (new cfg tasks wall) is = some s) (hret : s.phase = .returned how) :
    ∃ journal report, s.journal = some journal ∧ statsReport s.logs.values = some report ∧
      ∀ order, order.Perm journal.pairs → ∃ text loaded,
        Journal.saveLogs hash order = some text ∧ Journal.loadLogs hash text = some loaded ∧
        Counters.tally loaded.values = s.eventCounters ∧
        ∃ again, statsReport loaded.values = some again ∧ report.Same again ∧
          again.Agrees s.eventCounters := by
  obtain ⟨hsaved, report, hreport⟩ := run_shown h hret
  refine ⟨s.logs, report, hsaved, hreport, fun order horder => ?_⟩
  have hvalid := Journal.codec_valid hash (run_writable hfits hwall his h) horder
  obtain ⟨text, hwrite, hread⟩ := (Journal.codec hash).read_write
    (by rw [Journal.codec_depth]; decide) hvalid
  have hvalues : s.logs.values.Perm (AList.ofPairs order).values := by
    rw [AList.values_eq_pairs, AList.values_eq_pairs]
    exact (AList.pairs_perm fun a => (Journal.lookup_ofPairs_perm horder a).symm).map Prod.snd
  obtain ⟨again, hagain, hsame⟩ := statsReport_perm hvalues hreport
  have htally : Counters.tally (AList.ofPairs order).values = s.eventCounters := by
    rw [run_tallied h, Counters.tally_perm hvalues]
  have hstarted : ∀ log ∈ (AList.ofPairs order).values, log.Started :=
    fun log hlog => run_started h log (hvalues.mem_iff.mpr hlog)
  refine ⟨text, AList.ofPairs order, hwrite, ?_, htally, again, hagain, hsame, ?_⟩
  · rw [Journal.loadLogs, hread, Option.map_some]
  · rw [← htally]
    exact statsReport_agrees hstarted hagain

def bookedTasks : List (DefaultTxTask FakeHash) :=
  [⟨⟨.ofIndex 2, 1, none, .keyRing "alice"⟩, true⟩, ⟨⟨.ofIndex 1, 0, none, .derived 7⟩, false⟩]

/-- One task is submitted, the other is watched and dropped. The clock is two seconds after the
epoch when the second one starts. -/
def bookedInputs : List (Input FakeHash) :=
  [.resume, .resume, .poll 0 .start, .poll 0 (.submit (.ok (.ofIndex 1))),
    .pendingExtrinsics (some 0), .resume, .setClock 2000000000, .resume, .poll 1 .start,
    .poll 1 (.submitAndWatch (.ok ())), .poll 1 (.next (some (.dropped "full"))),
    .pendingExtrinsics (some 0), .resume, .allDone, .resume, .resume]

theorem journal_recounts_booked : ∃ s journal text loaded,
    (machine FakeHash oneAtATime).run (new oneAtATime bookedTasks 0) bookedInputs = some s ∧
      s.journal = some journal ∧ Journal.saveLogs FakeHash.textForm journal.pairs = some text ∧
      Journal.loadLogs FakeHash.textForm text = some loaded ∧
      (Counters.tally loaded.values).tsDropped = 1 := by
  have hfits : Fits bookedTasks := by
    intro t ht
    simp only [bookedTasks, List.mem_cons, List.not_mem_nil, or_false] at ht
    rcases ht with rfl | rfl
    · exact ⟨trivial, by decide⟩
    · exact ⟨show 7 < 2 ^ 32 by decide, by decide⟩
  have his : ∀ i ∈ bookedInputs, i.Fits := by
    intro i hi
    simp only [bookedInputs, List.mem_cons, List.not_mem_nil, or_false] at hi
    rcases hi with rfl | rfl | rfl | rfl | rfl | rfl | rfl | rfl | rfl | rfl | rfl | rfl | rfl |
      rfl | rfl | rfl
    all_goals trivial
  obtain ⟨journal, _, hsaved, _, hback⟩ := @journal_recounts FakeHash _ oneAtATime bookedTasks 0
    bookedInputs _ FakeHash.textForm .allDone hfits ⟨by decide, by decide⟩ his rfl rfl
  obtain ⟨text, loaded, hsave, hload, htally, _⟩ := hback journal.pairs (List.Perm.refl _)
  refine ⟨_, journal, text, loaded, rfl, hsaved, hsave, hload, ?_⟩
  rw [htally]
  rfl

end Runner

end TxTestTool
