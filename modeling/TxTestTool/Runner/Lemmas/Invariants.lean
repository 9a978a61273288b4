import TxTestTool.Runner.Ledger

/-!
# What every run keeps

The invariants are proved for the steps of the ledger and carried over to the runs of the machine.
-/

namespace TxTestTool.Runner

variable {H : Type*}

def ExecutionResult.doneHash : ExecutionResult H → Option H
  | .done hash => some hash
  | .error _ => none

def ExecutionResult.errorHash : ExecutionResult H → Option H
  | .error hash => some hash
  | .done _ => none

namespace Ledger

def unreplied (l : Ledger H) : Nat := l.workers.values.countP (·.awaiting.unreplied)

variable [DecidableEq H]

structure Inv (tasks : List (DefaultTxTask H)) (l : Ledger H) : Prop where
  order : l.popped ++ l.transactions.reverse = tasks.reverse
  keys : ∀ t ∈ tasks, t.tx.hash ∈ l.books.logs
  fresh : ∀ id w, l.workers.lookup id = some w → l.popped[id]? = some w.task
  hashes : ∀ h, (l.popped.map (·.tx.hash)).count h =
    (l.workers.values.map (·.task.tx.hash)).count h + l.done.count h + l.errors.count h +
      (l.held.toList.map (·.hash)).count h
  counted : l.books.eventCounters.popped = l.popped.length
  doneList : l.done ++ l.held.toList.filterMap ExecutionResult.doneHash =
    (l.finished.map Prod.snd).filterMap ExecutionResult.doneHash
  errorList : l.errors ++ l.held.toList.filterMap ExecutionResult.errorHash =
    (l.finished.map Prod.snd).filterMap ExecutionResult.errorHash

variable {tasks : List (DefaultTxTask H)} {l l' : Ledger H}

theorem Inv.mem_popped (h : l.Inv tasks) {t} (ht : t ∈ l.popped) : t ∈ tasks := by
  rw [← List.mem_reverse, ← h.order]
  exact List.mem_append_left _ ht

theorem Inv.mem_transactions (h : l.Inv tasks) {t} (ht : t ∈ l.transactions) : t ∈ tasks := by
  rw [← List.mem_reverse, ← h.order]
  exact List.mem_append_right _ (List.mem_reverse.mpr ht)

theorem Inv.transactions_keys (h : l.Inv tasks) : ∀ t ∈ l.transactions, t.tx.hash ∈ l.books.logs :=
  fun t ht => h.keys t (h.mem_transactions ht)

theorem Inv.worker_keys (h : l.Inv tasks) {id w} (hw : l.workers.lookup id = some w) :
    w.task.tx.hash ∈ l.books.logs :=
  h.keys _ (h.mem_popped (List.mem_of_getElem? (h.fresh id w hw)))

theorem Inv.next_fresh (h : l.Inv tasks) : l.popped.length ∉ l.workers := by
  intro hmem
  obtain ⟨w, hw⟩ := Option.isSome_iff_exists.mp (AList.lookup_isSome.mpr hmem)
  have := h.fresh _ w hw
  simp at this

theorem count_worker {f : Worker H → H} {id w} (hw : l.workers.lookup id = some w) (h : H) :
    (l.workers.values.map f).count h =
      ((l.workers.erase id).values.map f).count h + if f w == h then 1 else 0 := by
  have hp := (AList.values_perm_of_lookup hw).map f
  rw [hp.count_eq, List.map_cons, List.count_cons]

/-! ### One field at a time -/

variable {monitor : Bool} {lbl : Option (Nat × Reply H)}

theorem Step.order (hs : Step monitor l lbl l') (h : l.Inv tasks) :
    l'.popped ++ l'.transactions.reverse = tasks.reverse := by
  have horder := h.order
  cases hs with
  | @pop t ts now ht =>
      simp only [ht, List.reverse_append, List.reverse_cons, List.reverse_nil, List.nil_append,
        List.singleton_append] at horder
      simpa using horder
  | _ => exact horder

theorem Step.keys (hs : Step monitor l lbl l') (h : l.Inv tasks) :
    ∀ t ∈ tasks, t.tx.hash ∈ l'.books.logs := by
  intro t ht
  have hkey := h.keys t ht
  cases hs with
  | pop => exact (Books.mem_pushEvents _).mpr hkey
  | move => exact (Books.mem_pushEvents _).mpr hkey
  | finish => exact (Books.mem_pushEvents _).mpr hkey
  | _ => exact hkey

theorem Step.fresh (hs : Step monitor l lbl l') (h : l.Inv tasks) :
    ∀ id w, l'.workers.lookup id = some w → l'.popped[id]? = some w.task := by
  intro k v hv
  cases hs with
  | pop =>
      rw [AList.lookup_insert_eq] at hv
      split at hv
      · rename_i hk
        cases hv
        simp [hk]
      · have hk := h.fresh k v hv
        rw [List.getElem?_append_left (List.getElem?_eq_some_iff.mp hk).1]
        exact hk
  | @move id w r now es p hw =>
      rw [AList.lookup_insert_eq] at hv
      split at hv
      · rename_i hk
        cases hv
        rw [hk]
        exact h.fresh id w hw
      · exact h.fresh k v hv
  | finish =>
      rw [AList.lookup_erase_eq] at hv
      split at hv
      · cases hv
      · exact h.fresh k v hv
  | _ => exact h.fresh k v hv

/-- A hash moves with its task from the workers to the held result and from there to its list. -/
theorem Step.hashes (hs : Step monitor l lbl l') (h : l.Inv tasks) (a : H) :
    (l'.popped.map (·.tx.hash)).count a =
      (l'.workers.values.map (·.task.tx.hash)).count a + l'.done.count a + l'.errors.count a +
        (l'.held.toList.map (·.hash)).count a := by
  have ha := h.hashes a
  cases hs with
  | pop =>
      simp only [AList.values_insert_of_notMem h.next_fresh, List.map_append, List.map_cons,
        List.map_nil, List.count_append, List.count_cons, List.count_nil] at ha ⊢
      omega
  | move hw =>
      rw [count_worker hw] at ha
      simp only [AList.values_insert, List.map_cons, List.count_cons]
      omega
  | finish hheld hw hm =>
      have hhash := (DefaultTxTask.execute_move hm).ready_hash
      rw [count_worker hw, hheld] at ha
      simp only [Option.toList_none, List.map_nil, List.count_nil, Option.toList_some,
        List.map_cons, List.count_cons, hhash] at ha ⊢
      omega
  | done hheld =>
      simp only [hheld, Option.toList_some, List.map_cons, List.map_nil, ExecutionResult.hash,
        List.count_cons, List.count_nil] at ha
      simp only [List.count_append, List.count_cons, List.count_nil, Option.toList_none,
        List.map_nil]
      omega
  | error hheld =>
      simp only [hheld, Option.toList_some, List.map_cons, List.map_nil, ExecutionResult.hash,
        List.count_cons, List.count_nil] at ha
      simp only [List.count_append, List.count_cons, List.count_nil, Option.toList_none,
        List.map_nil]
      omega
  | _ => exact ha

theorem Step.counted (hs : Step monitor l lbl l') (h : l.Inv tasks) :
    l'.books.eventCounters.popped = l'.popped.length := by
  have hcounted := h.counted
  have hmove : ∀ {id w now r es q}, l.workers.lookup id = some w →
      w.task.execute monitor now w.awaiting r = some (es, q) →
      (l.books.pushEvents w.task.tx.hash es).eventCounters.popped = l.popped.length := by
    intro id w now r es q hw hm
    have hnone : es.countP (·.isPopped) = 0 := (DefaultTxTask.execute_move hm).popped_eq_zero
    rw [Books.pushEvents_popped (h.worker_keys hw), hcounted, hnone, Nat.add_zero]
  cases hs with
  | pop ht hlog =>
      simp only [Books.pushEvents_popped hlog, hcounted, List.length_append]
      rfl
  | move hw hm => exact hmove hw hm
  | finish hheld hw hm => exact hmove hw hm
  | _ => exact hcounted

theorem Step.doneList (hs : Step monitor l lbl l') (h : l.Inv tasks) :
    l'.done ++ l'.held.toList.filterMap ExecutionResult.doneHash =
      (l'.finished.map Prod.snd).filterMap ExecutionResult.doneHash := by
  have hdone := h.doneList
  cases hs with
  | @finish id w r now es result hheld hw hm =>
      simp only [hheld, Option.toList_none, List.filterMap_nil, List.append_nil] at hdone
      cases result <;> simp [hdone, ExecutionResult.doneHash]
  | done hheld => simpa [hheld, ExecutionResult.doneHash] using hdone
  | error hheld => simpa [hheld, ExecutionResult.doneHash, List.filterMap_cons] using hdone
  | _ => exact hdone

theorem Step.errorList (hs : Step monitor l lbl l') (h : l.Inv tasks) :
    l'.errors ++ l'.held.toList.filterMap ExecutionResult.errorHash =
      (l'.finished.map Prod.snd).filterMap ExecutionResult.errorHash := by
  have herror := h.errorList
  cases hs with
  | @finish id w r now es result hheld hw hm =>
      simp only [hheld, Option.toList_none, List.filterMap_nil, List.append_nil] at herror
      cases result <;> simp [herror, ExecutionResult.errorHash]
  | done hheld => simpa [hheld, ExecutionResult.errorHash, List.filterMap_cons] using herror
  | error hheld => simpa [hheld, ExecutionResult.errorHash] using herror
  | _ => exact herror

theorem Step.inv (hs : Step monitor l lbl l') (h : l.Inv tasks) : l'.Inv tasks :=
  ⟨hs.order h, hs.keys h, hs.fresh h, hs.hashes h, hs.counted h, hs.doneList h, hs.errorList h⟩

/-! ## Results against pops -/

def failures : Option (Nat × Reply H) → Nat
  | some (_, r) => r.isMonitorFailure.toNat
  | none => 0

omit [DecidableEq H] in
theorem unreplied_worker {id w} (hw : l.workers.lookup id = some w) :
    l.unreplied = (l.workers.erase id).values.countP (·.awaiting.unreplied) +
      w.awaiting.unreplied.toNat := by
  unfold unreplied
  rw [(AList.values_perm_of_lookup hw).countP_eq, List.countP_cons]
  cases w.awaiting.unreplied <;> rfl

/-- The balance of pops, results and tasks without a result changes only with a failure of the
monitor, which is counted as one more result. -/
theorem Step.balance {n : Nat} (hs : Step monitor l lbl l') (h : l.Inv tasks)
    (hbal : l.books.eventCounters.popped + n = l.books.eventCounters.results + l.unreplied) :
    l'.books.eventCounters.popped + (n + failures lbl) =
      l'.books.eventCounters.results + l'.unreplied := by
  cases hs with
  | stutter => exact hbal
  | @pop t ts now ht hlog =>
      simp only [Books.pushEvents_popped hlog, Books.pushEvents_results hlog, unreplied,
        AList.values_insert_of_notMem h.next_fresh, List.countP_cons, List.countP_nil, failures,
        ExecutionEvent.isPopped, ExecutionEvent.isResult, AwaitPoint.unreplied] at hbal ⊢
      simp only [↓reduceIte, Bool.false_eq_true]
      omega
  | @move id w r now es p hw hm =>
      have hmove := DefaultTxTask.execute_move hm
      have hres := hmove.results (by simp)
      have hkey := h.worker_keys hw
      rw [unreplied_worker hw] at hbal
      simp only [Books.pushEvents_popped hkey, Books.pushEvents_results hkey, unreplied,
        AList.values_insert, List.countP_cons, failures,
        hmove.popped_eq_zero]
      simp only [Poll.unreplied] at hres
      cases hp : p.unreplied <;> simp only [hp, Bool.toNat_false, Bool.toNat_true, ↓reduceIte,
        Bool.false_eq_true] at hres ⊢ <;> omega
  | @finish id w r now es result hheld hw hm =>
      have hmove := DefaultTxTask.execute_move hm
      have hres := hmove.results (by simp)
      have hkey := h.worker_keys hw
      rw [unreplied_worker hw] at hbal
      simp only [Books.pushEvents_popped hkey, Books.pushEvents_results hkey, unreplied, failures,
        hmove.popped_eq_zero]
      simp only [Poll.unreplied, Bool.toNat_false] at hres
      omega
  | @panic id w r now es hw hm =>
      have hr : r.isMonitorFailure = false := (DefaultTxTask.execute_move hm).panicked_reply
      simpa only [failures, hr, Bool.toNat_false, Nat.add_zero] using hbal
  | done => exact hbal
  | error => exact hbal

end Ledger

/-! ## From steps to runs -/

variable [DecidableEq H] {cfg : Config} {tasks : List (DefaultTxTask H)} {wall : SystemTime}
  {is : List (Input H)} {s s' : State H}

theorem mem_collectLogs {ts : List (DefaultTxTask H)} {t} (ht : t ∈ ts) :
    t.tx.hash ∈ collectLogs ts := by
  unfold collectLogs
  generalize (∅ : Logs H) = logs
  suffices hgen : ∀ (us : List (DefaultTxTask H)) (logs : Logs H),
      (∃ u ∈ us, u.tx.hash = t.tx.hash) ∨ t.tx.hash ∈ logs →
      t.tx.hash ∈ us.foldl (fun logs t => logs.insert t.tx.hash (.newWithTx t.tx)) logs from
    hgen ts logs (Or.inl ⟨t, ht, rfl⟩)
  intro us
  induction us with
  | nil => simp
  | cons u us ih =>
      intro logs h
      apply ih
      rcases h with ⟨v, hv, he⟩ | h
      · rcases List.mem_cons.mp hv with rfl | hv
        · exact Or.inr (by simp [he])
        · exact Or.inl ⟨v, hv, he⟩
      · exact Or.inr (by simp [h])

theorem collectLogs_events {ts : List (DefaultTxTask H)} {a : H} {log : TransactionExecutionLog H}
    (h : (collectLogs ts).lookup a = some log) : log.events = [] := by
  have hfold : ∀ (ts : List (DefaultTxTask H)) (logs : Logs H),
      (∀ a log, logs.lookup a = some log → log.events = []) →
      ∀ a log, (ts.foldl (fun logs t => logs.insert t.tx.hash (.newWithTx t.tx)) logs).lookup a =
        some log → log.events = [] := by
    intro ts
    induction ts with
    | nil => exact fun _ h => h
    | cons t ts ih =>
        intro logs hlogs
        apply ih
        intro a log hl
        rw [AList.lookup_insert_eq] at hl
        split at hl
        · cases hl
          rfl
        · exact hlogs a log hl
  exact hfold ts ∅ (fun _ _ hl => by cases hl) a log h

theorem new_inv : (new cfg tasks wall).ledger.Inv tasks where
  order := rfl
  keys _ ht := mem_collectLogs ht
  fresh _ _ hw := by cases hw
  hashes _ := rfl
  counted := rfl
  doneList := rfl
  errorList := rfl

structure Good (tasks : List (DefaultTxTask H)) (s : State H) : Prop where
  inv : s.ledger.Inv tasks
  idle : s.Idle
  found : s.phase ≠ .panicked .missingLog

theorem Good.transactions_keys (h : Good tasks s) : ∀ t ∈ s.transactions, t.tx.hash ∈ s.logs :=
  h.inv.transactions_keys

/-- The only panic that a lookup could raise is excluded by the keys of the logs. -/
theorem Trans.found {i} (hs : Trans cfg s i s') (h : Good tasks s) :
    s'.phase ≠ .panicked .missingLog := by
  intro hph
  rcases hs.panics hph with hp | hp
  · cases hp with
    | missingLog ht hlog => exact hlog (h.transactions_keys _ ht)
  · exact h.found hp

theorem step_good (h : Good tasks s) {i} (hs : step cfg s i = some s') : Good tasks s' := by
  have ht := step_trans hs
  obtain ⟨hl, hidle⟩ := ht.ledger h.idle h.transactions_keys
  exact ⟨hl.inv h.inv, hidle, ht.found h⟩

theorem new_good : Good tasks (new cfg tasks wall) where
  inv := new_inv
  idle _ := rfl
  found := by simp [new]

theorem run_good (h : (machine H cfg).run (new cfg tasks wall) is = some s) : Good tasks s :=
  Machine.run_invariant (M := machine H cfg) (fun _ _ _ hg hs => step_good hg hs) new_good h

def monitorFailures (is : List (Input H)) : Nat := is.countP (·.isMonitorFailure)

omit [DecidableEq H] in
theorem failures_reply (i : Input H) : Ledger.failures i.reply = i.isMonitorFailure.toNat := by
  cases i <;> rfl

/-- Over a whole run, pops and failures of the monitor balance results and tasks without one. -/
theorem run_balance (h : (machine H cfg).run (new cfg tasks wall) is = some s) :
    s.eventCounters.popped + monitorFailures is =
      s.eventCounters.results + s.ledger.unreplied := by
  let Inv : List (Input H) → State H → Prop := fun past s => Good tasks s ∧
    s.eventCounters.popped + monitorFailures past = s.eventCounters.results + s.ledger.unreplied
  have hstep : ∀ past s i t, Inv past s → (machine H cfg).step s i = some t →
      Inv (past ++ [i]) t := by
    intro past s i t ⟨hg, hbal⟩ ht
    refine ⟨step_good hg ht, ?_⟩
    obtain ⟨hl, _⟩ := (step_trans ht).ledger hg.idle hg.transactions_keys
    have hb := hl.balance hg.inv hbal
    have hsum : monitorFailures (past ++ [i]) = monitorFailures past + Ledger.failures i.reply := by
      rw [failures_reply, monitorFailures, List.countP_append]
      cases hi : i.isMonitorFailure <;> simp [monitorFailures, hi]
    rw [hsum]
    exact hb
  have h₀ : Inv [] (new cfg tasks wall) := ⟨new_good, rfl⟩
  exact (Machine.run_history_invariant hstep h₀ h).2

/-- As long as no failure of the monitor has been counted as a result, `buffered` is exact. -/
theorem run_buffered (h : (machine H cfg).run (new cfg tasks wall) is = some s)
    (hnone : monitorFailures is = 0) :
    s.eventCounters.InRange ∧
      s.eventCounters.buffered cfg.overflowChecks = some s.ledger.unreplied := by
  have hbal := run_balance h
  rw [hnone, Nat.add_zero] at hbal
  exact Counters.buffered_of_balance hbal _

/-! ## Without a monitor -/

def State.Unwaited (s : State H) : Prop :=
  ∀ id w, s.workers.lookup id = some w → w.awaiting ≠ .waiting

theorem Trans.no_failure {i} (hs : Trans cfg s i s') (h : s.Unwaited) :
    i.isMonitorFailure = false := by
  have hreply : ∀ {id w r es q}, s.workers.lookup id = some w →
      w.task.execute cfg.monitor s.wall w.awaiting r = some (es, q) →
      r.isMonitorFailure = false := by
    intro id w r es q hw hm
    cases hr : r.isMonitorFailure with
    | false => rfl
    | true => exact absurd ((DefaultTxTask.execute_move hm).waiting_of_failure hr) (h id w hw)
  cases hs with
  | move _ hw hm => exact hreply hw hm
  | finish _ hw hm => exact hreply hw hm
  | workerPanic _ hw hm => exact hreply hw hm
  | _ => rfl

theorem Trans.unwaited {i} (hmon : cfg.monitor = false) (hs : Trans cfg s i s') (h : s.Unwaited) :
    s'.Unwaited := by
  cases hs with
  | pop =>
      intro id w hw
      simp only [State.launch, AList.lookup_insert_eq] at hw
      split at hw
      · simp only [Option.some.injEq] at hw; subst hw; simp
      · exact h id w hw
  | move _ _ hm =>
      rw [hmon] at hm
      intro id w hw
      simp only [AList.lookup_insert_eq] at hw
      split at hw
      · simp only [Option.some.injEq] at hw; subst hw
        exact DefaultTxTask.execute_unwaited hm
      · exact h id w hw
  | finish =>
      intro id w hw
      simp only [State.consumePending, State.complete, AList.lookup_erase_eq] at hw
      split at hw
      · cases hw
      · exact h id w hw
  | classify =>
      obtain ⟨_, _, _, _, he⟩ := classify_frame s
      rw [he]
      exact h
  | count =>
      rcases startRefill_phase cfg s _ with he | ⟨b, _, he⟩ <;> rw [he] <;> exact h
  | _ => exact h

theorem run_buffered_of_no_monitor (hmon : cfg.monitor = false)
    (h : (machine H cfg).run (new cfg tasks wall) is = some s) :
    s.eventCounters.buffered cfg.overflowChecks = some s.ledger.unreplied := by
  let Inv : List (Input H) → State H → Prop := fun past s => s.Unwaited ∧
    ∀ i ∈ past, i.isMonitorFailure = false
  have hstep : ∀ past s i t, Inv past s → (machine H cfg).step s i = some t →
      Inv (past ++ [i]) t := by
    intro past s i t ⟨hu, hpast⟩ ht
    have htrans := step_trans ht
    refine ⟨htrans.unwaited hmon hu, fun j hj => ?_⟩
    rcases List.mem_append.mp hj with hj | hj
    · exact hpast j hj
    · rw [List.mem_singleton] at hj
      exact hj ▸ htrans.no_failure hu
  have h₀ : Inv [] (new cfg tasks wall) :=
    ⟨fun _ _ hw => (by cases hw), fun _ hi => (by cases hi)⟩
  have hend := (Machine.run_history_invariant hstep h₀ h).2
  refine (run_buffered h (List.countP_eq_zero.mpr fun i hi => ?_)).2
  simpa using hend i hi

end TxTestTool.Runner
