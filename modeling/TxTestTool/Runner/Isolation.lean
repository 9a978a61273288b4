import TxTestTool.Runner.Lemmas.Replay
import TxTestTool.Runner.Records

/-!
# Every log belongs to one task

A log holds what its own task wrote, given the replies that this task had and nothing else.
-/

namespace TxTestTool

variable {H : Type*}

namespace DefaultTxTask

variable {t : DefaultTxTask H} {monitor : Bool} {now now' : Nat → SystemTime}

/-- The future reads the clock once for each reply. -/
theorem drive_congr {rs : List (Reply H)} {n : Nat} {q : Poll H}
    (h : ∀ k < rs.length, now (n + k) = now' (n + k)) :
    t.drive monitor now n q rs = t.drive monitor now' n q rs := by
  induction rs generalizing n q with
  | nil => cases q <;> rfl
  | cons r rs ih =>
      cases q with
      | pending p =>
          have hnow : now n = now' n := h 0 (by simp)
          have htail : ∀ k < rs.length, now (n + 1 + k) = now' (n + 1 + k) := by
            intro k hk
            have hnext := h (k + 1) (by simpa using hk)
            rwa [Nat.add_comm k, ← Nat.add_assoc] at hnext
          simp only [drive, hnow, ih htail]
      | ready => rfl
      | panicked => rfl

theorem drive_snoc {rs : List (Reply H)} {n : Nat} {q q' : Poll H} {p : AwaitPoint} {r : Reply H}
    {es es' : List (ExecutionEvent H)} (h : t.drive monitor now n q rs = some (es, .pending p))
    (hm : t.execute monitor (now (n + rs.length)) p r = some (es', q')) :
    t.drive monitor now n q (rs ++ [r]) = some (es ++ es', q') := by
  induction rs generalizing n q es with
  | nil =>
      have hq : q = .pending p ∧ es = [] := by
        cases q <;> simp_all [drive]
      obtain ⟨rfl, rfl⟩ := hq
      have hexec : t.execute monitor (now n) p r = some (es', q') := hm
      cases q' <;> simp [drive, hexec]
  | cons r₀ rs ih =>
      cases q with
      | pending p₀ =>
          simp only [drive, Option.bind_eq_some_iff, Option.map_eq_some_iff] at h
          obtain ⟨⟨es₀, q₀⟩, hexec, ⟨es₁, q₁⟩, htail, heq⟩ := h
          simp only [Prod.mk.injEq] at heq
          obtain ⟨rfl, rfl⟩ := heq
          have hidx : now (n + 1 + rs.length) = now (n + (rs.length + 1)) := by
            rw [Nat.add_right_comm, Nat.add_assoc]
          have hnext := ih htail (by rw [hidx]; exact hm)
          simp [drive, hexec, hnext]
      | ready => simp [drive] at h
      | panicked => simp [drive] at h

/-- A future that has finished takes no further replies. -/
theorem drive_prefix {rs rest : List (Reply H)} {n : Nat} {q : Poll H} {result : ExecutionResult H}
    {es : List (ExecutionEvent H)} (h : t.drive monitor now n q rs = some (es, .ready result)) :
    t.drive monitor now n q (rs ++ rest) = some (es, .ready result) := by
  induction rs generalizing n q es with
  | nil =>
      have hq : q = .ready result ∧ es = [] := by
        cases q <;> simp_all [drive]
      obtain ⟨rfl, rfl⟩ := hq
      cases rest <;> rfl
  | cons r rs ih =>
      cases q with
      | pending p =>
          simp only [drive, Option.bind_eq_some_iff, Option.map_eq_some_iff] at h
          obtain ⟨⟨es₀, q₀⟩, hexec, ⟨es₁, q₁⟩, htail, heq⟩ := h
          simp only [Prod.mk.injEq] at heq
          obtain ⟨rfl, rfl⟩ := heq
          simp [drive, hexec, ih htail]
      | ready => exact h
      | panicked => exact h

end DefaultTxTask

namespace Runner

/-- Where the task popped as the `id`-th is. -/
def State.At (s : State H) (id : Nat) (q : Poll H) : Prop :=
  (∃ w, s.workers.lookup id = some w ∧ q = .pending w.awaiting) ∨
    ∃ result, (id, result) ∈ s.finished ∧ q = .ready result

/-- The log of `t` holds its pop and what it wrote upon `replies`, which led it to `q`. -/
def Wrote [DecidableEq H] (cfg : Config) (b : Books H) (t : DefaultTxTask H)
    (replies : List (Reply H)) (q : Poll H) : Prop :=
  ∃ now popped es log, t.drive cfg.monitor now 0 (.pending .created) replies = some (es, q) ∧
    b.logs.lookup t.tx.hash = some log ∧ log.events = .popped popped :: es

variable [DecidableEq H] {cfg : Config} {tasks : List (DefaultTxTask H)} {wall : SystemTime}
  {is : List (Input H)} {s s' : State H} {i : Input H}

structure Logged (cfg : Config) (tasks : List (DefaultTxTask H)) (replies : Nat → List (Reply H))
    (s : State H) : Prop where
  wrote : ∀ id t, s.popped[id]? = some t → ∃ q, s.At id q ∧ Wrote cfg s.books t (replies id) q
  untouched : ∀ t ∈ s.transactions, ∃ log, s.logs.lookup t.tx.hash = some log ∧ log.events = []

variable {replies : Nat → List (Reply H)}

theorem Wrote.push {b : Books H} {t : DefaultTxTask H} {rs : List (Reply H)} {p : AwaitPoint}
    {now : SystemTime} {r : Reply H} {es : List (ExecutionEvent H)} {q : Poll H}
    (h : Wrote cfg b t rs (.pending p)) (hm : t.execute cfg.monitor now p r = some (es, q)) :
    Wrote cfg (b.pushEvents t.tx.hash es) t (rs ++ [r]) q := by
  obtain ⟨clock, popped, es₀, log, hdrive, hlog, hevents⟩ := h
  let clock' : Nat → SystemTime := fun n => if n = rs.length then now else clock n
  have hsame : t.drive cfg.monitor clock' 0 (.pending .created) rs = some (es₀, .pending p) := by
    rw [← hdrive]
    refine DefaultTxTask.drive_congr fun k hk => ?_
    simp [clock', Nat.ne_of_lt hk]
  refine ⟨clock', popped, es₀ ++ es, { log with events := log.events ++ es }, ?_, ?_, ?_⟩
  · exact DefaultTxTask.drive_snoc hsame (by simpa [clock'] using hm)
  · simp [Books.lookup_pushEvents, hlog]
  · simp [hevents]

/-- What another task writes is in another log. -/
theorem Wrote.frame {b : Books H} {t : DefaultTxTask H} {rs : List (Reply H)} {q : Poll H} {a : H}
    {es : List (ExecutionEvent H)} (h : Wrote cfg b t rs q) (hne : t.tx.hash ≠ a) :
    Wrote cfg (b.pushEvents a es) t rs q := by
  obtain ⟨clock, popped, es₀, log, hdrive, hlog, hevents⟩ := h
  refine ⟨clock, popped, es₀, log, hdrive, ?_, hevents⟩
  rw [Books.lookup_pushEvents, if_neg hne, hlog]

theorem Wrote.replied {b : Books H} {t : DefaultTxTask H} {rs rs' : List (Reply H)} {q : Poll H}
    (h : Wrote cfg b t rs q) (hrs : rs' = rs) : Wrote cfg b t rs' q := hrs ▸ h

theorem Trans.alive_before (hs : Trans cfg s i s') (h : ∀ why, s'.phase ≠ .panicked why) :
    ∀ why, s.phase ≠ .panicked why := by
  intro why hph
  cases hs with
  | pop hp => rw [hph] at hp; cases hp
  | missing => exact h _ rfl
  | sendStop | dropSender | elapse | setClock => exact h why hph
  | _ => simp_all

/-! ## Distinct hashes -/

/-- The hashes of the popped tasks and of those that wait are those of all tasks. -/
theorem Good.hashes_nodup (h : Good tasks s) (hdistinct : (tasks.map (·.tx.hash)).Nodup) :
    (s.popped.map (·.tx.hash) ++ (s.transactions.map (·.tx.hash)).reverse).Nodup := by
  have horder : s.popped ++ s.transactions.reverse = tasks.reverse := h.inv.order
  rw [← List.map_reverse, ← List.map_append, horder, List.map_reverse]
  exact List.nodup_reverse.mpr hdistinct

theorem Good.popped_inj (h : Good tasks s) (hdistinct : (tasks.map (·.tx.hash)).Nodup)
    {id id' : Nat} {t t' : DefaultTxTask H} (ht : s.popped[id]? = some t)
    (ht' : s.popped[id']? = some t') (he : t.tx.hash = t'.tx.hash) : id = id' := by
  have hnodup := (List.nodup_append.mp (h.hashes_nodup hdistinct)).1
  obtain ⟨hlt, rfl⟩ := List.getElem?_eq_some_iff.mp ht
  obtain ⟨hlt', rfl⟩ := List.getElem?_eq_some_iff.mp ht'
  have hbound : id < (s.popped.map (·.tx.hash)).length := by simpa using hlt
  have hbound' : id' < (s.popped.map (·.tx.hash)).length := by simpa using hlt'
  have hsame : (s.popped.map (·.tx.hash))[id] = (s.popped.map (·.tx.hash))[id'] := by
    simpa using he
  exact hnodup.getElem_inj_iff.mp hsame

theorem Good.waiting_ne (h : Good tasks s) (hdistinct : (tasks.map (·.tx.hash)).Nodup)
    {id : Nat} {t u : DefaultTxTask H} (ht : s.popped[id]? = some t) (hu : u ∈ s.transactions) :
    t.tx.hash ≠ u.tx.hash := by
  have hne := (List.nodup_append.mp (h.hashes_nodup hdistinct)).2.2
  refine hne _ (List.mem_map_of_mem (List.mem_of_getElem? ht)) _ ?_
  rw [List.mem_reverse]
  exact List.mem_map_of_mem hu

/-! ## Every step keeps the logs apart -/

theorem Logged.same (h : Logged cfg tasks replies s) (hb : s'.books.logs = s.books.logs)
    (hw : s'.workers = s.workers) (hf : s'.finished = s.finished) (hp : s'.popped = s.popped)
    (ht : s'.transactions = s.transactions) : Logged cfg tasks replies s' where
  wrote := by
    rw [hp]
    unfold State.At Wrote
    rw [hb, hw, hf]
    exact h.wrote
  untouched := by
    have hlogs : s'.logs = s.logs := hb
    rw [ht, hlogs]
    exact h.untouched

theorem Logged.launched {t : DefaultTxTask H} {ts : List (DefaultTxTask H)} {next : Phase}
    (h : Logged cfg tasks replies s) (hgood : Good tasks s)
    (hdistinct : (tasks.map (·.tx.hash)).Nodup) (hrep : Replayed cfg replies s)
    (ht : s.transactions = ts ++ [t]) : Logged cfg tasks replies (s.launch t ts next) where
  wrote id u hu := by
    have hmem : t ∈ s.transactions := by simp [ht]
    by_cases hid : id < s.popped.length
    · have hold : s.popped[id]? = some u := by
        simpa only [State.launch, List.getElem?_append_left hid] using hu
      obtain ⟨q, hat, hwrote⟩ := h.wrote id u hold
      refine ⟨q, ?_, hwrote.frame (hgood.waiting_ne hdistinct hold hmem)⟩
      rcases hat with ⟨w, hw, rfl⟩ | hf
      · refine Or.inl ⟨w, ?_, rfl⟩
        simp only [State.launch, AList.lookup_insert_eq, Nat.ne_of_lt hid, ↓reduceIte, hw]
      · exact Or.inr hf
    · have hnew : id = s.popped.length ∧ u = t := by
        simp only [State.launch, List.getElem?_append_right (Nat.le_of_not_lt hid)] at hu
        obtain ⟨hlt, hget⟩ := List.getElem?_eq_some_iff.mp hu
        simp only [List.length_singleton] at hlt
        exact ⟨by omega, by simpa using hget.symm⟩
      obtain ⟨rfl, rfl⟩ := hnew
      obtain ⟨log, hlog, hempty⟩ := h.untouched u hmem
      refine ⟨.pending .created, Or.inl ⟨⟨u, .created⟩, ?_, rfl⟩, fun _ => 0, s.wall, [],
        { log with events := log.events ++ [.popped s.wall] }, ?_, ?_, ?_⟩
      · simp only [State.launch, AList.lookup_insert_eq, ↓reduceIte]
      · rw [hrep.unborn _ (Nat.le_refl _)]
        rfl
      · have hlookup : s.books.logs.lookup u.tx.hash = some log := hlog
        show (s.books.pushEvents u.tx.hash [.popped s.wall]).logs.lookup u.tx.hash = _
        simp [Books.lookup_pushEvents, hlookup]
      · simp [hempty]
  untouched u hu := by
    have hold : u ∈ s.transactions := by
      rw [ht]
      exact List.mem_append_left _ hu
    obtain ⟨log, hlog, hempty⟩ := h.untouched u hold
    have hne : u.tx.hash ≠ t.tx.hash := by
      have hnodup := (List.nodup_append.mp (hgood.hashes_nodup hdistinct)).2.1
      rw [List.nodup_reverse, ht, List.map_append] at hnodup
      exact (List.nodup_append.mp hnodup).2.2 _ (List.mem_map_of_mem hu) _ (by simp)
    refine ⟨log, ?_, hempty⟩
    have hlookup : s.books.logs.lookup u.tx.hash = some log := hlog
    show (s.books.pushEvents t.tx.hash [.popped s.wall]).logs.lookup u.tx.hash = _
    rw [Books.lookup_pushEvents, if_neg hne, hlookup]

/-- A poll writes to the log of its own worker and leaves every other task where it is. -/
theorem Logged.polled {id : Nat} {w : Worker H} {r : Reply H} {es : List (ExecutionEvent H)}
    {next : Poll H} {u : State H} (h : Logged cfg tasks replies s) (hgood : Good tasks s)
    (hdistinct : (tasks.map (·.tx.hash)).Nodup) (hrep : Replayed cfg replies s)
    (hw : s.workers.lookup id = some w)
    (hm : w.task.execute cfg.monitor s.wall w.awaiting r = some (es, next))
    (hb : u.books.logs = (s.books.pushEvents w.task.tx.hash es).logs)
    (hp : u.popped = s.popped) (ht : u.transactions = s.transactions) (hat : u.At id next)
    (hothers : ∀ k q, k ≠ id → s.At k q → u.At k q) :
    Logged cfg tasks (fun k => replies k ++ (Input.poll id r).received k) u where
  wrote k t hk := by
    rw [hp] at hk
    obtain ⟨q, hq, hwrote⟩ := h.wrote k t hk
    have hid : s.popped[id]? = some w.task := hgood.inv.fresh id w hw
    unfold Wrote
    rw [hb]
    by_cases hne : k = id
    · subst hne
      rw [hid] at hk
      cases hk
      have hhere : q = .pending w.awaiting := by
        rcases hq with ⟨v, hv, rfl⟩ | ⟨result, hf, rfl⟩
        · rw [hw] at hv
          cases hv
          rfl
        · rw [hrep.gone k result hf] at hw
          cases hw
      subst hhere
      rw [received_self]
      exact ⟨next, hat, hwrote.push hm⟩
    · have hhash : t.tx.hash ≠ w.task.tx.hash := fun he =>
        hne (hgood.popped_inj hdistinct hk hid he)
      rw [received_ne hne]
      exact ⟨q, hothers k q hne hq, hwrote.frame hhash⟩
  untouched t htx := by
    rw [ht] at htx
    have hid : s.popped[id]? = some w.task := hgood.inv.fresh id w hw
    obtain ⟨log, hlog, hempty⟩ := h.untouched t htx
    refine ⟨log, ?_, hempty⟩
    have hlookup : s.books.logs.lookup t.tx.hash = some log := hlog
    have hlogs : u.logs = (s.books.pushEvents w.task.tx.hash es).logs := hb
    rw [hlogs, Books.lookup_pushEvents, if_neg (hgood.waiting_ne hdistinct hid htx).symm, hlookup]

theorem Trans.logged (hs : Trans cfg s i s') (hgood : Good tasks s)
    (hdistinct : (tasks.map (·.tx.hash)).Nodup) (halive : ∀ why, s'.phase ≠ .panicked why)
    (hrep : Replayed cfg replies s) (h : Logged cfg tasks replies s) :
    Logged cfg tasks (fun id => replies id ++ i.received id) s' := by
  have hquiet : ∀ {u : State H}, (∀ id, i.received id = []) → Logged cfg tasks replies u →
      Logged cfg tasks (fun id => replies id ++ i.received id) u := by
    intro u hi h'
    simpa only [hi, List.append_nil] using h'
  cases hs with
  | pop _ ht => exact hquiet (fun _ => rfl) (h.launched hgood hdistinct hrep ht)
  | @move id w r es p _ hw hm =>
      refine h.polled hgood hdistinct hrep hw hm rfl rfl rfl ?_ ?_
      · exact Or.inl ⟨{ w with awaiting := p }, by simp, rfl⟩
      · intro k q hne hq
        rcases hq with ⟨v, hv, rfl⟩ | hf
        · exact Or.inl ⟨v, by simpa [AList.lookup_insert_eq, hne] using hv, rfl⟩
        · exact Or.inr hf
  | @finish id w r es result _ hw hm =>
      refine h.polled hgood hdistinct hrep hw hm rfl rfl rfl ?_ ?_
      · exact Or.inr ⟨result, by simp [State.consumePending, State.complete], rfl⟩
      · intro k q hne hq
        rcases hq with ⟨v, hv, rfl⟩ | ⟨res, hf, rfl⟩
        · refine Or.inl ⟨v, ?_, rfl⟩
          simpa [State.consumePending, State.complete, AList.lookup_erase_eq, hne] using hv
        · exact Or.inr ⟨res, List.mem_append_left _ hf, rfl⟩
  | workerPanic => exact absurd rfl (halive .sink)
  | missing => exact absurd rfl (halive .missingLog)
  | classify =>
      obtain ⟨_, _, _, _, he⟩ := classify_frame s
      rw [he]
      exact hquiet (fun _ => rfl) (h.same rfl rfl rfl rfl rfl)
  | @count n =>
      rcases startRefill_phase cfg s n with he | ⟨b, _, he⟩ <;> rw [he] <;>
        exact hquiet (fun _ => rfl) (h.same rfl rfl rfl rfl rfl)
  | _ => exact hquiet (fun _ => rfl) (h.same rfl rfl rfl rfl rfl)

theorem new_logged : Logged cfg tasks (fun _ => []) (new cfg tasks wall) where
  wrote _ _ hid := by cases hid
  untouched t ht := by
    obtain ⟨log, hlog⟩ := Option.isSome_iff_exists.mp
      (AList.lookup_isSome.mpr (mem_collectLogs ht))
    exact ⟨log, hlog, collectLogs_events hlog⟩

/-- The replies that worker `id` has had. -/
def repliesTo (id : Nat) (is : List (Input H)) : List (Reply H) := is.flatMap (·.received id)

/-- What holds of the workers and of their logs in every state that has not panicked. -/
theorem run_logged (hdistinct : (tasks.map (·.tx.hash)).Nodup)
    (h : (machine H cfg).run (new cfg tasks wall) is = some s)
    (halive : ∀ why, s.phase ≠ .panicked why) :
    Replayed cfg (fun id => repliesTo id is) s ∧ Logged cfg tasks (fun id => repliesTo id is) s := by
  let Inv : List (Input H) → State H → Prop := fun past s => Good tasks s ∧
    ((∀ why, s.phase ≠ .panicked why) → Replayed cfg (fun id => repliesTo id past) s ∧
      Logged cfg tasks (fun id => repliesTo id past) s)
  have hstep : ∀ past s i t, Inv past s → (machine H cfg).step s i = some t →
      Inv (past ++ [i]) t := by
    intro past s i t ⟨hgood, hinv⟩ ht
    have htrans := step_trans ht
    refine ⟨step_good hgood ht, fun hlive => ?_⟩
    obtain ⟨hrep, hlog⟩ := hinv (htrans.alive_before hlive)
    have happend : (fun id => repliesTo id (past ++ [i])) =
        fun id => repliesTo id past ++ i.received id := by
      funext id
      simp [repliesTo]
    rw [happend]
    exact ⟨htrans.replayed hgood hlive hrep, htrans.logged hgood hdistinct hlive hrep hlog⟩
  have h₀ : Inv [] (new cfg tasks wall) := by
    refine ⟨new_good, fun _ => ⟨⟨?_, ?_, ?_, fun _ _ => rfl⟩, new_logged⟩⟩
    · intro _ _ hw
      cases hw
    · intro _ _ hf
      cases hf
    · intro _ _ hf
      cases hf
  exact (Machine.run_history_invariant hstep h₀ h).2 halive

/-- In every state of every run that has not panicked, for tasks with distinct hashes: the log of a
task that waits is empty; the log of the `id`-th task popped holds its pop and then exactly what its
future writes when it is given the replies to worker `id`, whatever the others did in between; and
those replies have led the future to where the runner has it, in a worker or among the results. -/
theorem logs_isolated (hdistinct : (tasks.map (·.tx.hash)).Nodup)
    (h : (machine H cfg).run (new cfg tasks wall) is = some s)
    (halive : ∀ why, s.phase ≠ .panicked why) :
    (∀ t ∈ s.transactions, ∃ log, s.logs.lookup t.tx.hash = some log ∧ log.events = []) ∧
    ∀ id t, s.popped[id]? = some t → ∃ q now popped es log, s.At id q ∧
      t.drive cfg.monitor now 0 (.pending .created) (repliesTo id is) = some (es, q) ∧
      s.logs.lookup t.tx.hash = some log ∧ log.events = .popped popped :: es := by
  obtain ⟨_, hlogged⟩ := run_logged hdistinct h halive
  refine ⟨hlogged.untouched, fun id t ht => ?_⟩
  obtain ⟨q, hat, now, popped, es, log, hdrive, hlog, hevents⟩ := hlogged.wrote id t ht
  exact ⟨q, now, popped, es, log, hat, hdrive, hlog, hevents⟩

theorem logs_isolated_two : ∃ s, (machine Nat oneAtATime).run
      (new oneAtATime [watched 2, watched 1] 0) watchedInputs = some s ∧
    ∃ q now popped es log, s.At 0 q ∧
      (watched 1).drive false now 0 (.pending .created) (repliesTo 0 watchedInputs) = some (es, q) ∧
      s.logs.lookup 1 = some log ∧ log.events = .popped popped :: es := by
  refine ⟨_, rfl, (@logs_isolated Nat _ oneAtATime [watched 2, watched 1] 0 watchedInputs _
    (by decide) rfl ?_).2 0 (watched 1) rfl⟩
  intro why hph
  cases hph

end Runner

end TxTestTool
