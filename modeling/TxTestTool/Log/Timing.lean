import TxTestTool.Log.ExecutionLog
import TxTestTool.Machine.Results

/-!
# The timestamps of a log

Statistics subtract times of the wall clock, and panic when the result is negative. They do not
when the events of every log are in the order of their times and start with a `Sent`.
-/

namespace TxTestTool

variable {H : Type*}

/-- The events are ordered by time, and the first that is not a `Popped` is a `Sent`. -/
structure Timed (events : List (ExecutionEvent H)) : Prop where
  sorted : events.Pairwise (·.time ≤ ·.time)
  sentFirst : ∀ e, events.find? (!·.isPopped) = some e → e.isSent = true

theorem ExecutionEvent.not_popped_of_sent {e : ExecutionEvent H} (h : e.isSent = true) :
    e.isPopped = false := by
  cases e with
  | sent => rfl
  | _ => cases h

theorem Timed.nil : Timed ([] : List (ExecutionEvent H)) where
  sorted := List.Pairwise.nil
  sentFirst _ h := by cases h

theorem Timed.append {es : List (ExecutionEvent H)} {e : ExecutionEvent H} (h : Timed es)
    (hlast : ∀ e' ∈ es, e'.time ≤ e.time)
    (hfirst : e.isPopped = true ∨ e.isSent = true ∨ ∃ e' ∈ es, e'.isSent = true) :
    Timed (es ++ [e]) := by
  refine ⟨List.pairwise_append.mpr ⟨h.sorted, List.pairwise_singleton _ _, ?_⟩, fun f hf => ?_⟩
  · intro a ha b hb
    rw [List.mem_singleton.mp hb]
    exact hlast a ha
  · rw [List.find?_append] at hf
    cases hd : es.find? (!·.isPopped) with
    | some d =>
        rw [hd, Option.some_or, Option.some.injEq] at hf
        exact hf ▸ h.sentFirst d hd
    | none =>
        rw [hd, Option.none_or] at hf
        have hfe : f = e := List.mem_singleton.mp (List.mem_of_find?_eq_some hf)
        subst hfe
        rcases hfirst with hp | hs | ⟨e', he', hs⟩
        · simp [hp] at hf
        · exact hs
        · have hall := List.find?_eq_none.mp hd e' he'
          simp [ExecutionEvent.not_popped_of_sent hs] at hall

/-! ## No query of an ordered log panics -/

theorem Timed.durationSince_isSome {es : List (ExecutionEvent H)}
    {sent sel : ExecutionEvent H → Option SystemTime} (h : Timed es)
    (hsent : ∀ e, sent e = if e.isSent then some e.time else none)
    (hsel : ∀ e i, sel e = some i → i = e.time ∧ e.isPopped = false) :
    (TransactionExecutionLog.durationSinceTimestamp (es.findSome? sent)
      (es.findSome? sel)).isSome = true := by
  induction es with
  | nil => rfl
  | cons e es ih =>
      have hsorted := List.pairwise_cons.mp h.sorted
      cases hp : e.isPopped with
      | true =>
          have hnosent : sent e = none := by
            rw [hsent e, if_neg]
            intro hs
            rw [ExecutionEvent.not_popped_of_sent hs] at hp
            cases hp
          have hnosel : sel e = none := by
            cases hse : sel e with
            | none => rfl
            | some i => rw [(hsel e i hse).2] at hp; cases hp
          rw [List.findSome?_cons_of_isNone (by simp [hnosent]),
            List.findSome?_cons_of_isNone (by simp [hnosel])]
          refine ih ⟨hsorted.2, fun f hf => h.sentFirst f ?_⟩
          rw [List.find?_cons_of_neg (by simp [hp]), hf]
      | false =>
          have hfirst : e.isSent = true := h.sentFirst e (List.find?_cons_of_pos (by simp [hp]))
          rw [List.findSome?_cons_of_isSome (by simp [hsent e, hfirst]), hsent e, if_pos hfirst]
          cases hstop : (e :: es).findSome? sel with
          | none => rfl
          | some j =>
              obtain ⟨f, hf, hj⟩ := List.exists_of_findSome?_eq_some hstop
              have hle : e.time ≤ j := by
                rw [(hsel f j hj).1]
                rcases List.mem_cons.mp hf with rfl | hf
                · exact Int.le_refl _
                · exact hsorted.1 f hf
              simp [TransactionExecutionLog.durationSinceTimestamp, hle]

namespace TransactionExecutionLog

theorem timeTo_isSome {l : TransactionExecutionLog H} {sel : ExecutionEvent H → Option SystemTime}
    (h : Timed l.events) (hsel : ∀ e i, sel e = some i → i = e.time ∧ e.isPopped = false) :
    (timeTo sel l).isSome = true := by
  refine h.durationSince_isSome (fun e => ?_) hsel
  cases e <;> rfl

theorem makeStats_isSome {logs : List (TransactionExecutionLog H)}
    (h : ∀ l ∈ logs, Timed l.events) : (makeStats logs).isSome = true := by
  unfold makeStats
  rw [List.isSome_mapM, List.all_eq_true]
  intro method hmem
  have hmethod : ∀ l : TransactionExecutionLog H, Timed l.events → (method l).isSome = true := by
    intro l hl
    simp only [List.mem_cons, List.not_mem_nil, or_false] at hmem
    rcases hmem with rfl | rfl | rfl | rfl | rfl | rfl | rfl | rfl | rfl | rfl
    all_goals
      refine timeTo_isSome hl fun e i he => ?_
      split at he <;> simp only [Option.some.injEq, reduceCtorEq] at he
      all_goals
        subst he
        exact ⟨rfl, rfl⟩
  rw [singleStat, Option.isSome_map, List.isSome_mapM, List.all_eq_true]
  exact fun l hl => hmethod l (h l hl)

end TransactionExecutionLog

/-! ## The logs of a run -/

namespace Books

variable [DecidableEq H] {b : Books H} {hash : H} {wall : SystemTime}

def TimedBy (wall : SystemTime) (b : Books H) : Prop :=
  ∀ h log, b.logs.lookup h = some log →
    Timed log.events ∧ ∀ e ∈ log.events, e.time ≤ wall

def HasSent (b : Books H) (hash : H) : Prop :=
  ∃ log, b.logs.lookup hash = some log ∧ ∃ e ∈ log.events, e.isSent = true

theorem TimedBy.later {wall' : SystemTime} (h : b.TimedBy wall) (hle : wall ≤ wall') :
    b.TimedBy wall' := by
  intro a log hlog
  obtain ⟨ht, hall⟩ := h a log hlog
  exact ⟨ht, fun e he => Int.le_trans (hall e he) hle⟩

theorem HasSent.push {e : ExecutionEvent H} {a : H} (h : b.HasSent a) :
    (b.pushEvent hash e).HasSent a := by
  obtain ⟨log, hlog, f, hf, hs⟩ := h
  by_cases ha : a = hash
  · subst ha
    refine ⟨(log.pushEvent b.eventCounters e).1, by simp [lookup_pushEvent, hlog], f, ?_, hs⟩
    exact List.mem_append_left _ hf
  · exact ⟨log, by simp [lookup_pushEvent, ha, hlog], f, hf, hs⟩

theorem HasSent.pushes {es : List (ExecutionEvent H)} {a : H} (h : b.HasSent a) :
    (b.pushEvents hash es).HasSent a := by
  induction es generalizing b with
  | nil => exact h
  | cons e es ih => exact ih h.push

theorem TimedBy.push {e : ExecutionEvent H} (h : b.TimedBy wall) (he : e.time = wall)
    (hfirst : e.isPopped = true ∨ e.isSent = true ∨ b.HasSent hash) :
    (b.pushEvent hash e).TimedBy wall := by
  intro a log hlog
  rw [lookup_pushEvent] at hlog
  split at hlog
  · simp only [Option.map_eq_some_iff] at hlog
    obtain ⟨old, hold, rfl⟩ := hlog
    obtain ⟨ht, hall⟩ := h hash old hold
    refine ⟨ht.append (fun e' he' => he ▸ hall e' he') ?_, fun e' he' => ?_⟩
    · rcases hfirst with hp | hs | ⟨log', hlog', f, hf, hs⟩
      · exact Or.inl hp
      · exact Or.inr (Or.inl hs)
      · rw [hold, Option.some.injEq] at hlog'
        exact Or.inr (Or.inr ⟨f, hlog' ▸ hf, hs⟩)
    · rcases List.mem_append.mp he' with he' | he'
      · exact hall e' he'
      · exact Int.le_of_eq (List.mem_singleton.mp he' ▸ he)
  · exact h a log hlog

theorem HasSent.new {e : ExecutionEvent H} (h : hash ∈ b.logs) (hs : e.isSent = true) :
    (b.pushEvent hash e).HasSent hash := by
  obtain ⟨log, hlog⟩ := Option.isSome_iff_exists.mp (AList.lookup_isSome.mpr h)
  exact ⟨(log.pushEvent b.eventCounters e).1, by simp [lookup_pushEvent, hlog], e,
    List.mem_append_right _ (List.mem_singleton.mpr rfl), hs⟩

theorem TimedBy.pushes {es : List (ExecutionEvent H)} (h : b.TimedBy wall)
    (he : ∀ e ∈ es, e.time = wall)
    (hfirst : ∀ e ∈ es, e.isPopped = true ∨ e.isSent = true ∨ b.HasSent hash) :
    (b.pushEvents hash es).TimedBy wall := by
  induction es generalizing b with
  | nil => exact h
  | cons e es ih =>
      refine ih (h.push (he e (List.mem_cons_self ..)) (hfirst e (List.mem_cons_self ..)))
        (fun f hf => he f (List.mem_cons_of_mem _ hf)) (fun f hf => ?_)
      rcases hfirst f (List.mem_cons_of_mem _ hf) with hp | hs | hsent
      · exact Or.inl hp
      · exact Or.inr (Or.inl hs)
      · exact Or.inr (Or.inr hsent.push)

end Books

end TxTestTool
