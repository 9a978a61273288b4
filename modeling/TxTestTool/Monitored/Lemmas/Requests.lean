import TxTestTool.Monitored.Run
import TxTestTool.Runner.Isolation

/-!
# Where the requests of the workers are

A worker that waits for the monitor has its request in exactly one place: it waits for room on the
channel, is on the channel, or has been taken. No transaction is registered twice.
-/

namespace TxTestTool

variable {H : Type*} [DecidableEq H]

namespace Subxt

open Monitored (ofMonitor)

variable {cfg : Runner.Config} {s u : State H} {i : Input H} {js : List (Runner.Input H)}

theorem step_parts (h : step cfg s i = some u) : ∃ js, calls cfg s i = some js ∧
    (Runner.machine H cfg).run s.runner js = some u.runner ∧
    u.sending = (update cfg s i).sending ∧ u.monitorEnded = (update cfg s i).monitorEnded := by
  obtain ⟨js, hjs, hmap⟩ := Option.bind_eq_some_iff.mp h
  obtain ⟨r, hr, rfl⟩ := Option.map_eq_some_iff.mp hmap
  exact ⟨js, hjs, hr, rfl, rfl⟩

omit [DecidableEq H] in
/-- What the monitor has no part in answers no wait, and a submission succeeds or fails only when
the node says so. -/
theorem calls_aside (hi : ofMonitor i = false) (h : calls cfg s i = some js) :
    (∀ id a, .poll id (.wait a) ∉ js) ∧
      (∀ id a, .poll id (.submit (.ok a)) ∈ js → i = .submitted id (.ok a)) ∧
      ∀ id e, .poll id (.submit (.error e)) ∈ js → ∃ msg, i = .submitted id (.error msg) := by
  cases i with
  | own j =>
      simp only [calls, Option.ite_none_right_eq_some, Option.some.injEq] at h
      obtain ⟨hown, rfl⟩ := h
      cases j with
      | poll => cases hown
      | pendingExtrinsics => cases hown
      | _ => simp
  | submitted id r =>
      cases h
      cases r with
      | error e => simp [Except.toBool, Except.mapError]
      | ok a =>
          simp only [Except.mapError]
          split <;> simp
  | item id r =>
      cases r with
      | none => cases h; simp
      | some r =>
          cases r with
          | error e =>
              simp only [calls, Option.ite_none_right_eq_some, Option.some.injEq] at h
              obtain ⟨_, rfl⟩ := h
              simp
          | ok status => cases h; simp
  | count =>
      simp only [calls, Option.ite_none_right_eq_some] at h
      obtain ⟨_, h⟩ := h
      split at h <;> cases h <;> simp
  | counted r =>
      simp only [calls, Option.ite_none_right_eq_some, Option.some.injEq] at h
      obtain ⟨_, rfl⟩ := h
      simp
  | start | watching => cases h; simp
  | _ => cases hi

omit [DecidableEq H] in
/-- Only a dropped listener is a failure of the monitor. -/
theorem calls_failure (h : calls cfg s i = some js) (hi : ∀ id, i ≠ .abandoned id) :
    ∀ j ∈ js, j.isMonitorFailure = false := by
  cases i with
  | abandoned id => exact absurd rfl (hi id)
  | own k =>
      simp only [calls, Option.ite_none_right_eq_some, Option.some.injEq] at h
      obtain ⟨hown, rfl⟩ := h
      cases k with
      | poll => cases hown
      | _ => simp [Runner.Input.isMonitorFailure]
  | submitted id r =>
      cases h
      split <;> simp [Runner.Input.isMonitorFailure, Reply.isMonitorFailure]
  | item id r =>
      rcases r with _ | (e | status)
      · cases h
        simp [Runner.Input.isMonitorFailure, Reply.isMonitorFailure]
      · simp only [calls, Option.ite_none_right_eq_some, Option.some.injEq] at h
        obtain ⟨_, rfl⟩ := h
        simp [Runner.Input.isMonitorFailure, Reply.isMonitorFailure]
      · cases h
        simp [Runner.Input.isMonitorFailure, Reply.isMonitorFailure]
  | answered id r =>
      simp only [calls, Option.ite_none_left_eq_some, Option.some.injEq] at h
      obtain ⟨_, rfl⟩ := h
      cases r <;> simp [Runner.Input.isMonitorFailure, Reply.isMonitorFailure, Except.mapError]
  | count =>
      simp only [calls, Option.ite_none_right_eq_some] at h
      obtain ⟨_, h⟩ := h
      split at h <;> cases h <;> simp [Runner.Input.isMonitorFailure]
  | queued | refused | counted =>
      simp only [calls, Option.ite_none_right_eq_some, Option.some.injEq] at h
      obtain ⟨_, rfl⟩ := h
      simp [Runner.Input.isMonitorFailure, Reply.isMonitorFailure]
  | start | watching | monitorEnds =>
      cases h
      simp [Runner.Input.isMonitorFailure, Reply.isMonitorFailure]

omit [DecidableEq H] in
/-- Only a submission that succeeds makes a worker ask for room on the channel. -/
theorem update_aside (hmon : cfg.monitor = true) (hi : ofMonitor i = false) :
    (update cfg s i).monitorEnded = s.monitorEnded ∧
      ((update cfg s i).sending = s.sending ∧ (∀ id a, i ≠ .submitted id (.ok a)) ∨
        ∃ id a, i = .submitted id (.ok a) ∧ (update cfg s i).sending = id :: s.sending) := by
  cases i with
  | submitted id r =>
      cases r with
      | error e => exact ⟨rfl, Or.inl ⟨rfl, by simp⟩⟩
      | ok a => simp [update, hmon]
  | count =>
      simp only [update]
      split <;> simp
  | counted r => cases r <;> simp [update]
  | item | own | start | watching => simp [update]
  | _ => cases hi

end Subxt

namespace Monitored

open Runner (Config)
open BlockMonitor (registrations)

variable {cfg : Config} {tasks : List (DefaultTxTask H)} {wall : SystemTime}
  {is : List (Input H)} {s s' : State H} {i : Input H} {ms : List (BlockMonitor.Event H)}
  {u : Subxt.State H}

/-- `ms` is what the monitor has seen so far. -/
structure Inv (tasks : List (DefaultTxTask H)) (ms : List (BlockMonitor.Event H)) (s : State H) :
    Prop where
  good : Runner.Good tasks s.runner
  heard : (BlockMonitor.machine H).run BlockMonitor.new ms = some s.monitor
  undisturbed : ∀ e ∈ ms, e.undisturbed = true
  ended : s.sink.monitorEnded = true ↔ s.monitor.status ≠ .running
  sending : ∀ id ∈ s.sink.sending, s.runner.Waits id ∧ id ∉ s.channel ∧ id ∉ s.listeners
  channel : ∀ id ∈ s.channel, s.runner.Waits id ∧ id ∉ s.listeners
  nodup : s.channel.Nodup
  listeners : ∀ id ∈ s.listeners, s.runner.Asked id
  waits : ∀ id, s.runner.Waits id →
    id ∈ s.sink.sending ∨ id ∈ s.channel ∨ id ∈ s.listeners
  taken : ∀ id k, s.listeners.lookup id = some k → ∃ t before after,
    s.runner.popped[id]? = some t ∧
      ms = before ++ .request t.tx.hash t.tx.validUntil :: after ∧
      (registrations before).length = k
  known : ∀ r ∈ registrations ms, ∃ id t, id ∈ s.listeners ∧ s.runner.popped[id]? = some t ∧
    t.tx.hash = r.1
  once : ((registrations ms).map Prod.fst).Nodup

theorem getElem?_prefix {α : Type*} {l l' : List α} {k : Nat} {a : α} (hl : l <+: l')
    (h : l[k]? = some a) : l'[k]? = some a := by
  obtain ⟨rest, rfl⟩ := hl
  rw [List.getElem?_append_left (List.getElem?_eq_some_iff.mp h).1, h]

/-- A step of the sink keeps every request where it is, and may add one that needs room. -/
theorem Inv.moved (h : Inv tasks ms s) (hgood : Runner.Good tasks u.runner)
    (hpopped : s.runner.popped <+: u.runner.popped)
    (hended : u.monitorEnded = s.sink.monitorEnded)
    (hkeep : ∀ id, id ∈ s.sink.sending ∨ id ∈ s.channel → u.runner.Waits id)
    (hasked : ∀ id, s.runner.Asked id → u.runner.Asked id)
    (hold : ∀ id ∈ s.sink.sending, id ∈ u.sending)
    (hnew : ∀ id ∈ u.sending, id ∈ s.sink.sending ∨ u.runner.Waits id ∧ ¬ s.runner.Asked id)
    (hwait : ∀ id, u.runner.Waits id → s.runner.Waits id ∨ id ∈ u.sending) :
    Inv tasks ms { s with sink := u } where
  good := hgood
  heard := h.heard
  undisturbed := h.undisturbed
  ended := by rw [hended]; exact h.ended
  sending id hid := by
    rcases hnew id hid with hid | ⟨hw, hnot⟩
    · exact ⟨hkeep id (Or.inl hid), (h.sending id hid).2⟩
    · exact ⟨hw, fun hch => hnot ((h.channel id hch).1.asked h.good.inv),
        fun hl => hnot (h.listeners id hl)⟩
  channel id hid := ⟨hkeep id (Or.inr hid), (h.channel id hid).2⟩
  nodup := h.nodup
  listeners id hid := hasked id (h.listeners id hid)
  waits id hid := by
    rcases hwait id hid with hw | hs
    · exact (h.waits id hw).imp_left (hold id)
    · exact Or.inl hs
  taken id k hk := by
    obtain ⟨t, before, after, ht, hms, hlen⟩ := h.taken id k hk
    exact ⟨t, before, after, getElem?_prefix hpopped ht, hms, hlen⟩
  known r hr := by
    obtain ⟨id, t, hid, ht, he⟩ := h.known r hr
    exact ⟨id, t, hid, getElem?_prefix hpopped ht, he⟩
  once := h.once

theorem Inv.aside {i : Subxt.Input H} (h : Inv tasks ms s) (hi : ofMonitor i = false)
    (hu : Subxt.step (config cfg) s.sink i = some u) : Inv tasks ms { s with sink := u } := by
  obtain ⟨js, hjs, hrun, hsending, hended⟩ := Subxt.step_parts hu
  obtain ⟨hwait, hsubmit, _⟩ := Subxt.calls_aside hi hjs
  obtain ⟨hmonitor, hupdate⟩ := @Subxt.update_aside H (config cfg) s.sink i rfl hi
  have hkeep : ∀ id, s.runner.Waits id → u.runner.Waits id :=
    fun id hw => Runner.run_waits_keep h.good hrun (fun a => hwait id a) hw
  have hasked : ∀ id, s.runner.Asked id → u.runner.Asked id :=
    fun id => Runner.run_asked hrun
  refine h.moved (Runner.run_keeps_good h.good hrun) (Runner.run_grows hrun) (hended.trans hmonitor) ?_ hasked
    ?_ ?_ ?_
  · rintro id (hid | hid)
    · exact hkeep id (h.sending id hid).1
    · exact hkeep id (h.channel id hid).1
  · intro id hid
    rw [hsending]
    rcases hupdate with ⟨hsame, _⟩ | ⟨k, a, _, hmore⟩
    · rwa [hsame]
    · rw [hmore]
      exact List.mem_cons_of_mem _ hid
  · intro id hid
    rw [hsending] at hid
    rcases hupdate with ⟨hsame, _⟩ | ⟨k, a, rfl, hmore⟩
    · exact Or.inl (hsame ▸ hid)
    · rw [hmore] at hid
      rcases List.mem_cons.mp hid with rfl | hid
      · -- the runner has taken the reply, so the worker was submitting
        cases hjs
        obtain ⟨v, hv, hrest⟩ := Machine.run_cons.mp hrun
        have hstep : Runner.step (config cfg) s.runner
            (.poll id (.submit (Except.mapError Error.subxt (.ok a)))) = some v := hv
        obtain ⟨hnot, hwaits⟩ := (Runner.step_trans hstep).submitted rfl
        refine Or.inr ⟨?_, hnot⟩
        exact Runner.run_waits_keep (Runner.step_good h.good hstep) hrest
          (fun b hb => by split at hb <;> simp at hb) hwaits
      · exact Or.inl hid
  · intro id hw
    by_cases hs : ∃ a, i = .submitted id (.ok a)
    · obtain ⟨a, rfl⟩ := hs
      refine Or.inr ?_
      rw [hsending]
      rcases hupdate with ⟨_, hne⟩ | ⟨k, b, he, hmore⟩
      · exact absurd rfl (hne id a)
      · cases he
        rw [hmore]
        exact List.mem_cons_self ..
    · refine Or.inl (Runner.run_waits_of hrun (fun a ha => ?_) hw)
      exact hs ⟨a, hsubmit id a ha⟩

/-- The answer to a worker, or the panic of one, leaves every other request where it is. -/
theorem Inv.replied {id : Nat} {r : Reply H} (h : Inv tasks ms s)
    (hu : (Runner.machine H (config cfg)).run s.runner [.poll id r] = some u.runner)
    (hsubmit : ∀ a, r ≠ .submit a) (hid : id ∈ s.sink.sending ∨ id ∈ s.channel → ∀ a, r ≠ .wait a)
    (hsending : u.sending = s.sink.sending) (hended : u.monitorEnded = s.sink.monitorEnded) :
    Inv tasks ms { s with sink := u } := by
  refine h.moved (Runner.run_keeps_good h.good hu) (Runner.run_grows hu) hended ?_
    (fun id => Runner.run_asked hu) (fun _ => ?_) (fun _ hk => Or.inl (hsending ▸ hk)) ?_
  · intro k hk
    have hwaits : s.runner.Waits k := by
      rcases hk with hk | hk
      · exact (h.sending k hk).1
      · exact (h.channel k hk).1
    refine Runner.run_waits_keep h.good hu (fun a ha => ?_) hwaits
    simp only [List.mem_singleton, Runner.Input.poll.injEq] at ha
    obtain ⟨rfl, rfl⟩ := ha
    exact hid hk a rfl
  · rw [hsending]
    exact fun hk => hk
  · intro k hk
    refine Or.inl (Runner.run_waits_of hu (fun a ha => ?_) hk)
    simp only [List.mem_singleton, Runner.Input.poll.injEq] at ha
    exact hsubmit _ ha.2.symm

theorem Inv.queued {id : Nat} (h : Inv tasks ms s)
    (hu : Subxt.step (config cfg) s.sink (.queued id) = some u) :
    Inv tasks ms { s with sink := u, channel := s.channel ++ [id] } := by
  obtain ⟨js, hjs, hrun, hsending, hended⟩ := Subxt.step_parts hu
  simp only [Subxt.calls, Option.ite_none_right_eq_some, Option.some.injEq] at hjs
  obtain ⟨⟨hid, _⟩, rfl⟩ := hjs
  have hrunner : ({ s with sink := u, channel := s.channel ++ [id] } : State H).runner =
      s.runner := (Option.some.inj hrun).symm
  have hmem : ∀ k, k ∈ u.sending ↔ k ∈ s.sink.sending ∧ k ≠ id := by
    intro k
    rw [hsending]
    simp [Subxt.update]
  obtain ⟨hw, hch, hl⟩ := h.sending id hid
  exact {
    good := by rw [hrunner]; exact h.good
    heard := h.heard
    undisturbed := h.undisturbed
    ended := by rw [hended]; exact h.ended
    sending := by
      intro k hk
      obtain ⟨hk, hne⟩ := (hmem k).mp hk
      obtain ⟨hkw, hkch, hkl⟩ := h.sending k hk
      exact ⟨by rwa [hrunner], by simp [hkch, hne], hkl⟩
    channel := by
      intro k hk
      rw [hrunner]
      rcases List.mem_append.mp hk with hk | hk
      · exact h.channel k hk
      · rw [List.mem_singleton.mp hk]
        exact ⟨hw, hl⟩
    nodup := List.nodup_append.mpr ⟨h.nodup, List.nodup_singleton id,
      fun a ha b hb he => hch (List.mem_singleton.mp hb ▸ he ▸ ha)⟩
    listeners := by rw [hrunner]; exact h.listeners
    waits := by
      rw [hrunner]
      intro k hk
      rcases h.waits k hk with hk | hk | hk
      · by_cases he : k = id
        · exact Or.inr (Or.inl (by simp [he]))
        · exact Or.inl ((hmem k).mpr ⟨hk, he⟩)
      · exact Or.inr (Or.inl (List.mem_append_left _ hk))
      · exact Or.inr (Or.inr hk)
    taken := by rw [hrunner]; exact h.taken
    known := by rw [hrunner]; exact h.known
    once := h.once }

theorem Inv.refused {id : Nat} (h : Inv tasks ms s)
    (hu : Subxt.step (config cfg) s.sink (.refused id) = some u) :
    Inv tasks ms { s with sink := u } := by
  obtain ⟨js, hjs, hrun, hsending, hended⟩ := Subxt.step_parts hu
  simp only [Subxt.calls, Option.ite_none_right_eq_some, Option.some.injEq] at hjs
  obtain ⟨_, rfl⟩ := hjs
  exact h.replied hrun (by simp) (fun _ => by simp) hsending hended

theorem Inv.channel_of_listener {id k : Nat} (h : Inv tasks ms s)
    (hk : s.listeners.lookup id = some k) : id ∉ s.channel :=
  fun hid => (h.channel id hid).2 (AList.mem_of_lookup hk)

theorem Inv.answered {id k : Nat} {r : Except BlockNumber H} (h : Inv tasks ms s)
    (hk : s.listeners.lookup id = some k)
    (hu : Subxt.step (config cfg) s.sink (.answered id r) = some u) :
    Inv tasks ms { s with sink := u } := by
  obtain ⟨js, hjs, hrun, hsending, hended⟩ := Subxt.step_parts hu
  simp only [Subxt.calls, Option.ite_none_left_eq_some, Option.some.injEq] at hjs
  obtain ⟨hnot, rfl⟩ := hjs
  refine h.replied hrun (by simp) (fun hid => ?_) hsending hended
  exact absurd hid (not_or.mpr ⟨hnot, h.channel_of_listener hk⟩)

theorem Inv.abandoned {id k : Nat} (h : Inv tasks ms s) (hk : s.listeners.lookup id = some k)
    (hu : Subxt.step (config cfg) s.sink (.abandoned id) = some u) :
    Inv tasks ms { s with sink := u } := by
  obtain ⟨js, hjs, hrun, hsending, hended⟩ := Subxt.step_parts hu
  simp only [Subxt.calls, Option.ite_none_left_eq_some, Option.some.injEq] at hjs
  obtain ⟨hnot, rfl⟩ := hjs
  refine h.replied hrun (by simp) (fun hid => ?_) hsending hended
  exact absurd hid (not_or.mpr ⟨hnot, h.channel_of_listener hk⟩)

/-- A block brings no request. -/
theorem Inv.node {e : BlockMonitor.Event H} {m : BlockMonitor.State H} (h : Inv tasks ms s)
    (he : e.fromNode = true) (hm : BlockMonitor.step s.monitor e = some m) :
    Inv tasks (ms ++ [e]) (s.handled m) := by
  have hnone : registrations [e] = [] := by
    cases e <;> first | rfl | cases he
  have hquiet : e.undisturbed = true := by
    cases e <;> first | rfl | cases he
  have hregs : registrations (ms ++ [e]) = registrations ms := by
    rw [BlockMonitor.registrations_append, hnone, List.append_nil]
  have hrunner : (s.handled m).runner = s.runner := by
    simp only [State.handled, State.runner]
    split <;> rfl
  have hsending : (s.handled m).sink.sending = s.sink.sending := by
    simp only [State.handled]
    split <;> rfl
  exact {
    good := hrunner ▸ h.good
    heard := Machine.run_snoc.mpr ⟨_, h.heard, hm⟩
    undisturbed := by
      intro x hx
      rcases List.mem_append.mp hx with hx | hx
      · exact h.undisturbed x hx
      · rw [List.mem_singleton.mp hx]
        exact hquiet
    ended := by
      simp only [State.handled]
      split
      · rename_i hrun
        rw [h.ended]
        simp [hrun, BlockMonitor.step_running hm hrun]
      · rename_i hrun
        simp [hrun]
    sending := by rw [hsending, hrunner]; exact h.sending
    channel := by rw [hrunner]; exact h.channel
    nodup := h.nodup
    listeners := by rw [hrunner]; exact h.listeners
    waits := by rw [hsending, hrunner]; exact h.waits
    taken := by
      rw [hrunner]
      intro id k hk
      obtain ⟨t, before, after, ht, rfl, hlen⟩ := h.taken id k hk
      exact ⟨t, before, after ++ [e], ht, by simp, hlen⟩
    known := by rw [hrunner, hregs]; exact h.known
    once := hregs ▸ h.once }

theorem Inv.take {id : Nat} {rest : List Nat} {t : DefaultTxTask H} {m : BlockMonitor.State H}
    (h : Inv tasks ms s) (hdistinct : (tasks.map (·.tx.hash)).Nodup)
    (hch : s.channel = id :: rest) (ht : s.runner.popped[id]? = some t)
    (hm : BlockMonitor.step s.monitor (.request t.tx.hash t.tx.validUntil) = some m) :
    Inv tasks (ms ++ [.request t.tx.hash t.tx.validUntil]) (s.taken id rest m) := by
  have hregs : registrations (ms ++ [.request t.tx.hash t.tx.validUntil]) =
      registrations ms ++ [(t.tx.hash, t.tx.validUntil)] :=
    BlockMonitor.registrations_append
  have hlookup : ∀ k, (s.taken id rest m).listeners.lookup k =
      if k = id then some s.monitor.requests.length else s.listeners.lookup k :=
    AList.lookup_insert_eq
  have hmem : ∀ k, k ∈ (s.taken id rest m).listeners ↔ k = id ∨ k ∈ s.listeners := by
    intro k
    exact AList.mem_insert s.listeners
  have hnodup := h.nodup
  rw [hch, List.nodup_cons] at hnodup
  have hid : id ∈ s.channel := by simp [hch]
  obtain ⟨hw, hl⟩ := h.channel id hid
  -- no earlier request was for this transaction, whose only task has not asked before
  have hnew : ∀ r ∈ registrations ms, r.1 ≠ t.tx.hash := by
    intro r hr he
    obtain ⟨k, v, hk, hv, hhash⟩ := h.known r hr
    exact hl (h.good.popped_inj hdistinct hv ht (hhash.trans he) ▸ hk)
  exact {
    good := h.good
    heard := Machine.run_snoc.mpr ⟨_, h.heard, hm⟩
    undisturbed := by
      intro e he
      rcases List.mem_append.mp he with he | he
      · exact h.undisturbed e he
      · rw [List.mem_singleton.mp he]
        rfl
    ended := by
      show s.sink.monitorEnded = true ↔ m.status ≠ .running
      rw [h.ended]
      refine not_congr ⟨fun hrun => ?_, BlockMonitor.step_running hm⟩
      have hstep : BlockMonitor.step s.monitor (.request t.tx.hash t.tx.validUntil) =
          some (s.monitor.register t.tx.hash t.tx.validUntil) := by
        simp [BlockMonitor.step, hrun]
      rw [hstep, Option.some.injEq] at hm
      exact hm ▸ hrun
    sending := by
      intro k hk
      obtain ⟨hkw, hkch, hkl⟩ := h.sending k hk
      rw [hch, List.mem_cons, not_or] at hkch
      exact ⟨hkw, hkch.2, fun hmem' => ((hmem k).mp hmem').elim hkch.1 hkl⟩
    channel := by
      intro k hk
      have hkold : k ∈ s.channel := by
        rw [hch]
        exact List.mem_cons_of_mem _ hk
      refine ⟨(h.channel k hkold).1, fun hmem' => ?_⟩
      rcases (hmem k).mp hmem' with rfl | hkl
      · exact hnodup.1 hk
      · exact (h.channel k hkold).2 hkl
    nodup := hnodup.2
    listeners := by
      intro k hk
      rcases (hmem k).mp hk with rfl | hk
      · exact hw.asked h.good.inv
      · exact h.listeners k hk
    waits := by
      intro k hk
      rcases h.waits k hk with hk | hk | hk
      · exact Or.inl hk
      · rw [hch] at hk
        rcases List.mem_cons.mp hk with hk | hk
        · exact Or.inr (Or.inr ((hmem k).mpr (Or.inl hk)))
        · exact Or.inr (Or.inl hk)
      · exact Or.inr (Or.inr ((hmem k).mpr (Or.inr hk)))
    taken := by
      intro k n hk
      rw [hlookup] at hk
      split at hk
      · rename_i he
        rw [Option.some.injEq] at hk
        subst he
        exact ⟨t, ms, [], ht, rfl, by rw [← hk, (BlockMonitor.run_attended h.undisturbed h.heard).requests]⟩
      · obtain ⟨v, before, after, hv, rfl, hlen⟩ := h.taken k n hk
        exact ⟨v, before, after ++ [.request t.tx.hash t.tx.validUntil], hv, by simp, hlen⟩
    known := by
      intro r hr
      rw [hregs] at hr
      rcases List.mem_append.mp hr with hr | hr
      · obtain ⟨k, v, hk, hv, hhash⟩ := h.known r hr
        exact ⟨k, v, (hmem k).mpr (Or.inr hk), hv, hhash⟩
      · rw [List.mem_singleton.mp hr]
        exact ⟨id, t, (hmem id).mpr (Or.inl rfl), ht, rfl⟩
    once := by
      rw [hregs, List.map_append]
      refine List.nodup_append.mpr ⟨h.once, List.nodup_singleton _, fun a ha b hb he => ?_⟩
      obtain ⟨r, hr, rfl⟩ := List.mem_map.mp ha
      exact hnew r hr (he.trans (List.mem_singleton.mp hb)) }

theorem Inv.step (h : Inv tasks ms s) (hdistinct : (tasks.map (·.tx.hash)).Nodup)
    (hs : step cfg s i = some s') : Inv tasks (ms ++ events s i) s' := by
  cases step_trans hs with
  | sink hi hu => exact (List.append_nil ms).symm ▸ h.aside hi hu
  | queued _ hu => exact (List.append_nil ms).symm ▸ h.queued hu
  | refused hu => exact (List.append_nil ms).symm ▸ h.refused hu
  | take hch ht hm =>
      simpa only [events, hch, List.head?_cons, Option.bind_some, ht] using
        h.take hdistinct hch ht hm
  | node he hm => exact h.node he hm
  | answered hk _ hu => exact (List.append_nil ms).symm ▸ h.answered hk hu
  | abandoned hk _ _ hu => exact (List.append_nil ms).symm ▸ h.abandoned hk hu

theorem new_inv : Inv tasks [] (new cfg tasks wall) where
  good := Runner.new_good
  heard := rfl
  undisturbed _ he := by cases he
  ended := by simp [new, Subxt.new, BlockMonitor.new]
  sending _ hid := by cases hid
  channel _ hid := by cases hid
  nodup := List.nodup_nil
  listeners id hid := absurd hid (AList.notMem_empty id)
  waits _ hid := by
    obtain ⟨w, hw, _⟩ := hid
    cases hw
  taken _ _ hk := by cases hk
  known _ hr := by cases hr
  once := List.nodup_nil

theorem run_inv (hdistinct : (tasks.map (·.tx.hash)).Nodup)
    (h : (machine H cfg).run (new cfg tasks wall) is = some s) :
    Inv tasks (monitorEvents cfg tasks wall is) s := by
  have hstep : ∀ past (u : State H) i v, Inv tasks past u → (machine H cfg).step u i = some v →
      Inv tasks (past ++ events u i) v :=
    fun _ _ _ _ hinv hs => hinv.step hdistinct hs
  exact Machine.translate_invariant hstep new_inv h

end Monitored

end TxTestTool
