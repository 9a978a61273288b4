import TxTestTool.Monitor.BlockMonitor

/-!
# What one event does to the listeners

The folds of `handle_block` over a block and over an expiry set, stated for each hash and for each
listener. They need that no two hashes share a trigger.
-/

namespace TxTestTool.BlockMonitor

variable {H : Type*} [DecidableEq H] {s s' t : State H} {answer : Except Error H} {hs : List H}

/-- Every trigger belongs to a request for its own hash. -/
def State.Wired (s : State H) : Prop :=
  ∀ h k, s.callbacks.lookup h = some k → ∃ u, s.requests[k]? = some (h, u)

theorem State.Wired.own (hw : s.Wired) {h h' k u} (hreq : s.requests[k]? = some (h, u))
    (hk : s.callbacks.lookup h' = some k) : h' = h := by
  obtain ⟨u', hu'⟩ := hw h' k hk
  rw [hreq] at hu'
  simp only [Option.some.injEq, Prod.mk.injEq] at hu'
  exact hu'.1.symm

theorem State.Wired.inj (hw : s.Wired) {h h' k} (hk : s.callbacks.lookup h = some k)
    (hk' : s.callbacks.lookup h' = some k) : h = h' := by
  obtain ⟨u', hu'⟩ := hw h' k hk'
  exact hw.own hu' hk

/-! ## Firing the triggers of a list of hashes -/

structure Notified (answer : Except Error H) (s : State H) (hs : List H) (s' : State H) : Prop where
  callbacks : ∀ h, s'.callbacks.lookup h = if h ∈ hs then none else s.callbacks.lookup h
  fired : ∀ h k, s.callbacks.lookup h = some k → h ∈ hs →
    s'.channels k = (s.channels k).send answer
  silent : ∀ k, (∀ h ∈ hs, s.callbacks.lookup h ≠ some k) → s'.channels k = s.channels k
  accounting : s'.mortalAccounting = s.mortalAccounting
  requests : s'.requests = s.requests
  status : s'.status = s.status

theorem Notified.refl : Notified answer s [] s where
  callbacks h := by simp
  fired _ _ _ hh := by cases hh
  silent _ _ := rfl
  accounting := rfl
  requests := rfl
  status := rfl

theorem Notified.wired (h : Notified answer s hs s') (hw : s.Wired) : s'.Wired := by
  intro a k hk
  rw [h.callbacks] at hk
  split at hk
  · cases hk
  · rw [h.requests]
    exact hw a k hk

theorem notify_notified {h : H} (hs : s.notify answer h = .ok s') : Notified answer s [h] s' := by
  unfold State.notify at hs
  cases hk : s.callbacks.lookup h with
  | none =>
      simp only [hk, Except.ok.injEq] at hs
      subst hs
      refine ⟨fun a => ?_, fun a k ha hmem => ?_, fun _ _ => rfl, rfl, rfl, rfl⟩
      · split
        · rename_i hmem
          rw [List.mem_singleton.mp hmem, hk]
        · rfl
      · rw [List.mem_singleton.mp hmem, hk] at ha
        cases ha
  | some k =>
      simp only [hk] at hs
      split at hs
      · simp only [Except.ok.injEq] at hs
        subst hs
        refine ⟨fun a => ?_, fun a k' ha hmem => ?_, fun k' hne => ?_, rfl, rfl, rfl⟩
        · simp only [AList.lookup_erase_eq, List.mem_singleton]
        · rw [List.mem_singleton.mp hmem, hk, Option.some.injEq] at ha
          subst ha
          simp
        · have hne' : k' ≠ k := by
            intro he
            exact hne h (List.mem_singleton.mpr rfl) (he ▸ hk)
          simp [hne']
      · cases hs

theorem Notified.trans {hs₁ hs₂ : List H} (hw : s.Wired) (h₁ : Notified answer s hs₁ t)
    (h₂ : Notified answer t hs₂ s') : Notified answer s (hs₁ ++ hs₂) s' := by
  refine ⟨fun h => ?_, fun h k hk hmem => ?_, fun k hne => ?_, ?_, ?_, ?_⟩
  · rw [h₂.callbacks, h₁.callbacks]
    by_cases hm₁ : h ∈ hs₁ <;> by_cases hm₂ : h ∈ hs₂ <;> simp [hm₁, hm₂]
  · by_cases hm₁ : h ∈ hs₁
    · -- the trigger is gone before the second list
      have hgone : ∀ a ∈ hs₂, t.callbacks.lookup a ≠ some k := by
        intro a _ ha
        rw [h₁.callbacks] at ha
        split at ha
        · cases ha
        · rename_i hn
          exact hn (hw.inj hk ha ▸ hm₁)
      rw [h₂.silent k hgone, h₁.fired h k hk hm₁]
    · have hm₂ : h ∈ hs₂ := (List.mem_append.mp hmem).resolve_left hm₁
      have hkept : t.callbacks.lookup h = some k := by rw [h₁.callbacks, if_neg hm₁, hk]
      have hsame : t.channels k = s.channels k := by
        apply h₁.silent
        intro a ha hak
        exact hm₁ (hw.inj hk hak ▸ ha)
      rw [h₂.fired h k hkept hm₂, hsame]
  · have hsame : t.channels k = s.channels k :=
      h₁.silent k fun a ha => hne a (List.mem_append_left _ ha)
    rw [h₂.silent k ?_, hsame]
    intro a ha hak
    rw [h₁.callbacks] at hak
    split at hak
    · cases hak
    · exact hne a (List.mem_append_right _ ha) hak
  · rw [h₂.accounting, h₁.accounting]
  · rw [h₂.requests, h₁.requests]
  · rw [h₂.status, h₁.status]

theorem notifyAll_cons {h : H} : s.notifyAll answer (h :: hs) =
    (s.notify answer h).bind fun t => t.notifyAll answer hs := by
  simp only [State.notifyAll, List.foldlM_cons]
  rfl

theorem notifyAll_notified (hw : s.Wired) (h : s.notifyAll answer hs = .ok s') :
    Notified answer s hs s' := by
  induction hs generalizing s with
  | nil =>
      simp only [State.notifyAll, List.foldlM_nil, pure, Except.pure, Except.ok.injEq] at h
      subst h
      exact .refl
  | cons a hs ih =>
      rw [notifyAll_cons] at h
      cases ha : s.notify answer a with
      | error u => rw [ha] at h; cases h
      | ok t =>
          rw [ha] at h
          have hone := notify_notified ha
          exact hone.trans hw (ih (hone.wired hw) h)

theorem notifyAll_error (h : s.notifyAll answer hs = .error s') : s'.status = .panicked := by
  induction hs generalizing s with
  | nil => cases h
  | cons a hs ih =>
      rw [notifyAll_cons] at h
      cases ha : s.notify answer a with
      | ok t => rw [ha] at h; exact ih h
      | error u =>
          rw [ha] at h
          cases h
          unfold State.notify at ha
          split at ha
          · cases ha
          · split at ha <;> cases ha
            rfl

def State.Heard (s : State H) (hs : List H) : Prop :=
  ∀ h ∈ hs, ∀ k ∈ s.callbacks.lookup h, (s.channels k).receiver = true

theorem Notified.receiver (h : Notified answer s hs s') (k : Nat) :
    (s'.channels k).receiver = (s.channels k).receiver := by
  by_cases hf : ∃ a ∈ hs, s.callbacks.lookup a = some k
  · obtain ⟨a, ha, hk⟩ := hf
    rw [h.fired a k hk ha]
    rfl
  · rw [h.silent k fun a ha hk => hf ⟨a, ha, hk⟩]

theorem Notified.heard (h : Notified answer s hs s') {l : List H} (hl : s.Heard l) :
    s'.Heard l := by
  intro a ha k hk
  rw [h.callbacks] at hk
  split at hk
  · cases hk
  · rw [h.receiver]
    exact hl a ha k hk

theorem notifyAll_ok (hw : s.Wired) (hheard : s.Heard hs) : ∃ t, s.notifyAll answer hs = .ok t := by
  induction hs generalizing s with
  | nil => exact ⟨s, rfl⟩
  | cons a hs ih =>
      have hone : ∃ t, s.notify answer a = .ok t := by
        unfold State.notify
        cases hk : s.callbacks.lookup a with
        | none => exact ⟨s, rfl⟩
        | some k =>
            simp only [hheard a (List.mem_cons_self ..) k hk, ↓reduceIte]
            exact ⟨_, rfl⟩
      obtain ⟨t, ht⟩ := hone
      have hn := notify_notified ht
      have hrest : s.Heard hs := fun b hb => hheard b (List.mem_cons_of_mem _ hb)
      obtain ⟨u, hu⟩ := ih (hn.wired hw) (hn.heard hrest)
      exact ⟨u, by rw [notifyAll_cons, ht]; exact hu⟩

/-! ## A finalized block -/

structure Settled (block : Block H) (s s' : State H) : Prop where
  callbacks : ∀ h, s'.callbacks.lookup h =
    if h ∈ block.hashes ∨ h ∈ s.expiring block.number then none else s.callbacks.lookup h
  included : ∀ h k, s.callbacks.lookup h = some k → h ∈ block.hashes →
    s'.channels k = (s.channels k).send (.ok block.hash)
  expired : ∀ h k, s.callbacks.lookup h = some k → h ∉ block.hashes →
    h ∈ s.expiring block.number →
      s'.channels k = (s.channels k).send (.error (.mortalLifetimeSurpassed block.number))
  silent : ∀ k, (∀ h, h ∈ block.hashes ∨ h ∈ s.expiring block.number →
    s.callbacks.lookup h ≠ some k) → s'.channels k = s.channels k
  accounting : s'.mortalAccounting = s.mortalAccounting.erase block.number
  requests : s'.requests = s.requests
  status : s'.status = s.status

theorem settle_settled {block : Block H} {order : List H} (hw : s.Wired)
    (hperm : order.Perm (s.expiring block.number))
    (h : s.settle block.number block.hash block.hashes order = .ok s') : Settled block s s' := by
  unfold State.settle at h
  cases ht : s.notifyAll (.ok block.hash) block.hashes with
  | error u => rw [ht] at h; cases h
  | ok t =>
      rw [ht] at h
      have h₁ := notifyAll_notified hw ht
      have hwt : State.Wired { t with mortalAccounting := t.mortalAccounting.erase block.number } :=
        h₁.wired hw
      have h₂ := notifyAll_notified hwt h
      have hmem : ∀ a, a ∈ order ↔ a ∈ s.expiring block.number := fun a => hperm.mem_iff
      refine ⟨fun a => ?_, fun a k hk ha => ?_, fun a k hk hna ha => ?_, fun k hne => ?_, ?_, ?_, ?_⟩
      · rw [h₂.callbacks]
        simp only [h₁.callbacks, hmem]
        by_cases ha : a ∈ block.hashes <;> by_cases hx : a ∈ s.expiring block.number <;>
          simp [ha, hx]
      · rw [h₂.silent k, h₁.fired a k hk ha]
        intro b _ hb
        simp only [h₁.callbacks] at hb
        split at hb
        · cases hb
        · rename_i hn
          exact hn (hw.inj hk hb ▸ ha)
      · have hkept : t.callbacks.lookup a = some k := by rw [h₁.callbacks, if_neg hna, hk]
        have hsame : t.channels k = s.channels k := by
          apply h₁.silent
          intro b hb hbk
          exact hna (hw.inj hk hbk ▸ hb)
        rw [h₂.fired a k hkept ((hmem a).mpr ha), ← hsame]
      · have hsame : t.channels k = s.channels k :=
          h₁.silent k fun b hb => hne b (Or.inl hb)
        rw [h₂.silent k, ← hsame]
        intro b hb hbk
        simp only [h₁.callbacks] at hbk
        split at hbk
        · cases hbk
        · exact hne b (Or.inr ((hmem b).mp hb)) hbk
      · rw [h₂.accounting, h₁.accounting]
      · rw [h₂.requests, h₁.requests]
      · rw [h₂.status, h₁.status]

theorem Settled.receiver {block : Block H} (h : Settled block s s') (k : Nat) :
    (s'.channels k).receiver = (s.channels k).receiver := by
  by_cases hf : ∃ a, (a ∈ block.hashes ∨ a ∈ s.expiring block.number) ∧
      s.callbacks.lookup a = some k
  · obtain ⟨a, ha, hk⟩ := hf
    by_cases hin : a ∈ block.hashes
    · rw [h.included a k hk hin]
      rfl
    · rw [h.expired a k hk hin (ha.resolve_left hin)]
      rfl
  · rw [h.silent k fun a ha hk => hf ⟨a, ha, hk⟩]

/-- What a block does to one listener: it is told of the inclusion, told of the end of its
lifetime, or not touched. -/
theorem Settled.listener {block : Block H} (h : Settled block s s') (hw : s.Wired) {k : Nat} {a : H}
    {u : Option BlockNumber} (hreq : s.requests[k]? = some (a, u)) :
    (s.callbacks.lookup a = some k ∧ a ∈ block.hashes ∧
      s'.channels k = (s.channels k).send (.ok block.hash)) ∨
    (s.callbacks.lookup a = some k ∧ a ∉ block.hashes ∧ a ∈ s.expiring block.number ∧
      s'.channels k = (s.channels k).send (.error (.mortalLifetimeSurpassed block.number))) ∨
    (s'.channels k = s.channels k ∧
      (s.callbacks.lookup a = some k → a ∉ block.hashes ∧ a ∉ s.expiring block.number)) := by
  have hown : ∀ b, s.callbacks.lookup b = some k → b = a := fun b hb => hw.own hreq hb
  by_cases hk : s.callbacks.lookup a = some k
  · by_cases hin : a ∈ block.hashes
    · exact Or.inl ⟨hk, hin, h.included a k hk hin⟩
    · by_cases hexp : a ∈ s.expiring block.number
      · exact Or.inr (Or.inl ⟨hk, hin, hexp, h.expired a k hk hin hexp⟩)
      · refine Or.inr (Or.inr ⟨h.silent k ?_, fun _ => ⟨hin, hexp⟩⟩)
        intro b hb hbk
        rw [hown b hbk] at hb
        exact hb.elim hin hexp
  · refine Or.inr (Or.inr ⟨h.silent k ?_, fun hk' => absurd hk' hk⟩)
    intro b _ hbk
    exact hk (hown b hbk ▸ hbk)

/-- A block whose triggers all have their receivers is settled without a panic. -/
theorem settle_ok {block : Block H} {order : List H} (hw : s.Wired)
    (hperm : order.Perm (s.expiring block.number))
    (hheard : s.Heard (block.hashes ++ s.expiring block.number)) :
    ∃ t, s.settle block.number block.hash block.hashes order = .ok t := by
  have hheard₁ : s.Heard block.hashes := fun a ha => hheard a (List.mem_append_left _ ha)
  have hheard₂ : s.Heard order := fun a ha =>
    hheard a (List.mem_append_right _ (hperm.mem_iff.mp ha))
  have hfirst : ∃ t, s.notifyAll (.ok block.hash) block.hashes = .ok t := notifyAll_ok hw hheard₁
  obtain ⟨t, ht⟩ := hfirst
  have hn := notifyAll_notified hw ht
  unfold State.settle
  rw [ht]
  exact notifyAll_ok (s := { t with mortalAccounting := t.mortalAccounting.erase block.number })
    (hn.wired hw) (hn.heard hheard₂)

theorem settle_error {number : BlockNumber} {hash : H} {order : List H}
    (h : s.settle number hash hs order = .error s') : s'.status = .panicked := by
  unfold State.settle at h
  cases ht : s.notifyAll (.ok hash) hs with
  | error u =>
      rw [ht] at h
      cases h
      exact notifyAll_error ht
  | ok u =>
      rw [ht] at h
      exact notifyAll_error h

theorem handleBlock_fetched {block : Block H} (order : List H)
    (hx : block.extrinsics.isSome = true) : s.handleBlock block order true =
      match s.settle block.number block.hash block.hashes order with
      | .ok t => t
      | .error t => t := by
  obtain ⟨extrinsics, hx⟩ := Option.isSome_iff_exists.mp hx
  have hhashes : block.hashes = extrinsics := by simp [Block.hashes, hx]
  cases hset : s.settle block.number block.hash block.hashes order with
  | ok t =>
      rw [hhashes] at hset
      simp only [State.handleBlock, hx, hset, ↓reduceIte]
  | error t =>
      rw [hhashes] at hset
      simp only [State.handleBlock, hx, hset, ↓reduceIte]

theorem handleBlock_unfetched {block : Block H} {order : List H} {finalized : Bool}
    (hx : ¬ block.extrinsics.isSome = true) :
    s.handleBlock block order finalized = s.stop .failed := by
  rw [Option.not_isSome_iff_eq_none] at hx
  simp only [State.handleBlock, hx]

/-! ## One step of a monitor that stays alive -/

inductive Live (s : State H) : Event H → State H → Prop
  | finalized {block order s'} (hfetch : block.extrinsics.isSome)
      (hset : Settled block s s') : Live s (.finalized block order) s'
  | best {block} (hfetch : block.extrinsics.isSome) : Live s (.best block) s
  | request {hash validUntil} : Live s (.request hash validUntil) (s.register hash validUntil)
  | dropReceiver {k} : Live s (.dropReceiver k)
      { s with channels := Function.update s.channels k { s.channels k with receiver := false } }

theorem step_running {e : Event H} (h : step s e = some s') (hrun : s'.status = .running) :
    s.status = .running := by
  by_contra hs
  cases e <;> simp only [step, hs, ↓reduceIte, Option.some.injEq] at h <;> subst h <;>
    exact hs hrun

theorem step_live {e : Event H} (hw : s.Wired) (h : step s e = some s')
    (hrun : s'.status = .running) : Live s e s' := by
  have hs := step_running h hrun
  cases e with
  | finalized block order =>
      simp only [step, hs, ↓reduceIte, Option.ite_none_right_eq_some, Option.some.injEq] at h
      obtain ⟨hperm, rfl⟩ := h
      by_cases hx : block.extrinsics.isSome
      · rw [handleBlock_fetched order hx] at hrun ⊢
        cases hset : s.settle block.number block.hash block.hashes order with
        | ok t => exact .finalized hx (settle_settled hw hperm hset)
        | error t =>
            rw [hset] at hrun
            simp [settle_error hset] at hrun
      · rw [handleBlock_unfetched hx] at hrun
        cases hrun
  | best block =>
      simp only [step, hs, ↓reduceIte, Option.some.injEq] at h
      subst h
      by_cases hx : block.extrinsics.isSome
      · obtain ⟨extrinsics, he⟩ := Option.isSome_iff_exists.mp hx
        simpa [State.handleBlock, he] using Live.best (s := s) hx
      · rw [handleBlock_unfetched hx] at hrun
        cases hrun
  | request hash validUntil =>
      simp only [step, hs, ↓reduceIte, Option.some.injEq] at h
      subst h
      exact .request
  | dropReceiver k =>
      cases h
      exact .dropReceiver
  | allDisabled =>
      simp only [step, hs, ↓reduceIte, Option.some.injEq] at h
      subst h
      cases hrun

/-! ## What registrations and blocks do to the two maps -/

theorem register_wired {hash : H} {validUntil} (hw : s.Wired) :
    (s.register hash validUntil).Wired := by
  intro h k hk
  simp only [State.register, AList.lookup_insert_eq] at hk ⊢
  split at hk
  · rename_i he
    simp only [Option.some.injEq] at hk
    subst he hk
    exact ⟨validUntil, by simp⟩
  · obtain ⟨u, hu⟩ := hw h k hk
    exact ⟨u, by rw [List.getElem?_append_left (List.getElem?_eq_some_iff.mp hu).1, hu]⟩

theorem mem_expiring_register {hash a : H} {validUntil} {n : BlockNumber} :
    a ∈ (s.register hash validUntil).expiring n ↔
      (validUntil = some n ∧ a = hash) ∨ a ∈ s.expiring n := by
  cases validUntil with
  | none => simp [State.register, State.expiring]
  | some till =>
      simp only [State.register, State.expiring, AList.lookup_insert_eq, Option.some.injEq]
      by_cases hn : n = till
      · subst hn
        simp
      · simp [hn, Ne.symm hn]

theorem register_requests {hash : H} {validUntil} {k : Nat} (hk : k < s.requests.length) :
    (s.register hash validUntil).requests[k]? = s.requests[k]? :=
  List.getElem?_append_left hk

/-- Registration closes at most the channel of the trigger it replaces. -/
theorem register_channels {hash : H} {validUntil} (k : Nat) :
    (s.register hash validUntil).channels k =
      if s.callbacks.lookup hash = some k then (s.channels k).close else s.channels k := by
  simp only [State.register]
  cases ho : s.callbacks.lookup hash with
  | none => simp
  | some old =>
      by_cases hk : k = old
      · subst hk
        simp
      · simp [hk, Ne.symm hk]

theorem Settled.mem_expiring {block : Block H} (h : Settled block s s') {n : BlockNumber} {a : H} :
    a ∈ s'.expiring n ↔ n ≠ block.number ∧ a ∈ s.expiring n := by
  simp only [State.expiring, h.accounting, AList.lookup_erase_eq]
  by_cases hn : n = block.number <;> simp [hn]

theorem Settled.wired {block : Block H} (h : Settled block s s') (hw : s.Wired) : s'.Wired := by
  intro a k hk
  rw [h.callbacks] at hk
  split at hk
  · cases hk
  · rw [h.requests]
    exact hw a k hk

theorem Live.wired {e : Event H} (h : Live s e s') (hw : s.Wired) : s'.Wired := by
  cases h with
  | finalized _ hset => exact hset.wired hw
  | best => exact hw
  | request => exact register_wired hw
  | dropReceiver => exact hw

omit [DecidableEq H] in
/-- The sender of a listener does not see that the receiver is gone. -/
theorem dropReceiver_channel (channels : Nat → Channel H) (j k : Nat) :
    (Function.update channels j { channels j with receiver := false } k).sent =
        (channels k).sent ∧
      (Function.update channels j { channels j with receiver := false } k).closed =
        (channels k).closed := by
  by_cases hj : k = j
  · subst hj
    simp
  · simp [hj]

end TxTestTool.BlockMonitor
