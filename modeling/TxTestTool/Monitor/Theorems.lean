import TxTestTool.Monitor.Lemmas.Receivers

/-!
# What the listeners are told
-/

namespace TxTestTool.BlockMonitor

variable {H : Type*} [DecidableEq H] {s s' : State H} {es past before after : List (Event H)}
  {e : Event H} {hash : H} {validUntil : Option BlockNumber} {k : Nat}

/-! ## Exactly one answer -/

/-- With distinct transactions, live receivers and successful fetches, each listener gets the
verdict of the first block after its registration that decides about its transaction, and nothing
else. -/
theorem listener_answered_exactly (hord : ∀ e ∈ es, e.ordinary = true)
    (hdistinct : ((registrations es).map Prod.fst).Nodup)
    (hes : es = before ++ .request hash validUntil :: after)
    (h : (machine H).run new es = some s) :
    s.status = .running ∧ (s.channels (registrations before).length).closed = false ∧
      match (finalizedBlocks after).find? (decides hash validUntil) with
      | none => (s.channels (registrations before).length).sent = []
      | some b => (s.channels (registrations before).length).sent =
          [if hash ∈ b.hashes then .ok b.hash else .error (.mortalLifetimeSurpassed b.number)] := by
  have hrun := run_ordinary h hord
  have honce : ∀ r ∈ registrations before ++ registrations after, r.1 ≠ hash := by
    intro r hr he
    rw [hes, registrations_append] at hdistinct
    have hnodup : ((registrations before ++ registrations after).map Prod.fst).Nodup ∧
        hash ∉ (registrations before ++ registrations after).map Prod.fst := by
      have hmid := List.nodup_middle.mp (by simpa [registrations] using hdistinct)
      rw [List.nodup_cons] at hmid
      simpa [registrations] using hmid.symm
    exact hnodup.2 (List.mem_map.mpr ⟨r, hr, he⟩)
  subst hes
  have hfollows := run_follows h hrun honce
  refine ⟨hrun, hfollows.opened, ?_⟩
  cases hd : (finalizedBlocks after).find? (decides hash validUntil) with
  | none => exact (hfollows.waiting hd).2.1
  | some b => exact (hfollows.answered b hd).2

/-- A transaction that expires and one that is included, in the same block. -/
def answeredEvents : List (Event Nat) :=
  [.request 1 (some 5), .request 2 none, .best ⟨5, 49, some [1]⟩, .finalized ⟨5, 50, some [2]⟩ [1]]

theorem listener_answered_exactly_both : ∃ s, (machine Nat).run new answeredEvents = some s ∧
    (s.channels 0).sent = [.error (.mortalLifetimeSurpassed 5)] ∧
    (s.channels 1).sent = [.ok 50] :=
  ⟨_, rfl,
    (@listener_answered_exactly Nat _ _ answeredEvents [] _ 1 (some 5) (by decide) (by decide) rfl
      rfl).2.2,
    (@listener_answered_exactly Nat _ _ answeredEvents [.request 1 (some 5)] _ 2 none (by decide)
      (by decide) rfl rfl).2.2⟩

/-! ## Own terms -/

/-- A registration finds no listener of the same transaction waiting, and a block that ends the
lifetime of a transaction it does not contain finds only a listener that asked for this. -/
def OwnTerms (s : State H) : Event H → Prop
  | .request hash _ => s.callbacks.lookup hash = none
  | .finalized block _ => ∀ h ∈ s.expiring block.number, h ∉ block.hashes →
      ∀ k ∈ s.callbacks.lookup h, s.requests[k]? = some (h, some block.number)
  | _ => True

instance : (e : Event H) → Decidable (OwnTerms s e)
  | .request hash _ => inferInstanceAs (Decidable (s.callbacks.lookup hash = none))
  | .finalized block _ => inferInstanceAs (Decidable (∀ h ∈ s.expiring block.number,
      h ∉ block.hashes → ∀ k ∈ s.callbacks.lookup h, s.requests[k]? = some (h, some block.number)))
  | .best _ | .dropReceiver _ | .allDisabled => .isTrue trivial

def State.Honoured (s : State H) : Prop :=
  ∀ k h u, s.requests[k]? = some (h, u) →
    (∀ n, .error (.mortalLifetimeSurpassed n) ∈ (s.channels k).sent → u = some n) ∧
      (s.channels k).closed = false

theorem Live.honoured (hl : Live s e s') (hok : OwnTerms s e) (hsound : Sound past s)
    (h : s.Honoured) : s'.Honoured := by
  cases hl with
  | @finalized block order s' hfetch hset =>
      intro k a u hreq
      rw [hset.requests] at hreq
      obtain ⟨hown, hopen⟩ := h k a u hreq
      rcases hset.listener hsound.wired hreq with
        ⟨_, _, hch⟩ | ⟨hk, hin, hexp, hch⟩ | ⟨hch, _⟩ <;> rw [hch]
      · refine ⟨fun n hn => ?_, hopen⟩
        simp only [Channel.send, List.mem_append, List.mem_singleton, reduceCtorEq, or_false] at hn
        exact hown n hn
      · refine ⟨fun n hn => ?_, hopen⟩
        have hasked := hok a hexp hin k hk
        rw [hreq] at hasked
        simp only [Option.some.injEq, Prod.mk.injEq, true_and] at hasked
        simp only [Channel.send, List.mem_append, List.mem_singleton, Except.error.injEq,
          Error.mortalLifetimeSurpassed.injEq] at hn
        rcases hn with hn | rfl
        · exact hown n hn
        · exact hasked
      · exact ⟨hown, hopen⟩
  | best => exact h
  | @request hash v =>
      have hfree : s.callbacks.lookup hash = none := hok
      intro k a u hreq
      rw [register_channels, hfree, if_neg (by simp)]
      by_cases hk : k < s.requests.length
      · apply h k a u
        rwa [register_requests hk] at hreq
      · obtain ⟨hsent, hopen⟩ := hsound.fresh k (Nat.le_of_not_lt hk)
        rw [hsent]
        exact ⟨fun n hn => (by cases hn), hopen⟩
  | @dropReceiver j =>
      intro k a u hreq
      obtain ⟨hsent, hclosed⟩ := dropReceiver_channel s.channels j k
      rw [hsent, hclosed]
      exact h k a u hreq

/-- While the monitor runs, no listener is told of a lifetime other than its own, and none loses
its channel to another registration, if every step so far met `OwnTerms`. -/
theorem listener_on_own_terms (hok : (machine H).Meets (fun _ => OwnTerms) [] new es)
    (h : (machine H).run new es = some s) (hrun : s.status = .running) :
    ∀ k hash validUntil, (registrations es)[k]? = some (hash, validUntil) →
      (∀ n, .error (.mortalLifetimeSurpassed n) ∈ (s.channels k).sent → validUntil = some n) ∧
        (s.channels k).closed = false := by
  have hstep : ∀ past (s : State H) e t, Sound past s ∧ s.Honoured → OwnTerms s e →
      Live s e t → Sound (past ++ [e]) t ∧ t.Honoured :=
    fun _ _ _ _ ⟨hs, hhon⟩ hterms hl => ⟨hl.sound hs, hl.honoured hterms hs hhon⟩
  have h₀ : Sound [] (new : State H) ∧ (new : State H).Honoured :=
    ⟨new_sound, fun k a u hreq => (by cases hreq)⟩
  obtain ⟨hsound, hhon⟩ := run_live (fun _ _ hi => hi.1.wired) hstep h₀ hok h hrun
  intro k hash validUntil hreq
  apply hhon k hash validUntil
  rw [hsound.requests]
  exact hreq

/-- A listener without a lifetime registered after the transaction was found, and a stale entry. -/
def staleEvents : List (Event Nat) :=
  [.request 1 (some 5), .finalized ⟨3, 30, some [1]⟩ [], .request 1 none,
    .finalized ⟨5, 50, some []⟩ [1]]

/-- Two listeners of one transaction: the second registration closes the channel of the first. -/
def replacedEvents : List (Event Nat) := [.request 1 none, .request 1 none]

theorem listener_on_others_terms :
    ¬ (∀ (es : List (Event Nat)) s, (machine Nat).run new es = some s → s.status = .running →
      ∀ k hash validUntil, (registrations es)[k]? = some (hash, validUntil) →
        ∀ n, .error (.mortalLifetimeSurpassed n) ∈ (s.channels k).sent → validUntil = some n) ∧
    ¬ (∀ (es : List (Event Nat)) s, (machine Nat).run new es = some s → s.status = .running →
      ∀ k, (s.channels k).closed = false) := by
  refine ⟨fun h => ?_, fun h => ?_⟩
  · have hn := h staleEvents _ rfl rfl 1 1 none rfl 5 (by decide)
    cases hn
  · have hn := h replacedEvents _ rfl rfl 0
    revert hn
    decide

/-- The transaction is registered again after it was found, now with a lifetime, which ends. -/
def renewedEvents : List (Event Nat) :=
  [.request 1 none, .finalized ⟨3, 30, some [1]⟩ [], .request 1 (some 5),
    .finalized ⟨5, 50, some []⟩ [1]]

theorem listener_on_own_terms_renewed : ∃ s, (machine Nat).run new renewedEvents = some s ∧
    (s.channels 0).closed = false ∧ (s.channels 1).closed = false ∧
    (s.channels 1).sent = [.error (.mortalLifetimeSurpassed 5)] := by
  have hterms := @listener_on_own_terms Nat _ _ renewedEvents (by decide) rfl rfl
  exact ⟨_, rfl, (hterms 0 1 none rfl).2, (hterms 1 1 (some 5) rfl).2, rfl⟩

/-! ## The end of a lifetime -/

/-- No mortal listener is replaced while it waits, none registers when a block at or past the end
of its lifetime has been processed, and a block past the end of the lifetime of a waiting listener
contains its transaction or ends the lifetime of another registration of it. -/
def InTime (past : List (Event H)) (s : State H) : Event H → Prop
  | .request hash validUntil =>
      (∀ k ∈ s.callbacks.lookup hash, ∀ r ∈ s.requests[k]?, r.2 = none) ∧
        ∀ u ∈ validUntil, ∀ b ∈ finalizedBlocks past, b.number < u
  | .finalized block _ => ∀ c ∈ s.callbacks.entries, ∀ r ∈ s.requests[c.2]?, ∀ u ∈ r.2,
      u < block.number → c.1 ∈ block.hashes ∨ c.1 ∈ s.expiring block.number
  | _ => True

instance : (e : Event H) → Decidable (InTime past s e)
  | .request hash validUntil => inferInstanceAs (Decidable
      ((∀ k ∈ s.callbacks.lookup hash, ∀ r ∈ s.requests[k]?, r.2 = none) ∧
        ∀ u ∈ validUntil, ∀ b ∈ finalizedBlocks past, b.number < u))
  | .finalized block _ => inferInstanceAs (Decidable (∀ c ∈ s.callbacks.entries,
      ∀ r ∈ s.requests[c.2]?, ∀ u ∈ r.2,
        u < block.number → c.1 ∈ block.hashes ∨ c.1 ∈ s.expiring block.number))
  | .best _ | .dropReceiver _ | .allDisabled => .isTrue trivial

def Channel.Answered (c : Channel H) : Prop :=
  (∃ b, c.sent = [.ok b]) ∨ ∃ n, c.sent = [.error (.mortalLifetimeSurpassed n)]

/-- A mortal listener waits only before the end of its lifetime. -/
structure Timely (past : List (Event H)) (s : State H) : Prop where
  silent : ∀ h k, s.callbacks.lookup h = some k → (s.channels k).sent = []
  ahead : ∀ h k u, s.callbacks.lookup h = some k → s.requests[k]? = some (h, some u) →
    h ∈ s.expiring u ∧ ∀ b ∈ finalizedBlocks past, b.number < u
  answered : ∀ k h u, s.requests[k]? = some (h, some u) →
    s.callbacks.lookup h = some k ∨ Channel.Answered (s.channels k)

theorem Timely.settled {block : Block H} {order : List H} (h : Timely past s)
    (hsound : Sound past s) (hok : InTime past s (.finalized block order))
    (hset : Settled block s s') : Timely (past ++ [.finalized block order]) s' := by
  have hstill : ∀ {a k}, s'.callbacks.lookup a = some k → s.callbacks.lookup a = some k ∧
      a ∉ block.hashes ∧ a ∉ s.expiring block.number := by
    intro a k hk
    rw [hset.callbacks] at hk
    split at hk
    · cases hk
    · rename_i hn
      exact ⟨hk, fun hin => hn (Or.inl hin), fun hexp => hn (Or.inr hexp)⟩
  have hkept : ∀ {a k}, s'.callbacks.lookup a = some k → s'.channels k = s.channels k := by
    intro a k hk
    obtain ⟨hold, hin, hexp⟩ := hstill hk
    obtain ⟨u, hu⟩ := hsound.wired a k hold
    rcases hset.listener hsound.wired hu with ⟨_, h', _⟩ | ⟨_, _, h', _⟩ | ⟨hsame, _⟩
    · exact absurd h' hin
    · exact absurd h' hexp
    · exact hsame
  refine ⟨fun a k hk => ?_, fun a k u hk hreq => ?_, fun k a u hreq => ?_⟩
  · rw [hkept hk]
    exact h.silent a k (hstill hk).1
  · rw [hset.requests] at hreq
    obtain ⟨hold, hin, hexp⟩ := hstill hk
    obtain ⟨hmark, hahead⟩ := h.ahead a k u hold hreq
    have hne : u ≠ block.number := by
      rintro rfl
      exact hexp hmark
    have hlt : ¬ u < block.number := by
      intro hlt
      have hentry : ⟨a, k⟩ ∈ s.callbacks.entries := AList.mem_lookup_iff.mp hold
      exact (hok ⟨a, k⟩ hentry (a, some u) hreq u rfl hlt).elim hin hexp
    refine ⟨hset.mem_expiring.mpr ⟨hne, hmark⟩, fun b hb => ?_⟩
    rw [finalizedBlocks_append] at hb
    rcases List.mem_append.mp hb with hb | hb
    · exact hahead b hb
    · have he : b = block := by simpa [finalizedBlocks] using hb
      rw [he]
      exact Nat.lt_of_le_of_ne (Nat.le_of_not_lt hlt) hne.symm
  · rw [hset.requests] at hreq
    rcases hset.listener hsound.wired hreq with
      ⟨hk, _, hch⟩ | ⟨hk, _, _, hch⟩ | ⟨hsame, hquiet⟩
    · exact Or.inr (Or.inl ⟨block.hash, by rw [hch, Channel.send, h.silent a k hk]; rfl⟩)
    · exact Or.inr (Or.inr ⟨block.number, by rw [hch, Channel.send, h.silent a k hk]; rfl⟩)
    · rcases h.answered k a u hreq with hk | hans
      · obtain ⟨hin, hexp⟩ := hquiet hk
        refine Or.inl ?_
        rw [hset.callbacks, if_neg (by simp [hin, hexp]), hk]
      · exact Or.inr (hsame ▸ hans)

theorem Timely.registered (h : Timely past s) (hsound : Sound past s)
    (hok : InTime past s (.request hash validUntil)) :
    Timely (past ++ [.request hash validUntil]) (s.register hash validUntil) := by
  have hblocks : finalizedBlocks (past ++ [.request hash validUntil]) = finalizedBlocks past := by
    rw [finalizedBlocks_append]
    simp [finalizedBlocks]
  have hother : ∀ {a k}, a ≠ hash → s.callbacks.lookup a = some k →
      (s.register hash validUntil).channels k = s.channels k := by
    intro a k hne hk
    rw [register_channels, if_neg]
    intro hk'
    exact hne (hsound.wired.inj hk hk')
  have hnew : ∀ k, ¬ k < s.requests.length → s.callbacks.lookup hash ≠ some k :=
    fun k hk hk' => hk (hsound.lt_of_lookup hk')
  refine ⟨fun a k hk => ?_, fun a k u hk hreq => ?_, fun k a u hreq => ?_⟩
  · simp only [State.register, AList.lookup_insert_eq] at hk
    split at hk
    · simp only [Option.some.injEq] at hk
      subst hk
      rw [register_channels, if_neg (hnew _ (Nat.lt_irrefl _))]
      exact (hsound.fresh _ (Nat.le_refl _)).1
    · rename_i hne
      rw [hother hne hk]
      exact h.silent a k hk
  · rw [hblocks]
    simp only [State.register, AList.lookup_insert_eq] at hk
    split at hk
    · rename_i he
      simp only [Option.some.injEq] at hk
      subst he hk
      have hu : validUntil = some u := by simpa [State.register] using hreq
      exact ⟨mem_expiring_register.mpr (Or.inl ⟨hu, rfl⟩), hok.2 u hu⟩
    · have hlt := hsound.lt_of_lookup hk
      have hold : s.requests[k]? = some (a, some u) := by rwa [register_requests hlt] at hreq
      obtain ⟨hmark, hahead⟩ := h.ahead a k u hk hold
      exact ⟨mem_expiring_register.mpr (Or.inr hmark), hahead⟩
  · by_cases hlt : k < s.requests.length
    · have hold : s.requests[k]? = some (a, some u) := by
        simpa [State.register, List.getElem?_append_left hlt] using hreq
      rcases h.answered k a u hold with hk | hans
      · by_cases ha : a = hash
        · -- the condition excludes that a mortal listener is replaced
          subst ha
          have hnone := hok.1 k hk _ hold
          cases hnone
        · refine Or.inl ?_
          simpa only [State.register, AList.lookup_insert_eq, ha, ↓reduceIte] using hk
      · refine Or.inr ?_
        rw [register_channels]
        split
        · exact hans
        · exact hans
    · have hk : k = s.requests.length := by
        have hlen := (List.getElem?_eq_some_iff.mp hreq).1
        simp only [State.register, List.length_append, List.length_singleton] at hlen
        omega
      subst hk
      have ha : hash = a := by
        have hpair : (hash, validUntil) = (a, some u) := by simpa [State.register] using hreq
        exact congrArg Prod.fst hpair
      refine Or.inl ?_
      simp [State.register, ha]

theorem Live.timely (hl : Live s e s') (hok : InTime past s e) (hsound : Sound past s)
    (h : Timely past s) : Timely (past ++ [e]) s' := by
  cases hl with
  | finalized _ hset => exact h.settled hsound hok hset
  | request => exact h.registered hsound hok
  | best =>
      refine ⟨h.silent, ?_, h.answered⟩
      rw [finalizedBlocks_append]
      simpa [finalizedBlocks] using h.ahead
  | @dropReceiver j =>
      have hsent := fun k => (dropReceiver_channel s.channels j k).1
      have hblocks : finalizedBlocks (past ++ [.dropReceiver j]) = finalizedBlocks past := by
        rw [finalizedBlocks_append]
        simp [finalizedBlocks]
      refine ⟨fun a k hk => (hsent k).trans (h.silent a k hk), ?_, fun k a u hreq => ?_⟩
      · rw [hblocks]
        exact h.ahead
      · apply (h.answered k a u hreq).imp_right
        unfold Channel.Answered
        rw [hsent k]
        exact id

/-- Under `InTime`, whatever the numbers of the blocks, no mortal listener waits once a block at or
past the end of its lifetime has been processed, before or after its registration. -/
theorem mortal_listener_reported (hord : ∀ e ∈ es, e.ordinary = true)
    (hok : (machine H).Meets InTime [] new es)
    (h : (machine H).run new es = some s) :
    ∀ k hash u, (registrations es)[k]? = some (hash, some u) →
      (∃ b ∈ finalizedBlocks es, u ≤ b.number) →
        (∃ b, (s.channels k).sent = [.ok b]) ∨
          ∃ n, (s.channels k).sent = [.error (.mortalLifetimeSurpassed n)] := by
  have hrun := run_ordinary h hord
  have hstep : ∀ past (s : State H) e t, Sound past s ∧ Timely past s → InTime past s e →
      Live s e t → Sound (past ++ [e]) t ∧ Timely (past ++ [e]) t :=
    fun _ _ _ _ ⟨hs, htimely⟩ htime hl => ⟨hl.sound hs, hl.timely htime hs htimely⟩
  have h₀ : Sound [] (new : State H) ∧ Timely [] (new : State H) := by
    refine ⟨new_sound, fun a k hk => ?_, fun a k u hk => ?_, fun k a u hreq => ?_⟩
    · cases hk
    · cases hk
    · cases hreq
  obtain ⟨hsound, htimely⟩ := run_live (fun _ _ hi => hi.1.wired) hstep h₀ hok h hrun
  intro k hash u hreq hpast
  obtain ⟨b, hb, hle⟩ := hpast
  have hreq' : s.requests[k]? = some (hash, some u) := by
    rw [hsound.requests]
    exact hreq
  rcases htimely.answered k hash u hreq' with hk | hans
  · have hlt := (htimely.ahead hash k u hk hreq').2 b hb
    exact absurd hle (Nat.not_le_of_lt hlt)
  · exact hans

def skippedEvents : List (Event Nat) := [.request 1 (some 5), .finalized ⟨6, 60, some []⟩ []]

def lateEvents : List (Event Nat) := [.finalized ⟨5, 50, some []⟩ [], .request 1 (some 5)]

theorem mortal_listener_forgotten :
    ¬ (∀ (es : List (Event Nat)) s, (∀ e ∈ es, e.ordinary = true) →
      (finalizedBlocks es).Pairwise (·.number < ·.number) → (machine Nat).run new es = some s →
        ∀ k hash u, (registrations es)[k]? = some (hash, some u) →
          (∃ b ∈ finalizedBlocks es, u ≤ b.number) → (s.channels k).sent ≠ []) ∧
    ((machine Nat).run new skippedEvents).map (fun s => (s.channels 0).sent) = some [] ∧
    ((machine Nat).run new lateEvents).map (fun s => (s.channels 0).sent) = some [] := by
  refine ⟨fun h => ?_, by decide, by decide⟩
  exact h skippedEvents _ (by decide) (by decide) rfl 0 1 5 rfl
    ⟨⟨6, 60, some []⟩, by decide, by decide⟩ rfl

/-- One listener is told of the end of its lifetime, one of an inclusion, and a block is skipped. -/
def timelyEvents : List (Event Nat) :=
  [.finalized ⟨3, 30, some []⟩ [], .request 1 (some 5), .request 2 (some 9),
    .finalized ⟨5, 50, some []⟩ [1], .finalized ⟨8, 80, some [2]⟩ []]

theorem mortal_listener_reported_both : ∃ s, (machine Nat).run new timelyEvents = some s ∧
    ((∃ b, (s.channels 0).sent = [.ok b]) ∨
      ∃ n, (s.channels 0).sent = [.error (.mortalLifetimeSurpassed n)]) :=
  ⟨_, rfl, @mortal_listener_reported Nat _ _ timelyEvents (by decide) (by decide) rfl 0 1 5 rfl
    ⟨⟨8, 80, some [2]⟩, by decide, by decide⟩⟩

/-! ## Listeners that leave -/

/-- If no block fires a trigger whose receiver is gone, the listeners get exactly the answers that
they get when nobody leaves. -/
theorem listeners_independent (hok : (machine H).Meets (fun _ => HeardBlock) [] new es)
    (h : (machine H).run new es = some s) :
    ∃ t, (machine H).run new (es.filter (!·.isDrop)) = some t ∧ t.status = s.status ∧
      ∀ k, (t.channels k).sent = (s.channels k).sent ∧
        (t.channels k).closed = (s.channels k).closed :=
  ⟨s.revive, run_revive hok h, rfl, fun _ => ⟨rfl, rfl⟩⟩

/-- The first listener leaves before its transaction is found. -/
def departedEvents : List (Event Nat) :=
  [.request 1 none, .request 2 none, .dropReceiver 0, .finalized ⟨5, 50, some [1]⟩ [],
    .finalized ⟨6, 60, some [2]⟩ []]

def departedMortalEvents : List (Event Nat) :=
  [.request 1 (some 5), .request 2 none, .dropReceiver 0, .finalized ⟨5, 50, some [2]⟩ [1],
    .request 3 none, .finalized ⟨6, 60, some [3]⟩ []]

/-- The send to the dropped receiver ends the monitor, and every other listener loses its answer. -/
theorem departed_listener_interferes :
    ¬ (∀ (es : List (Event Nat)) s t, ((registrations es).map Prod.fst).Nodup →
      (machine Nat).run new es = some s →
      (machine Nat).run new (es.filter (!·.isDrop)) = some t →
        ∀ k, Event.dropReceiver k ∉ es → (s.channels k).sent = (t.channels k).sent) ∧
    ((machine Nat).run new departedMortalEvents).map
      (fun s => (s.status, (s.channels 2).sent, (s.channels 2).closed)) =
        some (.panicked, [], true) := by
  refine ⟨fun h => ?_, by decide⟩
  have hsame := h departedEvents _ _ (by decide) rfl rfl 1 (by decide)
  revert hsame
  decide

/-- A listener that leaves after its answer disturbs nobody. -/
def politeEvents : List (Event Nat) :=
  [.request 1 none, .request 2 none, .finalized ⟨5, 50, some [1]⟩ [], .dropReceiver 0,
    .finalized ⟨6, 60, some [2]⟩ []]

theorem listeners_independent_polite : ∃ s, (machine Nat).run new politeEvents = some s ∧
    (s.channels 1).sent = [.ok 60] ∧
    ∃ t, (machine Nat).run new (politeEvents.filter (!·.isDrop)) = some t ∧
      t.status = s.status ∧ ∀ k, (t.channels k).sent = (s.channels k).sent ∧
        (t.channels k).closed = (s.channels k).closed :=
  ⟨_, rfl, by decide, @listeners_independent Nat _ _ politeEvents (by decide) rfl⟩

end TxTestTool.BlockMonitor
