import TxTestTool.Monitor.Theorems

/-!
# From submission to registration

An unwatched transaction is submitted, and only when `submit` has returned does `send_tx` put its
request on the channel of the monitor, which the monitor takes in any order with the finalized
blocks. The node includes the transaction whenever it likes.
-/

namespace TxTestTool.Submission

open BlockMonitor (decides verdict Follows run_follows run_ordinary finalizedBlocks registrations)

variable {H : Type*}

inductive Stage
  | created
  | submitting
  | submitted
  /-- The request is on the channel. -/
  | requested
  /-- The monitor took the request when it had processed `seen` finalized blocks. -/
  | registered (seen : Nat)
deriving DecidableEq, Repr

/-- A finalized block, and what the node had accepted when it was produced. -/
structure Produced (H : Type*) where
  number : BlockNumber
  hash : H
  hashes : List H
  accepted : List H
deriving DecidableEq, Repr

def Produced.block (p : Produced H) : Block H := ⟨p.number, p.hash, some p.hashes⟩

@[simp] theorem Produced.block_hashes (p : Produced H) : p.block.hashes = p.hashes := rfl

structure State (H : Type*) where
  monitor : BlockMonitor.State H
  stage : H → Stage
  accepted : List H
  /-- The channel of the monitor, oldest request first. -/
  channel : List H
  stream : List (Produced H)
  /-- History: the finalized blocks that the monitor has processed. -/
  processed : List (Produced H)

inductive Event (H : Type*)
  | submit (hash : H)
  | accept (hash : H)
  | submitOk (hash : H)
  | put (hash : H)
  /-- The monitor takes the oldest request. -/
  | take
  | produce (number : BlockNumber) (hash : H) (hashes : List H)
  /-- The monitor processes the next finalized block. -/
  | process (order : List H)
  | skip
deriving DecidableEq, Repr

def new : State H := ⟨BlockMonitor.new, fun _ => .created, [], [], [], []⟩

variable [DecidableEq H]

def State.setStage (s : State H) (hash : H) (stage : Stage) : State H :=
  { s with stage := Function.update s.stage hash stage }

def channelCapacity : Nat := 100

def step (validUntil : H → Option BlockNumber) (s : State H) : Event H → Option (State H)
  | .submit hash =>
      if s.stage hash = .created then some (s.setStage hash .submitting) else none
  | .accept hash =>
      if s.stage hash = .submitting ∧ hash ∉ s.accepted then
        some { s with accepted := s.accepted ++ [hash] }
      else none
  | .submitOk hash =>
      if s.stage hash = .submitting ∧ hash ∈ s.accepted then some (s.setStage hash .submitted)
      else none
  | .put hash =>
      if s.stage hash = .submitted ∧ s.channel.length < channelCapacity then
        some { s.setStage hash .requested with channel := s.channel ++ [hash] }
      else none
  | .take =>
      match s.channel with
      | [] => none
      | hash :: rest =>
          (BlockMonitor.step s.monitor (.request hash (validUntil hash))).map fun m =>
            { s.setStage hash (.registered s.processed.length) with monitor := m, channel := rest }
  | .produce number hash hashes =>
      some { s with stream := s.stream ++ [⟨number, hash, hashes, s.accepted⟩] }
  | .process order =>
      match s.stream with
      | [] => none
      | p :: rest =>
          (BlockMonitor.step s.monitor (.finalized p.block order)).map fun m =>
            { s with monitor := m, stream := rest, processed := s.processed ++ [p] }
  | .skip =>
      match s.stream with
      | [] => none
      | _ :: rest => some { s with stream := rest }

def machine (H : Type*) [DecidableEq H] (validUntil : H → Option BlockNumber) :
    Machine (State H) (Event H) := ⟨step validUntil⟩

def Produced.Confirms (p : Produced H) (hash : H) : Prop := hash ∈ p.hashes ∧ hash ∈ p.accepted

instance (p : Produced H) (hash : H) : Decidable (p.Confirms hash) := by
  unfold Produced.Confirms
  infer_instance

/-- If a block since the registration has decided about the transaction, the first such confirms
it. -/
def FirstConfirms (validUntil : H → Option BlockNumber) (s : State H) (hash : H) : Prop :=
  match s.stage hash with
  | .registered seen =>
      ∀ q ∈ (s.processed.drop seen).find? fun q => decides hash (validUntil hash) q.block,
        q.Confirms hash
  | _ => True

instance (validUntil : H → Option BlockNumber) (s : State H) (hash : H) :
    Decidable (FirstConfirms validUntil s hash) := by
  unfold FirstConfirms
  split <;> infer_instance

/-- The monitor takes a request before it has processed a block that confirms its transaction, and
when it processes such a block, no other block has decided about the transaction first. -/
def WokenInTime (validUntil : H → Option BlockNumber) (s : State H) : Event H → Prop
  | .take => ∀ hash ∈ s.channel.head?, ∀ p ∈ s.processed, ¬ p.Confirms hash
  | .process _ => ∀ p ∈ s.stream.head?, ∀ hash ∈ p.hashes, hash ∈ p.accepted →
      FirstConfirms validUntil s hash
  | _ => True

instance (validUntil : H → Option BlockNumber) (s : State H) (e : Event H) :
    Decidable (WokenInTime validUntil s e) := by
  unfold WokenInTime
  split <;> infer_instance

/-! ## Invariants -/

variable {validUntil : H → Option BlockNumber} {s s' : State H} {e : Event H}
  {es : List (Event H)} {hash : H} {seen : Nat}

/-- `ms` is what the monitor has seen so far. -/
structure Traced (validUntil : H → Option BlockNumber) (s : State H)
    (ms : List (BlockMonitor.Event H)) : Prop where
  run : (BlockMonitor.machine H).run BlockMonitor.new ms = some s.monitor
  ordinary : ∀ e ∈ ms, e.ordinary = true
  blocks : finalizedBlocks ms = s.processed.map Produced.block
  once : ((registrations ms).map Prod.fst).Nodup
  known : ∀ r ∈ registrations ms, ∃ seen, s.stage r.1 = .registered seen
  request : ∀ hash seen, s.stage hash = .registered seen → ∃ before after,
    ms = before ++ .request hash (validUntil hash) :: after ∧
      (finalizedBlocks before).length = seen

structure Inv (validUntil : H → Option BlockNumber) (s : State H) : Prop where
  traced : ∃ ms, Traced validUntil s ms
  requested : ∀ hash ∈ s.channel, s.stage hash = .requested
  distinct : s.channel.Nodup
  bound : ∀ hash seen, s.stage hash = .registered seen → seen ≤ s.processed.length
  early : ∀ hash seen, s.stage hash = .registered seen →
    ∀ p ∈ s.processed.take seen, ¬ p.Confirms hash
  first : ∀ hash seen, s.stage hash = .registered seen →
    (∀ p ∈ s.processed.drop seen, ¬ p.Confirms hash) ∨
      ∃ p, ((s.processed.drop seen).find? fun q => decides hash (validUntil hash) q.block) = some p ∧
        p.Confirms hash

theorem Inv.aside (h : Inv validUntil s) (hmon : s'.monitor = s.monitor)
    (hproc : s'.processed = s.processed)
    (hstage : ∀ a n, s'.stage a = .registered n ↔ s.stage a = .registered n)
    (hreq : ∀ a ∈ s'.channel, s'.stage a = .requested) (hdist : s'.channel.Nodup) :
    Inv validUntil s' := by
  obtain ⟨ms, hms⟩ := h.traced
  refine ⟨⟨ms, ?_, hms.ordinary, ?_, hms.once, ?_, ?_⟩, hreq, hdist, ?_, ?_, ?_⟩
  · rw [hmon]
    exact hms.run
  · rw [hproc]
    exact hms.blocks
  · simpa only [hstage] using hms.known
  · simpa only [hstage] using hms.request
  · simpa only [hstage, hproc] using h.bound
  · simpa only [hstage, hproc] using h.early
  · simpa only [hstage, hproc] using h.first

theorem setStage_registered {old new : Stage} (hold : s.stage hash = old)
    (ho : ∀ n, old ≠ .registered n) (hn : ∀ n, new ≠ .registered n) (a : H) (n : Nat) :
    (s.setStage hash new).stage a = .registered n ↔ s.stage a = .registered n := by
  by_cases ha : a = hash
  · subst ha
    simp [State.setStage, hold, ho n, hn n]
  · simp [State.setStage, ha]

theorem Inv.setStage {old new : Stage} (h : Inv validUntil s) (hold : s.stage hash = old)
    (ho : ∀ n, old ≠ .registered n) (hn : ∀ n, new ≠ .registered n) (hr : old ≠ .requested) :
    Inv validUntil (s.setStage hash new) := by
  refine h.aside rfl rfl (setStage_registered hold ho hn) (fun a ha => ?_) h.distinct
  have hreq := h.requested a ha
  have hne : a ≠ hash := by
    rintro rfl
    exact hr (hold.symm.trans hreq)
  simpa [State.setStage, hne] using hreq

theorem setStage_cases {a : H} {n : Nat}
    (ha : (s.setStage hash (.registered seen)).stage a = .registered n) :
    (a = hash ∧ n = seen) ∨ (a ≠ hash ∧ s.stage a = .registered n) := by
  by_cases he : a = hash
  · subst he
    simp only [State.setStage, Function.update_self, Stage.registered.injEq] at ha
    exact Or.inl ⟨rfl, ha.symm⟩
  · simp only [State.setStage, Function.update_of_ne he] at ha
    exact Or.inr ⟨he, ha⟩

theorem Traced.taken {ms : List (BlockMonitor.Event H)} {rest : List H} {m : BlockMonitor.State H}
    (h : Traced validUntil s ms) (hreq : s.stage hash = .requested)
    (hm : BlockMonitor.step s.monitor (.request hash (validUntil hash)) = some m) :
    Traced validUntil
      { s.setStage hash (.registered s.processed.length) with monitor := m, channel := rest }
      (ms ++ [.request hash (validUntil hash)]) := by
  have hnew : hash ∉ (registrations ms).map Prod.fst := by
    intro hmem
    obtain ⟨r, hr, rfl⟩ := List.mem_map.mp hmem
    obtain ⟨n, hn⟩ := h.known r hr
    rw [hreq] at hn
    cases hn
  refine ⟨?_, ?_, ?_, ?_, ?_, ?_⟩
  · exact Machine.run_snoc.mpr ⟨s.monitor, h.run, hm⟩
  · intro e he
    rcases List.mem_append.mp he with he | he
    · exact h.ordinary e he
    · rw [List.mem_singleton] at he
      subst he
      rfl
  · rw [BlockMonitor.finalizedBlocks_append, h.blocks]
    simp [finalizedBlocks, State.setStage]
  · rw [BlockMonitor.registrations_append, List.map_append]
    apply List.nodup_append.mpr ⟨h.once, by simp [registrations], ?_⟩
    intro a ha b hb
    have hb' : b = hash := by simpa [registrations] using hb
    rintro rfl
    exact hnew (hb' ▸ ha)
  · intro r hr
    rw [BlockMonitor.registrations_append] at hr
    by_cases he : r.1 = hash
    · exact ⟨s.processed.length, by simp [State.setStage, he]⟩
    · rcases List.mem_append.mp hr with hr | hr
      · obtain ⟨n, hn⟩ := h.known r hr
        exact ⟨n, by simpa [State.setStage, he] using hn⟩
      · have hr' : r = (hash, validUntil hash) := by simpa [registrations] using hr
        exact absurd (congrArg Prod.fst hr') he
  · intro a n ha
    rcases setStage_cases ha with ⟨rfl, rfl⟩ | ⟨_, ha⟩
    · exact ⟨ms, [], rfl, by rw [h.blocks, List.length_map]⟩
    · obtain ⟨before, after, rfl, hlen⟩ := h.request a n ha
      exact ⟨before, after ++ [.request hash (validUntil hash)], by simp, hlen⟩

theorem Inv.taken {rest : List H} {m : BlockMonitor.State H} (h : Inv validUntil s)
    (hch : s.channel = hash :: rest) (hok : ∀ p ∈ s.processed, ¬ p.Confirms hash)
    (hm : BlockMonitor.step s.monitor (.request hash (validUntil hash)) = some m) :
    Inv validUntil
      { s.setStage hash (.registered s.processed.length) with monitor := m, channel := rest } := by
  obtain ⟨ms, hms⟩ := h.traced
  have hreq : s.stage hash = .requested := h.requested hash (by simp [hch])
  have hdist := h.distinct
  rw [hch, List.nodup_cons] at hdist
  refine ⟨⟨_, hms.taken hreq hm⟩, ?_, hdist.2, ?_, ?_, ?_⟩
  · intro a ha
    have hne : a ≠ hash := by
      rintro rfl
      exact hdist.1 ha
    have hold := h.requested a (by rw [hch]; exact List.mem_cons_of_mem _ ha)
    simpa [State.setStage, hne] using hold
  · intro a n ha
    rcases setStage_cases ha with ⟨_, rfl⟩ | ⟨_, ha⟩
    · exact Nat.le_refl _
    · exact h.bound a n ha
  · intro a n ha p hp
    rcases setStage_cases ha with ⟨rfl, _⟩ | ⟨_, ha⟩
    · exact hok p (List.mem_of_mem_take hp)
    · exact h.early a n ha p hp
  · intro a n ha
    rcases setStage_cases ha with ⟨_, rfl⟩ | ⟨_, ha⟩
    · refine Or.inl fun p hp => ?_
      have hnil : s.processed.drop s.processed.length = [] := List.drop_length
      simp only [State.setStage, hnil] at hp
      cases hp
    · exact h.first a n ha

theorem Traced.processed {ms : List (BlockMonitor.Event H)} {p : Produced H}
    {rest : List (Produced H)} {order : List H} {m : BlockMonitor.State H}
    (h : Traced validUntil s ms)
    (hm : BlockMonitor.step s.monitor (.finalized p.block order) = some m) :
    Traced validUntil { s with monitor := m, stream := rest, processed := s.processed ++ [p] }
      (ms ++ [.finalized p.block order]) := by
  refine ⟨?_, ?_, ?_, ?_, ?_, ?_⟩
  · exact Machine.run_snoc.mpr ⟨s.monitor, h.run, hm⟩
  · intro e he
    rcases List.mem_append.mp he with he | he
    · exact h.ordinary e he
    · rw [List.mem_singleton] at he
      subst he
      rfl
  · rw [BlockMonitor.finalizedBlocks_append, h.blocks]
    simp [finalizedBlocks]
  · rw [BlockMonitor.registrations_append]
    simpa [registrations] using h.once
  · rw [BlockMonitor.registrations_append]
    simpa [registrations] using h.known
  · intro a n ha
    obtain ⟨before, after, rfl, hlen⟩ := h.request a n ha
    exact ⟨before, after ++ [.finalized p.block order], by simp, hlen⟩

theorem Inv.processed {p : Produced H} {rest : List (Produced H)} {order : List H}
    {m : BlockMonitor.State H} (h : Inv validUntil s)
    (hok : ∀ hash ∈ p.hashes, hash ∈ p.accepted → FirstConfirms validUntil s hash)
    (hm : BlockMonitor.step s.monitor (.finalized p.block order) = some m) :
    Inv validUntil { s with monitor := m, stream := rest, processed := s.processed ++ [p] } := by
  obtain ⟨ms, hms⟩ := h.traced
  refine ⟨⟨_, hms.processed hm⟩, h.requested, h.distinct, ?_, ?_, ?_⟩
  · intro a n ha
    rw [List.length_append]
    exact Nat.le_trans (h.bound a n ha) (Nat.le_add_right _ _)
  · intro a n ha q hq
    rw [List.take_append_of_le_length (h.bound a n ha)] at hq
    exact h.early a n ha q hq
  · intro a n ha
    rw [List.drop_append_of_le_length (h.bound a n ha)]
    rcases h.first a n ha with hnone | ⟨q, hfind, hq⟩
    · by_cases hp : p.Confirms a
      · -- no block before `p` confirms, so by the condition none has decided
        have hundecided : ((s.processed.drop n).find? fun q =>
            decides a (validUntil a) q.block) = none := by
          cases hd : (s.processed.drop n).find? fun q => decides a (validUntil a) q.block with
          | none => rfl
          | some q =>
              have hfirst := hok a hp.1 hp.2
              unfold FirstConfirms at hfirst
              rw [show s.stage a = .registered n from ha] at hfirst
              exact absurd (hfirst q hd) (hnone q (List.mem_of_find?_eq_some hd))
        refine Or.inr ⟨p, ?_, hp⟩
        rw [List.find?_append, hundecided]
        simp [decides, hp.1]
      · refine Or.inl fun q hq => ?_
        rcases List.mem_append.mp hq with hq | hq
        · exact hnone q hq
        · rw [List.mem_singleton.mp hq]
          exact hp
    · exact Or.inr ⟨q, by rw [List.find?_append, hfind]; rfl, hq⟩

theorem Inv.step (h : Inv validUntil s) (hok : WokenInTime validUntil s e)
    (hs : step validUntil s e = some s') : Inv validUntil s' := by
  cases e with
  | submit a =>
      simp only [Submission.step, Option.ite_none_right_eq_some, Option.some.injEq] at hs
      obtain ⟨hst, rfl⟩ := hs
      exact h.setStage hst (by simp) (by simp) (by simp)
  | accept a =>
      simp only [Submission.step, Option.ite_none_right_eq_some, Option.some.injEq] at hs
      obtain ⟨_, rfl⟩ := hs
      exact h.aside rfl rfl (fun _ _ => Iff.rfl) h.requested h.distinct
  | submitOk a =>
      simp only [Submission.step, Option.ite_none_right_eq_some, Option.some.injEq] at hs
      obtain ⟨⟨hst, _⟩, rfl⟩ := hs
      exact h.setStage hst (by simp) (by simp) (by simp)
  | put a =>
      simp only [Submission.step, Option.ite_none_right_eq_some, Option.some.injEq] at hs
      obtain ⟨⟨hst, _⟩, rfl⟩ := hs
      have hnew : a ∉ s.channel := by
        intro ha
        have hreq := h.requested a ha
        rw [hst] at hreq
        cases hreq
      refine h.aside rfl rfl (setStage_registered hst (by simp) (by simp)) ?_ ?_
      · intro b hb
        by_cases he : b = a
        · subst he
          simp [State.setStage]
        · have hb' : b ∈ s.channel := by simpa [he] using hb
          simpa [State.setStage, he] using h.requested b hb'
      · apply List.nodup_append.mpr ⟨h.distinct, by simp, ?_⟩
        intro b hb c hc
        rw [List.mem_singleton] at hc
        rintro rfl
        exact hnew (hc ▸ hb)
  | take =>
      cases hch : s.channel with
      | nil => simp [Submission.step, hch] at hs
      | cons a rest =>
          simp only [Submission.step, hch] at hs
          obtain ⟨m, hm, rfl⟩ := Option.map_eq_some_iff.mp hs
          exact h.taken hch (hok a (by simp [hch])) hm
  | produce n b hashes =>
      obtain ⟨⟩ := hs
      exact h.aside rfl rfl (fun _ _ => Iff.rfl) h.requested h.distinct
  | process order =>
      cases hst : s.stream with
      | nil => simp [Submission.step, hst] at hs
      | cons p rest =>
          simp only [Submission.step, hst] at hs
          obtain ⟨m, hm, rfl⟩ := Option.map_eq_some_iff.mp hs
          exact h.processed (hok p (by simp [hst])) hm
  | skip =>
      cases hst : s.stream with
      | nil => simp [Submission.step, hst] at hs
      | cons p rest =>
          simp only [Submission.step, hst] at hs
          obtain ⟨⟩ := hs
          exact h.aside rfl rfl (fun _ _ => Iff.rfl) h.requested h.distinct

theorem new_inv : Inv validUntil (new : State H) where
  traced := ⟨[], rfl, fun _ he => (by cases he), rfl, List.nodup_nil, fun _ hr => (by cases hr),
    fun _ _ hst => (by cases hst)⟩
  requested _ ha := by cases ha
  distinct := List.nodup_nil
  bound _ _ hst := by cases hst
  early _ _ hst := by cases hst
  first _ _ hst := by cases hst

theorem run_inv (hok : (machine H validUntil).Meets (fun _ => WokenInTime validUntil) [] new es)
    (h : (machine H validUntil).run new es = some s) : Inv validUntil s := by
  have hstep : ∀ (past : List (Event H)) (s : State H) e t, Inv validUntil s →
      WokenInTime validUntil s e → (machine H validUntil).step s e = some t → Inv validUntil t :=
    fun _ _ _ _ hinv hw hs => hinv.step hw hs
  exact Machine.Meets.invariant hstep new_inv hok h

/-! ## The wake-up -/

/-- The listener of a transaction is told what the blocks since its registration say. -/
theorem Traced.follows {ms : List (BlockMonitor.Event H)} (h : Traced validUntil s ms)
    (hreg : s.stage hash = .registered seen) :
    ∃ k, Follows hash (validUntil hash) k ((s.processed.drop seen).map Produced.block)
      s.monitor := by
  obtain ⟨before, after, rfl, hlen⟩ := h.request hash seen hreg
  have hrun := run_ordinary h.run h.ordinary
  have honce : ∀ r ∈ registrations before ++ registrations after, r.1 ≠ hash := by
    intro r hr he
    have hnodup := h.once
    rw [BlockMonitor.registrations_append] at hnodup
    have hmid := List.nodup_middle.mp (by simpa [registrations] using hnodup)
    rw [List.nodup_cons] at hmid
    apply hmid.1
    simpa [registrations] using List.mem_map.mpr ⟨r, hr, he⟩
  have hafter : finalizedBlocks after = (s.processed.drop seen).map Produced.block := by
    have hblocks := h.blocks
    rw [BlockMonitor.finalizedBlocks_append] at hblocks
    have hdrop := congrArg (List.drop seen) hblocks
    rw [← hlen, List.drop_left, ← List.map_drop, hlen] at hdrop
    simpa [finalizedBlocks] using hdrop
  rw [← hafter]
  exact ⟨_, run_follows h.run hrun honce⟩

/-- Under `WokenInTime`, once the monitor has taken the request of a transaction and processed a
block that confirms it, the listener has been told of such a block. -/
theorem listener_woken
    (hok : (machine H validUntil).Meets (fun _ => WokenInTime validUntil) [] new es)
    (h : (machine H validUntil).run new es = some s)
    (hreg : s.stage hash = .registered seen) (hconf : ∃ p ∈ s.processed, p.Confirms hash) :
    ∃ k, s.monitor.requests[k]? = some (hash, validUntil hash) ∧
      ∃ p ∈ s.processed, p.Confirms hash ∧ (s.monitor.channels k).sent = [.ok p.hash] := by
  have hinv := run_inv hok h
  obtain ⟨ms, hms⟩ := hinv.traced
  obtain ⟨k, hfollows⟩ := hms.follows hreg
  obtain ⟨q, hq, hqc⟩ := hconf
  have hlate : q ∈ s.processed.drop seen := by
    rw [← List.take_append_drop seen s.processed] at hq
    rcases List.mem_append.mp hq with hq | hq
    · exact absurd hqc (hinv.early hash seen hreg q hq)
    · exact hq
  rcases hinv.first hash seen hreg with hnone | ⟨p, hfind, hp⟩
  · exact absurd hqc (hnone q hlate)
  · have hmem : p ∈ s.processed := List.mem_of_mem_drop (List.mem_of_find?_eq_some hfind)
    have hdecided : ((s.processed.drop seen).map Produced.block).find?
        (decides hash (validUntil hash)) = some p.block := by
      have hcomp : decides hash (validUntil hash) ∘ Produced.block =
          fun q => decides hash (validUntil hash) q.block := rfl
      rw [List.find?_map, hcomp, hfind]
      rfl
    refine ⟨k, hfollows.request, p, hmem, hp, ?_⟩
    have hin : hash ∈ p.block.hashes := hp.1
    rw [(hfollows.answered p.block hdecided).2, verdict, if_pos hin]
    rfl

/-- The block is produced and processed between the acceptance and the request. -/
def lostEvents : List (Event Nat) :=
  [.submit 1, .accept 1, .produce 5 50 [1], .submitOk 1, .process [], .put 1, .take]

theorem wakeup_lost :
    ¬ (∀ (validUntil : Nat → Option BlockNumber) (es : List (Event Nat)) s,
      (machine Nat validUntil).run new es = some s → ∀ hash seen,
        s.stage hash = .registered seen → (∃ p ∈ s.processed, p.Confirms hash) →
          ∃ k, s.monitor.requests[k]? = some (hash, validUntil hash) ∧
            (s.monitor.channels k).sent ≠ []) := by
  intro h
  obtain ⟨k, hk, hsent⟩ := h (fun _ => none) lostEvents _ rfl 1 1 rfl
    ⟨⟨5, 50, [1], [1]⟩, by decide, by decide⟩
  cases k with
  | zero => exact hsent rfl
  | succ k => cases hk

def wokenEvents : List (Event Nat) :=
  [.submit 1, .accept 1, .produce 5 50 [1], .submitOk 1, .put 1, .take, .process []]

theorem listener_woken_once : ∃ s, (machine Nat fun _ => none).run new wokenEvents = some s ∧
    ∃ k, s.monitor.requests[k]? = some (1, none) ∧
      ∃ p ∈ s.processed, p.Confirms 1 ∧ (s.monitor.channels k).sent = [.ok p.hash] :=
  ⟨_, rfl, @listener_woken Nat _ (fun _ => none) _ wokenEvents 1 0 (by decide) rfl rfl
    ⟨⟨5, 50, [1], [1]⟩, by decide, by decide⟩⟩

end TxTestTool.Submission
