import TxTestTool.Monitor.Lemmas.Blocks

/-!
# One listener

What a listener should be told depends on its own transaction and on the blocks finalized after
its registration, and on nothing else. The monitor, whose two maps are shared by all listeners,
follows this for every transaction that is registered once.
-/

namespace TxTestTool.BlockMonitor

variable {H : Type*} [DecidableEq H]

def decides (hash : H) (validUntil : Option BlockNumber) (block : Block H) : Bool :=
  hash ∈ block.hashes ∨ validUntil = some block.number

def verdict (hash : H) (block : Block H) : Except Error H :=
  if hash ∈ block.hashes then .ok block.hash
  else .error (.mortalLifetimeSurpassed block.number)

/-- Listener `k` has been told what the blocks `bs` say, and no more. -/
structure Follows (hash : H) (validUntil : Option BlockNumber) (k : Nat) (bs : List (Block H))
    (s : State H) : Prop where
  request : s.requests[k]? = some (hash, validUntil)
  waiting : bs.find? (decides hash validUntil) = none →
    s.callbacks.lookup hash = some k ∧ (s.channels k).sent = [] ∧
      ∀ n, hash ∈ s.expiring n ↔ validUntil = some n
  answered : ∀ b, bs.find? (decides hash validUntil) = some b →
    s.callbacks.lookup hash = none ∧ (s.channels k).sent = [verdict hash b]
  opened : (s.channels k).closed = false

variable {hash : H} {validUntil : Option BlockNumber} {k : Nat} {bs : List (Block H)}
  {s s' : State H} {block : Block H}

theorem Follows.told (h : Follows hash validUntil k bs s) {bs' : List (Block H)}
    (hsent : (s.channels k).sent = [])
    (hfind : bs'.find? (decides hash validUntil) = some block)
    (hreq : s'.requests = s.requests) (hgone : s'.callbacks.lookup hash = none)
    (hch : s'.channels k = (s.channels k).send (verdict hash block)) :
    Follows hash validUntil k bs' s' where
  request := by rw [hreq, h.request]
  waiting hn := by rw [hfind] at hn; cases hn
  answered b hb := by
    rw [hfind, Option.some.injEq] at hb
    subst hb
    refine ⟨hgone, ?_⟩
    rw [hch]
    simp [Channel.send, hsent]
  opened := by rw [hch]; exact h.opened

theorem Follows.settled (h : Follows hash validUntil k bs s) (hw : s.Wired)
    (hset : Settled block s s') : Follows hash validUntil k (bs ++ [block]) s' := by
  have hreq : s'.requests[k]? = some (hash, validUntil) := by rw [hset.requests, h.request]
  have hone := hset.listener hw h.request
  cases hd : bs.find? (decides hash validUntil) with
  | some b =>
      obtain ⟨hgone, hsent⟩ := h.answered b hd
      have hsame : s'.channels k = s.channels k := by
        rcases hone with ⟨hk, _⟩ | ⟨hk, _⟩ | ⟨hsame, _⟩
        · rw [hgone] at hk; cases hk
        · rw [hgone] at hk; cases hk
        · exact hsame
      refine ⟨hreq, fun hn => ?_, fun b' hb' => ?_, hsame ▸ h.opened⟩
      · simp [List.find?_append, hd] at hn
      · have hb : b = b' := by simpa [List.find?_append, hd] using hb'
        rw [hset.callbacks, hgone, hsame, ← hb]
        exact ⟨by simp, hsent⟩
  | none =>
      obtain ⟨hk, hsent, hmark⟩ := h.waiting hd
      have hfind : (bs ++ [block]).find? (decides hash validUntil) =
          if decides hash validUntil block then some block else none := by
        rw [List.find?_append, hd]
        cases hdec : decides hash validUntil block <;> simp [hdec]
      rcases hone with ⟨_, hin, hch⟩ | ⟨_, hin, hexp, hch⟩ | ⟨hsame, hquiet⟩
      · have hdec : decides hash validUntil block = true := by simp [decides, hin]
        rw [hdec, if_pos rfl] at hfind
        refine h.told hsent hfind hset.requests ?_ ?_
        · rw [hset.callbacks, if_pos (Or.inl hin)]
        · rw [hch, verdict, if_pos hin]
      · have hu : validUntil = some block.number := (hmark _).mp hexp
        have hdec : decides hash validUntil block = true := by simp [decides, hu]
        rw [hdec, if_pos rfl] at hfind
        refine h.told hsent hfind hset.requests ?_ ?_
        · rw [hset.callbacks, if_pos (Or.inr hexp)]
        · rw [hch, verdict, if_neg hin]
      · -- the block says nothing about this transaction
        obtain ⟨hin, hexp⟩ := hquiet hk
        have hu : validUntil ≠ some block.number := fun he => hexp ((hmark _).mpr he)
        have hdec : decides hash validUntil block = false := by simp [decides, hin, hu]
        rw [hdec, if_neg (by simp)] at hfind
        refine ⟨hreq, fun _ => ⟨?_, ?_, fun n => ?_⟩, fun b hb => ?_, hsame ▸ h.opened⟩
        · rw [hset.callbacks, if_neg (by simp [hin, hexp]), hk]
        · rw [hsame, hsent]
        · rw [hset.mem_expiring, hmark n]
          refine ⟨fun hn => hn.2, fun hn => ⟨?_, hn⟩⟩
          rintro rfl
          exact hu hn
        · rw [hfind] at hb
          cases hb

theorem Follows.registered (h : Follows hash validUntil k bs s) (hw : s.Wired) {other : H} {u}
    (hne : other ≠ hash) : Follows hash validUntil k bs (s.register other u) := by
  have hreq : (s.register other u).requests[k]? = some (hash, validUntil) := by
    simp only [State.register]
    rw [List.getElem?_append_left (List.getElem?_eq_some_iff.mp h.request).1, h.request]
  have hlookup : (s.register other u).callbacks.lookup hash = s.callbacks.lookup hash := by
    simp only [State.register, AList.lookup_insert_eq, Ne.symm hne, ↓reduceIte]
  have hsame : (s.register other u).channels k = s.channels k := by
    rw [register_channels, if_neg]
    intro hk
    exact hne (hw.own h.request hk)
  refine ⟨hreq, fun hn => ?_, fun b hb => ?_, hsame ▸ h.opened⟩
  · obtain ⟨hk, hsent, hmark⟩ := h.waiting hn
    refine ⟨hlookup.trans hk, by rw [hsame, hsent], fun n => ?_⟩
    rw [mem_expiring_register, hmark n]
    simp [Ne.symm hne]
  · obtain ⟨hgone, hsent⟩ := h.answered b hb
    exact ⟨hlookup.trans hgone, by rw [hsame, hsent]⟩

theorem Follows.live {e : Event H} (h : Follows hash validUntil k bs s) (hw : s.Wired)
    (hl : Live s e s') (hne : ∀ u, e ≠ .request hash u) :
    Follows hash validUntil k (bs ++ finalizedBlocks [e]) s' := by
  cases hl with
  | finalized _ hset => exact h.settled hw hset
  | best => simpa [finalizedBlocks] using h
  | @request other u =>
      have hother : other ≠ hash := by
        rintro rfl
        exact hne u rfl
      simpa [finalizedBlocks] using h.registered hw hother
  | @dropReceiver j =>
      have hkeep := dropReceiver_channel s.channels j k
      rw [show finalizedBlocks [Event.dropReceiver j] = ([] : List (Block H)) from rfl,
        List.append_nil]
      refine ⟨h.request, fun hn => ?_, fun b hb => ?_, hkeep.2.trans h.opened⟩
      · obtain ⟨hk, hsent, hmark⟩ := h.waiting hn
        exact ⟨hk, hkeep.1.trans hsent, hmark⟩
      · obtain ⟨hgone, hsent⟩ := h.answered b hb
        exact ⟨hgone, hkeep.1.trans hsent⟩

end TxTestTool.BlockMonitor
