import TxTestTool.Codec.Hex
import TxTestTool.Machine.AssocList
import TxTestTool.Machine.Run
import TxTestTool.Machine.Unsigned

/-!
# Concurrent calls of `check_account_nonce`

A call is cut where it gives up a lock: it looks the account up under the read lock, fetches the
nonce from the node when there is none, and updates the map under the write lock.
-/

namespace TxTestTool

abbrev AccountId := List UInt8

namespace Nonces

/-- The calls for one account are numbered in any way. -/
structure Call where
  account : AccountId
  number : Nat
deriving DecidableEq, Repr

def Call.key (c : Call) : String := Hex.encode c.account

inductive Point
  | fetching
  | holding (remote : Nat)
  | returned (nonce : Nat)
  | failed (message : String)
  /-- `*nonce += 1` has overflown in a build that checks it. -/
  | panicked
deriving DecidableEq, Repr

structure State where
  nonces : AList fun _ : String => Nat
  calls : AList fun _ : Call => Point
  /-- History: the calls that have returned a nonce, in the order of their writes. -/
  writes : List (Call × Nat)

inductive Input
  | lookup (c : Call)
  | fetched (c : Call) (r : Except String Nat)
  | write (c : Call)
deriving DecidableEq, Repr

def Input.call : Input → Call
  | .lookup c | .fetched c _ | .write c => c

def new : State := ⟨∅, ∅, []⟩

namespace State

def lookup (s : State) (c : Call) : State :=
  { s with
    calls := s.calls.insert c
      (match s.nonces.lookup c.key with
      | some nonce => .holding nonce
      | none => .fetching) }

def fetched (s : State) (c : Call) (r : Except String Nat) : State :=
  { s with
    calls := s.calls.insert c
      (match r with
      | .ok remote => .holding remote
      | .error e => .failed e) }

def ret (s : State) (c : Call) (nonce : Nat) : State where
  nonces := s.nonces.insert c.key nonce
  calls := s.calls.insert c (.returned nonce)
  writes := s.writes ++ [(c, nonce)]

def write (overflowChecks : Bool) (s : State) (c : Call) (remote : Nat) : State :=
  match s.nonces.lookup c.key with
  | some nonce =>
      match Unsigned.fit 128 overflowChecks (nonce + 1) with
      | some next => s.ret c next
      | none => { s with calls := s.calls.insert c .panicked }
  | none => s.ret c remote

end State

/-- The nonce that the node reports is an `u128`. -/
def step (overflowChecks : Bool) (s : State) : Input → Option State
  | .lookup c => if c ∈ s.calls then none else some (s.lookup c)
  | .fetched c r =>
      if s.calls.lookup c = some .fetching ∧ ∀ remote ∈ r.toOption, remote < 2 ^ 128 then
        some (s.fetched c r)
      else none
  | .write c =>
      match s.calls.lookup c with
      | some (.holding remote) => some (s.write overflowChecks c remote)
      | _ => none

def machine (overflowChecks : Bool) : Machine State Input := ⟨step overflowChecks⟩

/-- The successful calls for an account, in the order of their writes. -/
def State.writesOf (s : State) (a : AccountId) : List (Call × Nat) :=
  s.writes.filter (·.1.account = a)

variable {overflowChecks : Bool} {is past : List Input} {s s' : State} {i : Input} {a : AccountId}
  {c : Call}

/-! ## What a step can do -/

inductive Trans (overflowChecks : Bool) (s : State) : Input → State → Prop
  | found {c : Call} {nonce} (hc : c ∉ s.calls) (hn : s.nonces.lookup c.key = some nonce) :
      Trans overflowChecks s (.lookup c) { s with calls := s.calls.insert c (.holding nonce) }
  | unset {c : Call} (hc : c ∉ s.calls) (hn : s.nonces.lookup c.key = none) :
      Trans overflowChecks s (.lookup c) { s with calls := s.calls.insert c .fetching }
  | fetch {c : Call} {remote} (hc : s.calls.lookup c = some .fetching) (hr : remote < 2 ^ 128) :
      Trans overflowChecks s (.fetched c (.ok remote))
        { s with calls := s.calls.insert c (.holding remote) }
  | fail {c : Call} {e} (hc : s.calls.lookup c = some .fetching) :
      Trans overflowChecks s (.fetched c (.error e))
        { s with calls := s.calls.insert c (.failed e) }
  | first {c : Call} {remote} (hc : s.calls.lookup c = some (.holding remote))
      (hn : s.nonces.lookup c.key = none) :
      Trans overflowChecks s (.write c) (s.ret c remote)
  | next {c : Call} {remote nonce next} (hc : s.calls.lookup c = some (.holding remote))
      (hn : s.nonces.lookup c.key = some nonce)
      (hf : Unsigned.fit 128 overflowChecks (nonce + 1) = some next) :
      Trans overflowChecks s (.write c) (s.ret c next)
  | panic {c : Call} {remote nonce} (hc : s.calls.lookup c = some (.holding remote))
      (hn : s.nonces.lookup c.key = some nonce)
      (hf : Unsigned.fit 128 overflowChecks (nonce + 1) = none) :
      Trans overflowChecks s (.write c) { s with calls := s.calls.insert c .panicked }

theorem step_trans (h : step overflowChecks s i = some s') : Trans overflowChecks s i s' := by
  cases i with
  | lookup c =>
      simp only [step, Option.ite_none_left_eq_some, Option.some.injEq] at h
      obtain ⟨hc, rfl⟩ := h
      cases hn : s.nonces.lookup c.key with
      | none => simpa [State.lookup, hn] using Trans.unset hc hn
      | some nonce => simpa [State.lookup, hn] using Trans.found hc hn
  | fetched c r =>
      simp only [step, Option.ite_none_right_eq_some, Option.some.injEq] at h
      obtain ⟨⟨hc, hr⟩, rfl⟩ := h
      cases r with
      | error e => exact .fail hc
      | ok remote => exact .fetch hc (hr remote rfl)
  | write c =>
      simp only [step] at h
      split at h
      · rename_i remote hc
        simp only [Option.some.injEq] at h
        subst h
        unfold State.write
        cases hn : s.nonces.lookup c.key with
        | none => exact .first hc hn
        | some nonce =>
            cases hf : Unsigned.fit 128 overflowChecks (nonce + 1) with
            | none => simpa [hf] using Trans.panic hc hn hf
            | some next => simpa [hf] using Trans.next hc hn hf
      · cases h

/-! ## The nonces that one account hands out -/

/-- Consecutive values of `u128` from `r` on. -/
def consecutive (r k : Nat) : List Nat := (List.range k).map fun i => (r + i) % 2 ^ 128

theorem consecutive_succ (r k : Nat) :
    consecutive r (k + 1) = consecutive r k ++ [(r + k) % 2 ^ 128] := by
  simp [consecutive, List.range_succ]

theorem consecutive_of_le {r k : Nat} (h : r + k ≤ 2 ^ 128) :
    consecutive r k = (List.range k).map (r + ·) := by
  apply List.map_congr_left
  intro i hi
  have hlt := List.mem_range.mp hi
  exact Nat.mod_eq_of_lt (by omega)

/-- The successful calls `ws` for one account, when `last` is the entry of the map. -/
structure Sequential (overflowChecks : Bool) (past : List Input) (ws : List (Call × Nat))
    (last : Option Nat) : Prop where
  entry : last = (ws.map (·.2)).getLast?
  counted : ∀ first ∈ ws.head?, ∃ r, .fetched first.1 (.ok r) ∈ past ∧
    ws.map (·.2) = consecutive r ws.length ∧ (overflowChecks = true → r + ws.length ≤ 2 ^ 128)

theorem Sequential.more {ws : List (Call × Nat)} {last : Option Nat}
    (h : Sequential overflowChecks past ws last) : Sequential overflowChecks (past ++ [i]) ws last where
  entry := h.entry
  counted first hf := by
    obtain ⟨r, hr, hrest⟩ := h.counted first hf
    exact ⟨r, List.mem_append_left _ hr, hrest⟩

theorem Sequential.first {remote : Nat} (hc : .fetched c (.ok remote) ∈ past)
    (hr : remote < 2 ^ 128) :
    Sequential overflowChecks past [(c, remote)] (some remote) where
  entry := rfl
  counted first hf := by
    simp only [List.head?_cons, Option.mem_some] at hf
    subst hf
    have hone : [(c, remote)].map (·.2) = consecutive remote 1 := by
      simp only [consecutive, List.map_cons, List.map_nil, List.range_one, Nat.add_zero,
        Nat.mod_eq_of_lt hr]
    exact ⟨remote, hc, hone, fun _ => hr⟩

theorem Sequential.next {ws : List (Call × Nat)} {nonce next : Nat}
    (h : Sequential overflowChecks past ws (some nonce))
    (hf : Unsigned.fit 128 overflowChecks (nonce + 1) = some next) :
    Sequential overflowChecks past (ws ++ [(c, next)]) (some next) where
  entry := by simp
  counted first hfirst := by
    cases ws with
    | nil => cases h.entry
    | cons w ws =>
        obtain ⟨r, hr, hmap, hle⟩ := h.counted w rfl
        have hw : w = first := by simpa using hfirst
        subst hw
        have hlast : nonce = (r + ws.length) % 2 ^ 128 := by
          have hentry := h.entry
          rw [hmap, List.length_cons, consecutive_succ, List.getLast?_append] at hentry
          simpa using hentry
        rw [hlast] at hf
        have hnext : next = (r + (ws.length + 1)) % 2 ^ 128 := Unsigned.fit_succ_mod hf
        refine ⟨r, hr, ?_, fun hchecks => ?_⟩
        · rw [List.map_append, hmap, List.length_append, List.length_singleton, consecutive_succ]
          simp [hnext]
        · have hle := hle hchecks
          rw [hchecks] at hf
          have hlt := (Unsigned.fit_true_eq_some_iff.mp hf).2
          simp only [List.length_cons, List.length_append, List.length_nil] at hle ⊢
          omega

/-! ## The invariant -/

structure Inv (overflowChecks : Bool) (past : List Input) (s : State) : Prop where
  sequential : ∀ a, Sequential overflowChecks past (s.writesOf a) (s.nonces.lookup (Hex.encode a))
  /-- A call that is about to write first has fetched what it holds. -/
  fresh : ∀ c remote, s.calls.lookup c = some (.holding remote) → s.nonces.lookup c.key = none →
    .fetched c (.ok remote) ∈ past ∧ remote < 2 ^ 128
  results : ∀ c n, s.calls.lookup c = some (.returned n) ↔ (c, n) ∈ s.writes
  once : (s.writes.map (·.1)).Nodup

theorem lookup_ret_nonces {n : Nat} :
    (s.ret c n).nonces.lookup (Hex.encode a) =
      if a = c.account then some n else s.nonces.lookup (Hex.encode a) := by
  simp only [State.ret, Call.key, AList.lookup_insert_eq, Hex.encode_injective.eq_iff]

theorem writesOf_ret {n : Nat} :
    (s.ret c n).writesOf a = s.writesOf a ++ if a = c.account then [(c, n)] else [] := by
  by_cases h : c.account = a
  · simp [State.ret, State.writesOf, h]
  · simp [State.ret, State.writesOf, h, Ne.symm h]

theorem Inv.point {p : Point} (h : Inv overflowChecks past s)
    (hold : ∀ n, s.calls.lookup c ≠ some (.returned n)) (hp : ∀ n, p ≠ .returned n)
    (hfresh : ∀ remote, p = .holding remote → s.nonces.lookup c.key = none →
      .fetched c (.ok remote) ∈ past ++ [i] ∧ remote < 2 ^ 128) :
    Inv overflowChecks (past ++ [i]) { s with calls := s.calls.insert c p } where
  sequential a := (h.sequential a).more
  fresh d remote hd hn := by
    simp only [AList.lookup_insert_eq] at hd
    split at hd
    · rename_i heq
      subst heq
      exact hfresh remote (Option.some.inj hd) hn
    · obtain ⟨hmem, hlt⟩ := h.fresh d remote hd hn
      exact ⟨List.mem_append_left _ hmem, hlt⟩
  results d n := by
    rw [← h.results d n]
    simp only [AList.lookup_insert_eq]
    split
    · rename_i heq
      subst heq
      simp [hp n, hold n]
    · rfl
  once := h.once

theorem Inv.ret {remote n : Nat} (h : Inv overflowChecks past s)
    (hc : s.calls.lookup c = some (.holding remote))
    (hseq : Sequential overflowChecks past (s.writesOf c.account ++ [(c, n)]) (some n)) :
    Inv overflowChecks (past ++ [i]) (s.ret c n) where
  sequential a := by
    rw [lookup_ret_nonces, writesOf_ret]
    split
    · rename_i heq
      exact heq ▸ hseq.more
    · simpa using (h.sequential a).more
  fresh d remote' hd hn := by
    simp only [State.ret, AList.lookup_insert_eq] at hd hn
    split at hd
    · cases hd
    · split at hn
      · cases hn
      · obtain ⟨hmem, hlt⟩ := h.fresh d remote' hd hn
        exact ⟨List.mem_append_left _ hmem, hlt⟩
  results d m := by
    have hnot : ∀ k, (c, k) ∉ s.writes := by
      intro k hk
      rw [← h.results, hc] at hk
      cases hk
    simp only [State.ret, AList.lookup_insert_eq, List.mem_append, List.mem_singleton,
      Prod.mk.injEq, ← h.results]
    split
    · rename_i heq
      subst heq
      have hgone : s.calls.lookup d ≠ some (.returned m) := by simp [hc]
      simp [hgone, eq_comm]
    · rename_i hne
      simp [hne]
  once := by
    simp only [State.ret, List.map_append, List.map_cons, List.map_nil]
    refine List.nodup_append.mpr ⟨h.once, List.nodup_singleton _, ?_⟩
    rintro d hd e he rfl
    rw [List.mem_singleton.mp he] at hd
    obtain ⟨⟨e, k⟩, hk, rfl⟩ := List.mem_map.mp hd
    rw [← h.results, hc] at hk
    cases hk

theorem Trans.inv (hs : Trans overflowChecks s i s') (h : Inv overflowChecks past s) :
    Inv overflowChecks (past ++ [i]) s' := by
  cases hs with
  | found hc hn =>
      apply h.point (by simp [AList.lookup_eq_none.mpr hc]) (by simp)
      intro _ _ hnone
      rw [hn] at hnone
      cases hnone
  | unset hc =>
      exact h.point (by simp [AList.lookup_eq_none.mpr hc]) (by simp) (by simp)
  | @fetch c remote hc hr =>
      apply h.point (by simp [hc]) (by simp)
      rintro _ ⟨⟩ _
      exact ⟨by simp, hr⟩
  | fail hc => exact h.point (by simp [hc]) (by simp) (by simp)
  | @first c remote hc hn =>
      apply h.ret hc
      obtain ⟨hmem, hlt⟩ := h.fresh c remote hc hn
      have hempty : s.writesOf c.account = [] := by
        have hentry := (h.sequential c.account).entry
        rw [show s.nonces.lookup (Hex.encode c.account) = none from hn] at hentry
        simpa using hentry.symm
      rw [hempty]
      exact Sequential.first hmem hlt
  | @next c remote nonce next hc hn hf =>
      apply h.ret hc
      have hseq := h.sequential c.account
      rw [show s.nonces.lookup (Hex.encode c.account) = some nonce from hn] at hseq
      exact hseq.next hf
  | panic hc => exact h.point (by simp [hc]) (by simp) (by simp)

theorem new_inv : Inv overflowChecks [] new where
  sequential _ := ⟨rfl, fun _ hf => by cases hf⟩
  fresh _ _ hc := by cases hc
  results _ _ := by simp [new]
  once := List.nodup_nil

theorem run_inv (h : (machine overflowChecks).run new is = some s) : Inv overflowChecks is s :=
  Machine.run_history_invariant (fun _ _ _ _ hi hs => (step_trans hs).inv hi) new_inv h

/-! ## Failed calls -/

def Point.ended : Point → Bool
  | .fetching | .holding _ => false
  | _ => true

theorem Trans.stays {p : Point} (hs : Trans overflowChecks s i s') (hp : p.ended = true)
    (hc : s.calls.lookup c = some p) : s'.calls.lookup c = some p := by
  have hkeep : ∀ {d : Call} {q : Point}, s.calls.lookup d ≠ some p →
      (s.calls.insert d q).lookup c = some p := by
    intro d q hd
    rw [AList.lookup_insert_eq, if_neg, hc]
    rintro rfl
    exact hd hc
  have hopen : ∀ {d : Call} {q : Point}, s.calls.lookup d = some q → q.ended = false →
      s.calls.lookup d ≠ some p := by
    intro d q hd hq he
    rw [hd, Option.some.injEq] at he
    rw [he, hp] at hq
    cases hq
  cases hs with
  | found hd | unset hd => exact hkeep (by simp [AList.lookup_eq_none.mpr hd])
  | fetch hd | fail hd | first hd | next hd | panic hd => exact hkeep (hopen hd rfl)

theorem run_stays {p : Point} (hp : p.ended = true) (hc : s.calls.lookup c = some p)
    (h : (machine overflowChecks).run s is = some s') : s'.calls.lookup c = some p := by
  have hstep : ∀ u i v, u.calls.lookup c = some p → (machine overflowChecks).step u i = some v →
      v.calls.lookup c = some p := fun _ _ _ hu hs => (step_trans hs).stays hp hu
  exact Machine.run_invariant hstep hc h

/-- Only a step that returns a nonce changes the map. -/
theorem Trans.nonces_eq (hs : Trans overflowChecks s i s') :
    s'.nonces = s.nonces ∨ ∃ n, s'.calls.lookup i.call = some (.returned n) := by
  cases hs with
  | first | next => exact Or.inr ⟨_, AList.lookup_insert _⟩
  | _ => exact Or.inl rfl

theorem run_failed {after : List Input} {e : String} {t u : State}
    (hu : (machine overflowChecks).step t i = some u)
    (hs : (machine overflowChecks).run u after = some s)
    (hfail : s.calls.lookup i.call = some (.failed e)) : u.nonces = t.nonces := by
  rcases (step_trans hu).nonces_eq with hsame | ⟨n, hn⟩
  · exact hsame
  · have hstays := run_stays rfl hn hs
    rw [hfail] at hstays
    cases hstays

/-! ## One account among others -/

/-- The two states say the same about account `a`. -/
structure Agree (a : AccountId) (s t : State) : Prop where
  calls : ∀ n, t.calls.lookup ⟨a, n⟩ = s.calls.lookup ⟨a, n⟩
  nonce : t.nonces.lookup (Hex.encode a) = s.nonces.lookup (Hex.encode a)
  writes : t.writesOf a = s.writesOf a

theorem Agree.insert {t : State} {p : Point} (h : Agree a s t) :
    Agree a { s with calls := s.calls.insert c p } { t with calls := t.calls.insert c p } where
  calls n := by simp only [AList.lookup_insert_eq, h.calls n]
  nonce := h.nonce
  writes := h.writes

theorem Agree.insert_other {t : State} {p : Point} (h : Agree a s t) (hc : c.account ≠ a) :
    Agree a { s with calls := s.calls.insert c p } t where
  calls n := by
    have hne : (⟨a, n⟩ : Call) ≠ c := by
      rintro rfl
      exact hc rfl
    simp only [AList.lookup_insert_eq, hne, ↓reduceIte, h.calls n]
  nonce := h.nonce
  writes := h.writes

theorem Agree.ret {t : State} {n : Nat} (h : Agree a s t) : Agree a (s.ret c n) (t.ret c n) where
  calls := h.insert.calls
  nonce := by rw [lookup_ret_nonces, lookup_ret_nonces, h.nonce]
  writes := by rw [writesOf_ret, writesOf_ret, h.writes]

theorem Agree.ret_other {t : State} {n : Nat} (h : Agree a s t) (hc : c.account ≠ a) :
    Agree a (s.ret c n) t where
  calls := (h.insert_other hc).calls
  nonce := by rw [lookup_ret_nonces, if_neg (Ne.symm hc), h.nonce]
  writes := by rw [writesOf_ret, if_neg (Ne.symm hc), h.writes, List.append_nil]

theorem Trans.step (hs : Trans overflowChecks s i s') : step overflowChecks s i = some s' := by
  cases hs with
  | found hc hn => simp [Nonces.step, hc, State.lookup, hn]
  | unset hc hn => simp [Nonces.step, hc, State.lookup, hn]
  | fetch hc hr => simpa [Nonces.step, hc, State.fetched, Except.toOption] using hr
  | fail hc => simp [Nonces.step, hc, State.fetched, Except.toOption]
  | first hc hn => simp [Nonces.step, hc, State.write, hn]
  | next hc hn hf => simp [Nonces.step, hc, State.write, hn, hf]
  | panic hc hn hf => simp [Nonces.step, hc, State.write, hn, hf]

theorem Agree.keep {t : State} (h : Agree a s t) (hi : i.call.account = a)
    (hs : Trans overflowChecks s i s') : ∃ t', step overflowChecks t i = some t' ∧ Agree a s' t' := by
  have hcall : t.calls.lookup i.call = s.calls.lookup i.call := by
    subst hi
    exact h.calls i.call.number
  have hnonce : t.nonces.lookup i.call.key = s.nonces.lookup i.call.key := by
    subst hi
    exact h.nonce
  cases hs with
  | found hc hn =>
      have hc' := AList.lookup_eq_none.mp (hcall.trans (AList.lookup_eq_none.mpr hc))
      exact ⟨_, (Trans.found hc' (hnonce.trans hn)).step, h.insert⟩
  | unset hc hn =>
      have hc' := AList.lookup_eq_none.mp (hcall.trans (AList.lookup_eq_none.mpr hc))
      exact ⟨_, (Trans.unset hc' (hnonce.trans hn)).step, h.insert⟩
  | fetch hc hr => exact ⟨_, (Trans.fetch (hcall.trans hc) hr).step, h.insert⟩
  | fail hc => exact ⟨_, (Trans.fail (hcall.trans hc)).step, h.insert⟩
  | first hc hn => exact ⟨_, (Trans.first (hcall.trans hc) (hnonce.trans hn)).step, h.ret⟩
  | next hc hn hf => exact ⟨_, (Trans.next (hcall.trans hc) (hnonce.trans hn) hf).step, h.ret⟩
  | panic hc hn hf => exact ⟨_, (Trans.panic (hcall.trans hc) (hnonce.trans hn) hf).step, h.insert⟩

theorem Agree.skip {t : State} (h : Agree a s t) (hi : i.call.account ≠ a)
    (hs : Trans overflowChecks s i s') : Agree a s' t := by
  cases hs with
  | first | next => exact h.ret_other hi
  | _ => exact h.insert_other hi

theorem run_alone (a : AccountId) (h : (machine overflowChecks).run new is = some s) :
    ∃ t, (machine overflowChecks).run new (is.filter (·.call.account = a)) = some t ∧
      Agree a s t := by
  apply Machine.run_project _ _ (R := Agree a) ⟨fun _ => rfl, rfl, rfl⟩ h
  · intro s t i u hst hi hu
    exact hst.keep (of_decide_eq_true hi) (step_trans hu)
  · intro s t i u hst hi hu
    exact hst.skip (of_decide_eq_false hi) (step_trans hu)

/-- The successful calls for an account return consecutive nonces from the one that the first
writer has fetched, modulo `u128` in a build that does not check overflows. A call that fails
never touches the map, and the calls for one account go as if there were no others. -/
theorem nonces_consecutive (h : (machine overflowChecks).run new is = some s) :
    ((s.writes.map (·.1)).Nodup ∧
      (∀ c n, s.calls.lookup c = some (.returned n) ↔ (c, n) ∈ s.writes) ∧
      ∀ a, ∀ first ∈ (s.writesOf a).head?, ∃ r, .fetched first.1 (.ok r) ∈ is ∧
        (s.writesOf a).map (·.2) =
          (List.range (s.writesOf a).length).map (fun i => (r + i) % 2 ^ 128) ∧
        (overflowChecks = true ∨ r + (s.writesOf a).length ≤ 2 ^ 128 →
          (s.writesOf a).map (·.2) = (List.range (s.writesOf a).length).map (r + ·))) ∧
    (∀ before i after t u e, is = before ++ i :: after →
      (machine overflowChecks).run new before = some t →
      (machine overflowChecks).step t i = some u → s.calls.lookup i.call = some (.failed e) →
        u.nonces = t.nonces) ∧
    ∀ a, ∃ t, (machine overflowChecks).run new (is.filter (·.call.account = a)) = some t ∧
      Agree a s t := by
  have hinv := run_inv h
  refine ⟨⟨hinv.once, hinv.results, fun a first hf => ?_⟩, ?_, fun a => run_alone a h⟩
  · obtain ⟨r, hr, hmap, hle⟩ := (hinv.sequential a).counted first hf
    refine ⟨r, hr, hmap, fun hexact => ?_⟩
    rw [hmap]
    exact consecutive_of_le (hexact.elim hle id)
  · rintro before i after t u e rfl ht hu hfail
    obtain ⟨t', ht', hrun⟩ := Machine.run_append.mp h
    rw [ht, Option.some.injEq] at ht'
    subst ht'
    obtain ⟨u', hu', hrun⟩ := Machine.run_cons.mp hrun
    rw [hu, Option.some.injEq] at hu'
    subst hu'
    exact run_failed hu hrun hfail

/-- Two calls for an account whose nonce is `u128::MAX`. -/
def lastNonces : List Input :=
  [.lookup ⟨[1], 0⟩, .fetched ⟨[1], 0⟩ (.ok (2 ^ 128 - 1)), .write ⟨[1], 0⟩, .lookup ⟨[1], 1⟩,
    .write ⟨[1], 1⟩]

theorem nonces_wrap :
    ¬ (∀ overflowChecks is s, (machine overflowChecks).run new is = some s → ∀ a, ∃ r,
      (s.writesOf a).map (·.2) = (List.range (s.writesOf a).length).map (r + ·)) ∧
    ((machine false).run new lastNonces).map (·.writes.map (·.2)) = some [2 ^ 128 - 1, 0] := by
  refine ⟨fun h => ?_, by decide⟩
  obtain ⟨r, hr⟩ := h false lastNonces _ rfl [1]
  have htwo : [2 ^ 128 - 1, 0] = [r + 0, r + 1] := hr
  simp at htwo

/-- Two calls that both saw no entry, and a failed one for another account. -/
def racingCalls : List Input :=
  [.lookup ⟨[1], 0⟩, .lookup ⟨[1], 1⟩, .lookup ⟨[2], 0⟩, .fetched ⟨[1], 1⟩ (.ok 7),
    .fetched ⟨[2], 0⟩ (.error "closed"), .fetched ⟨[1], 0⟩ (.ok 9), .write ⟨[1], 1⟩,
    .write ⟨[1], 0⟩]

theorem nonces_consecutive_racing : ∃ s, (machine true).run new racingCalls = some s ∧
    ∃ r, .fetched ⟨[1], 1⟩ (.ok r) ∈ racingCalls ∧
      (s.writesOf [1]).map (·.2) = (List.range 2).map (r + ·) := by
  obtain ⟨r, hr, _, hmap⟩ := (@nonces_consecutive true racingCalls _ rfl).1.2.2 [1] _ rfl
  exact ⟨_, rfl, r, hr, hmap (Or.inl rfl)⟩

end Nonces

end TxTestTool
