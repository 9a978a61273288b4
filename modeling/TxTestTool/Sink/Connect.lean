import TxTestTool.Machine.Attempts

/-!
# Connecting to a node

An attempt opens the websocket client and creates the `OnlineClient` on top of it. Only a failure
of the second is met by another attempt: the first is propagated with `?`.
-/

namespace TxTestTool

variable {C : Type*}

inductive Backend
  | legacy
  | chainHead
deriving DecidableEq, Repr

/-- What the calls of one attempt give. -/
structure ConnectAttempt (C : Type*) where
  client : Except String Unit
  fromBackend : Backend → Except String C

/-- The outcome of `connect`, with the number of attempts that were made. -/
structure Connection (C : Type*) where
  attempts : Nat
  result : Except String C

namespace Connection

def maxAttempts : Nat := 10

/-- The outer error is the one that leaves `connect`. -/
def maybeClient (useLegacyBackend : Bool) (a : ConnectAttempt C) :
    Except String (Except String C) :=
  if useLegacyBackend then a.client.map fun _ => a.fromBackend .legacy
  else a.client.map fun _ => a.fromBackend .chainHead

/-- What an attempt makes `connect` return, if it does not wait for the next one. -/
def returned (useLegacyBackend : Bool) (a : ConnectAttempt C) : Option (Except String C) :=
  match maybeClient useLegacyBackend a with
  | .error err => some (.error err)
  | .ok (.ok client) => some (.ok client)
  | .ok (.error _) => none

def failure (url : String) (n : Nat) : String :=
  "Failed to connect to " ++ url ++ " after " ++ n.repr ++ " attempts"

/-- `connect` with `n` for `MAX_ATTEMPTS`. -/
def connect (n : Nat) (url : String) (useLegacyBackend : Bool) (attempts : Nat → ConnectAttempt C) :
    Connection C :=
  match Attempts.first n fun i => returned useLegacyBackend (attempts i) with
  | some (i, result) => ⟨i + 1, result⟩
  | none => ⟨n, .error (failure url n)⟩

/-- The client that an attempt gives. -/
def connected (useLegacyBackend : Bool) (a : ConnectAttempt C) : Option C :=
  match maybeClient useLegacyBackend a with
  | .ok (.ok client) => some client
  | _ => none

/-- The first client of the first `n` attempts is returned, and an error only after all of them. -/
structure Persistent (n : Nat) (useLegacyBackend : Bool) (attempts : Nat → ConnectAttempt C)
    (c : Connection C) : Prop where
  ok : ∀ client, c.result = .ok client ↔
    ∃ i, Attempts.first n (fun i => connected useLegacyBackend (attempts i)) = some (i, client)
  error : ∀ err, c.result = .error err → c.attempts = n

variable {n : Nat} {url : String} {useLegacyBackend : Bool} {attempts : Nat → ConnectAttempt C}
  {a : ConnectAttempt C}

theorem maybeClient_error {err : String} :
    maybeClient useLegacyBackend a = .error err ↔ a.client = .error err := by
  cases useLegacyBackend <;> cases h : a.client <;> simp [maybeClient, h, Except.map]

theorem returned_ok {client : C} :
    returned useLegacyBackend a = some (.ok client) ↔
      connected useLegacyBackend a = some client := by
  unfold returned connected
  split <;> rename_i h <;> simp [h]

theorem returned_error {err : String} :
    returned useLegacyBackend a = some (.error err) ↔ a.client = .error err := by
  rw [← @maybeClient_error C useLegacyBackend a err]
  unfold returned
  split <;> rename_i h <;> simp [h]

theorem connected_of_going_on (h : returned useLegacyBackend a = none) :
    connected useLegacyBackend a = none ∧ a.client = .ok () := by
  constructor
  · rw [Option.eq_none_iff_forall_ne_some]
    intro client hc
    rw [returned_ok.mpr hc] at h
    cases h
  · cases hc : a.client with
    | ok => rfl
    | error err =>
        rw [returned_error.mpr hc] at h
        cases h

theorem open_of_going_on (h : returned useLegacyBackend a = none) :
    ¬ ∃ err, a.client = .error err := by
  rintro ⟨err, herr⟩
  rw [(connected_of_going_on h).2] at herr
  cases herr

theorem connected_of_lost {err : String} (h : returned useLegacyBackend a = some (.error err)) :
    connected useLegacyBackend a = none := by
  rw [Option.eq_none_iff_forall_ne_some]
  intro client hc
  rw [← returned_ok, h] at hc
  cases hc

/-! ## How the loop ends -/

theorem persistent_of_all (url : String)
    (hall : ∀ i < n, returned useLegacyBackend (attempts i) = none) :
    Persistent n useLegacyBackend attempts ⟨n, .error (failure url n)⟩ := by
  have hnone : Attempts.first n (fun i => connected useLegacyBackend (attempts i)) = none :=
    Attempts.first_eq_none_iff.mpr fun i hi => (connected_of_going_on (hall i hi)).1
  refine ⟨fun client => ?_, fun _ _ => rfl⟩
  simp [hnone]

theorem persistent_of_client {i : Nat} {client : C} (hi : i < n)
    (hclient : connected useLegacyBackend (attempts i) = some client)
    (hbefore : ∀ j < i, connected useLegacyBackend (attempts j) = none) :
    Persistent n useLegacyBackend attempts ⟨i + 1, .ok client⟩ := by
  have hfirst := Attempts.first_of_ends hi hclient hbefore
  refine ⟨fun c => ?_, fun err herr => by cases herr⟩
  simp [hfirst]

/-- An attempt that ends the loop with an error has to be the last. -/
theorem persistent_of_lost {i : Nat} {err : String}
    (hnone : ∀ j ≤ i, connected useLegacyBackend (attempts j) = none) :
    Persistent n useLegacyBackend attempts ⟨i + 1, .error err⟩ ↔ i + 1 = n := by
  constructor
  · intro h
    exact h.error err rfl
  · intro hlast
    have hall : Attempts.first n (fun j => connected useLegacyBackend (attempts j)) = none :=
      Attempts.first_eq_none_iff.mpr fun j hj => hnone j (by omega)
    refine ⟨fun client => ?_, fun _ _ => hlast⟩
    simp [hall]

/-- `connect` is as persistent as it should be exactly if every attempt whose websocket client
cannot be opened is the last one or comes after a client. -/
theorem connect_persistent_iff (n : Nat) (url : String) (useLegacyBackend : Bool)
    (attempts : Nat → ConnectAttempt C) :
    Persistent n useLegacyBackend attempts (connect n url useLegacyBackend attempts) ↔
      ∀ i < n, (∃ err, (attempts i).client = .error err) →
        i + 1 = n ∨ ∃ j < i, (connected useLegacyBackend (attempts j)).isSome := by
  unfold connect
  cases hfirst : Attempts.first n fun i => returned useLegacyBackend (attempts i) with
  | none =>
      have hall := Attempts.first_eq_none_iff.mp hfirst
      refine ⟨fun _ i hi hlost => ?_, fun _ => persistent_of_all url hall⟩
      exact absurd hlost (open_of_going_on (hall i hi))
  | some found =>
      obtain ⟨i, result⟩ := found
      obtain ⟨hi, hresult, hbefore⟩ := Attempts.first_spec hfirst
      have hconnected : ∀ j < i, connected useLegacyBackend (attempts j) = none :=
        fun j hj => (connected_of_going_on (hbefore j hj)).1
      cases result with
      | ok client =>
          have hclient := returned_ok.mp hresult
          refine ⟨fun _ j hj hlost => Or.inr ⟨i, ?_, by simp [hclient]⟩,
            fun _ => persistent_of_client hi hclient hconnected⟩
          -- every attempt up to this one has opened its websocket client
          by_contra hle
          rcases Nat.lt_or_eq_of_le (Nat.le_of_not_lt hle) with hlt | rfl
          · exact open_of_going_on (hbefore j hlt) hlost
          · obtain ⟨err, herr⟩ := hlost
            rw [returned_error.mpr herr] at hresult
            cases hresult
      | error err =>
          have hlost := returned_error.mp hresult
          have hnone : ∀ j ≤ i, connected useLegacyBackend (attempts j) = none := by
            intro j hj
            rcases Nat.lt_or_eq_of_le hj with hlt | rfl
            · exact hconnected j hlt
            · exact connected_of_lost hresult
          rw [persistent_of_lost hnone]
          constructor
          · intro hlast j hj hj'
            rcases Nat.lt_or_eq_of_le (Nat.le_of_lt_succ (hlast ▸ hj)) with hlt | rfl
            · exact absurd hj' (open_of_going_on (hbefore j hlt))
            · exact Or.inl hlast
          · intro h
            rcases h i hi ⟨err, hlost⟩ with hlast | ⟨j, hj, hsome⟩
            · exact hlast
            · rw [hconnected j hj] at hsome
              cases hsome

/-- The node refuses the first websocket and accepts the second. -/
def lateNode (i : Nat) : ConnectAttempt Nat where
  client := if i = 0 then .error "connection refused" else .ok ()
  fromBackend _ := .ok i

theorem refused_websocket_ends_connect :
    ¬ (∀ (n : Nat) (url : String) (useLegacyBackend : Bool) (attempts : Nat → ConnectAttempt Nat),
      Persistent n useLegacyBackend attempts (connect n url useLegacyBackend attempts)) ∧
    connect maxAttempts "ws://127.0.0.1:9944" false lateNode =
      ⟨1, .error "connection refused"⟩ := by
  refine ⟨fun h => ?_, rfl⟩
  have hmade := (h maxAttempts "ws://127.0.0.1:9944" false lateNode).error _ rfl
  revert hmade
  decide

end Connection

end TxTestTool
