import TxTestTool.Machine.Attempts
import TxTestTool.Machine.Results
import TxTestTool.Sink.Mortality

/-!
# Creating a mortal transaction against a node that fails

Every attempt asks the node three times. Only the first answer is met by another attempt: the other
two are unwrapped with `expect`.
-/

namespace TxTestTool

variable {H : Type*}

/-- What the calls of one attempt give. `create_partial` sees a last finalized block, and the block
that is fetched afterwards has a number. -/
structure OnlineAttempt where
  createPartial : Option BlockNumber
  latestFinalizedBlockRef : Bool
  blockAt : Option BlockNumber
deriving DecidableEq, Repr

namespace OnlineAttempt

/-- The number of the block that `subxt_transaction` fetches. -/
def latest (a : OnlineAttempt) : Option BlockNumber :=
  if a.latestFinalizedBlockRef then a.blockAt else none

/-- The answers of an attempt all of whose calls succeed. -/
def complete (a : OnlineAttempt) : Option (BlockNumber × BlockNumber) :=
  a.createPartial.bind fun current => a.latest.map fun number => (current, number)

end OnlineAttempt

namespace SubxtTransaction

/-- `hash` is the hash of the transaction that is signed with an era. `none` is a panic. -/
def createOnlineWithAttempts (overflowChecks : Bool) (hash : Option Era → H) (nonce : Nat)
    (mortality : Option Nat) (metadata : Option AccountMetadata)
    (attempts : Nat → OnlineAttempt) : Option (Except Error (SubxtTransaction H)) :=
  match Attempts.first defaultRetriesForPartialTxCreation fun i => (attempts i).createPartial with
  | some (i, current) =>
      let era := mortality.map fun m => Era.mortal m current
      (subxtTransaction overflowChecks (hash era) era nonce mortality metadata
        (attempts i).latest).map .ok
  | none => some (.error (.other "failed to create transaction with online client"))

/-- The answers of the first attempt that succeeds altogether. -/
def firstComplete (attempts : Nat → OnlineAttempt) : Option (BlockNumber × BlockNumber) :=
  (Attempts.first defaultRetriesForPartialTxCreation fun i => (attempts i).complete).map Prod.snd

/-- The transaction of an attempt that succeeds altogether. -/
def ofAttempt (hash : Option Era → H) (nonce m : Nat) (metadata : AccountMetadata)
    (answers : BlockNumber × BlockNumber) : SubxtTransaction H where
  hash := hash (some (Era.mortal m answers.1))
  era := some (Era.mortal m answers.1)
  nonce := nonce
  validUntil := some (answers.2 + m)
  accountMetadata := metadata

/-- The first attempt that succeeds altogether makes the transaction. Without one there is an error,
and in no case a panic. -/
def Retried (hash : Option Era → H) (nonce m : Nat) (metadata : AccountMetadata)
    (attempts : Nat → OnlineAttempt) (outcome : Option (Except Error (SubxtTransaction H))) :
    Prop :=
  match firstComplete attempts with
  | some answers => outcome = some (.ok (ofAttempt hash nonce m metadata answers))
  | none => ∃ err, outcome = some (.error err)

/-- The attempt at which `create_partial` succeeds for the first time. -/
def firstPartial (attempts : Nat → OnlineAttempt) : Option OnlineAttempt :=
  (Attempts.first defaultRetriesForPartialTxCreation fun i => (attempts i).createPartial).map
    fun found => attempts found.1

variable {overflowChecks : Bool} {hash : Option Era → H} {nonce m : Nat}
  {metadata : AccountMetadata} {attempts : Nat → OnlineAttempt}

/-- With the answers of the attempt that ends the loop, this is the function that takes them one by
one. -/
theorem createOnlineWithAttempts_eq (hash : H) {mortality : Option Nat}
    {metadata : Option AccountMetadata} :
    createOnlineWithAttempts overflowChecks (fun _ => hash) nonce mortality metadata attempts =
      createOnlineTransaction overflowChecks hash nonce mortality metadata
        ((List.range defaultRetriesForPartialTxCreation).map fun i => (attempts i).createPartial)
        ((firstPartial attempts).bind OnlineAttempt.latest) := by
  have htake : ((List.range defaultRetriesForPartialTxCreation).map
      fun i => (attempts i).createPartial).take defaultRetriesForPartialTxCreation =
        (List.range defaultRetriesForPartialTxCreation).map fun i => (attempts i).createPartial := by
    rw [List.take_of_length_le (by simp)]
  have hfind : ((List.range defaultRetriesForPartialTxCreation).map
      fun i => (attempts i).createPartial).findSome? id =
        (Attempts.first defaultRetriesForPartialTxCreation
          fun i => (attempts i).createPartial).map Prod.snd := by
    rw [List.findSome?_map, Attempts.first_map_snd]
    rfl
  unfold createOnlineWithAttempts createOnlineTransaction firstPartial
  rw [htake, hfind]
  cases Attempts.first defaultRetriesForPartialTxCreation fun i => (attempts i).createPartial with
  | none => rfl
  | some found => rfl

theorem complete_of_partial {i current number : Nat}
    (h : Attempts.first defaultRetriesForPartialTxCreation (fun i => (attempts i).createPartial) =
      some (i, current)) (hlatest : (attempts i).latest = some number) :
    firstComplete attempts = some (current, number) := by
  obtain ⟨hi, hcurrent, hbefore⟩ := Attempts.first_spec h
  have hall : (attempts i).complete = some (current, number) := by
    simp [OnlineAttempt.complete, hcurrent, hlatest]
  have hnone : ∀ j < i, (attempts j).complete = none := by
    intro j hj
    simp [OnlineAttempt.complete, hbefore j hj]
  rw [firstComplete, Attempts.first_of_ends hi hall hnone, Option.map_some]

theorem firstComplete_none
    (h : Attempts.first defaultRetriesForPartialTxCreation (fun i => (attempts i).createPartial) =
      none) : firstComplete attempts = none := by
  have hnone : Attempts.first defaultRetriesForPartialTxCreation
      (fun i => (attempts i).complete) = none := by
    rw [Attempts.first_eq_none_iff] at h ⊢
    intro i hi
    simp [OnlineAttempt.complete, h i hi]
  rw [firstComplete, hnone, Option.map_none]

/-- The first attempt with a partial transaction succeeds altogether, and the sum fits. -/
def FirstPartialCompletes (m : Nat) (a : OnlineAttempt) : Prop :=
  ∃ number, a.latest = some number ∧ number + m < 2 ^ 64

theorem retried_iff : Retried hash nonce m metadata attempts
      (createOnlineWithAttempts overflowChecks hash nonce (some m) (some metadata) attempts) ↔
    ∀ a, firstPartial attempts = some a → FirstPartialCompletes m a := by
  unfold createOnlineWithAttempts firstPartial
  cases hfirst : Attempts.first defaultRetriesForPartialTxCreation
      fun i => (attempts i).createPartial with
  | none => simp [Retried, firstComplete_none hfirst]
  | some found =>
      obtain ⟨i, current⟩ := found
      simp only [Option.map_some, Option.some.injEq, forall_eq', FirstPartialCompletes]
      cases hlatest : (attempts i).latest with
      | none =>
          have hpanic : ∀ outcome : Option (Except Error (SubxtTransaction H)), outcome = none →
              ¬ Retried hash nonce m metadata attempts outcome := by
            rintro _ rfl h
            unfold Retried at h
            split at h
            · cases h
            · obtain ⟨_, herr⟩ := h
              cases herr
          simp [hpanic, subxtTransaction, validUntilOf]
      | some number =>
          simp only [Retried, complete_of_partial hfirst hlatest, subxtTransaction, validUntilOf,
            Option.bind_some, Option.some.injEq, exists_eq_left']
          rw [← @Unsigned.fit_eq_self_iff 64 (number + m) overflowChecks]
          cases Unsigned.fit 64 overflowChecks (number + m) with
          | none => simp
          | some v => simp [ofAttempt]

/-! ## The transactions of a scenario -/

structure MortalBuild (H : Type*) where
  hash : Option Era → H
  nonce : Nat
  mortality : Nat
  metadata : AccountMetadata
  attempts : Nat → OnlineAttempt

namespace MortalBuild

def create (overflowChecks : Bool) (b : MortalBuild H) :
    Option (Except Error (SubxtTransaction H)) :=
  createOnlineWithAttempts overflowChecks b.hash b.nonce (some b.mortality) (some b.metadata)
    b.attempts

/-- `build_subxt_tx`, with its `expect`. -/
def build (overflowChecks : Bool) (b : MortalBuild H) : Option (SubxtTransaction H) :=
  (b.create overflowChecks).bind Except.toOption

def Retried (overflowChecks : Bool) (b : MortalBuild H) : Prop :=
  SubxtTransaction.Retried b.hash b.nonce b.mortality b.metadata b.attempts
    (b.create overflowChecks)

/-- The handles of all tasks are awaited and unwrapped. -/
def buildAll (overflowChecks : Bool) (bs : List (MortalBuild H)) :
    Option (List (SubxtTransaction H)) :=
  bs.mapM (build overflowChecks)

variable {b : MortalBuild H}

/-- The only error of `create_online_transaction` is that of the attempts that are used up. -/
theorem build_isSome_iff (hr : b.Retried overflowChecks) :
    (b.build overflowChecks).isSome ↔ (firstPartial b.attempts).isSome := by
  have hcompletes := retried_iff.mp hr
  unfold firstPartial at hcompletes ⊢
  cases hfirst : Attempts.first defaultRetriesForPartialTxCreation
      fun i => (b.attempts i).createPartial with
  | none => simp [build, create, createOnlineWithAttempts, hfirst, Except.toOption]
  | some found =>
      obtain ⟨number, hlatest, hfit⟩ := hcompletes (b.attempts found.1) (by simp [hfirst])
      have hvalid := @Unsigned.fit_of_lt 64 (number + b.mortality) overflowChecks hfit
      simp [build, create, createOnlineWithAttempts, hfirst, subxtTransaction, validUntilOf,
        hlatest, hvalid, Except.toOption]

theorem build_nonce {tx : SubxtTransaction H} (h : b.build overflowChecks = some tx) :
    tx.nonce = b.nonce := by
  obtain ⟨result, hresult, hok⟩ := Option.bind_eq_some_iff.mp h
  cases result with
  | error err => cases hok
  | ok tx' =>
      cases hok
      unfold create createOnlineWithAttempts at hresult
      split at hresult
      · obtain ⟨_, htx, heq⟩ := Option.map_eq_some_iff.mp hresult
        cases heq
        obtain ⟨_, _, htx⟩ := Option.bind_eq_some_iff.mp htx
        obtain ⟨_, _, rfl⟩ := Option.map_eq_some_iff.mp htx
        rfl
      · cases hresult

/-- The profile matters only when the sum does not fit. -/
theorem build_profile (h : ∀ i number, (b.attempts i).latest = some number →
    number + b.mortality < 2 ^ 64) : b.build true = b.build false := by
  unfold build create createOnlineWithAttempts
  split
  · rename_i i current _
    cases hlatest : (b.attempts i).latest with
    | none => rfl
    | some number =>
        simp only [subxtTransaction, validUntilOf, Option.bind_some,
          Unsigned.fit_of_lt (h i number hlatest)]
  · rfl

/-- One transaction is retried as it should be exactly if the first attempt at which
`create_partial` succeeds, if there is any, succeeds altogether. All transactions of a scenario are,
and none of them ends the build of the others, exactly if each has such an attempt. -/
theorem transactions_retried_iff (overflowChecks : Bool) :
    (∀ b : MortalBuild H, b.Retried overflowChecks ↔
      ∀ a, firstPartial b.attempts = some a → FirstPartialCompletes b.mortality a) ∧
    ∀ bs : List (MortalBuild H),
      ((∀ b ∈ bs, b.Retried overflowChecks) ∧ (buildAll overflowChecks bs).isSome) ↔
        ∀ b ∈ bs, ∃ a, firstPartial b.attempts = some a ∧ FirstPartialCompletes b.mortality a := by
  refine ⟨fun b => retried_iff, fun bs => ?_⟩
  rw [buildAll, List.isSome_mapM, List.all_eq_true]
  constructor
  · rintro ⟨hretried, hbuilt⟩ b hb
    have hsome := (build_isSome_iff (hretried b hb)).mp (hbuilt b hb)
    obtain ⟨a, ha⟩ := Option.isSome_iff_exists.mp hsome
    exact ⟨a, ha, retried_iff.mp (hretried b hb) a ha⟩
  · intro h
    have hretried : ∀ b ∈ bs, b.Retried overflowChecks := by
      intro b hb
      obtain ⟨a, ha, hcompletes⟩ := h b hb
      apply retried_iff.mpr
      intro a' ha'
      rw [ha, Option.some.injEq] at ha'
      exact ha' ▸ hcompletes
    refine ⟨hretried, fun b hb => ?_⟩
    obtain ⟨a, ha, _⟩ := h b hb
    exact (build_isSome_iff (hretried b hb)).mpr (by simp [ha])

/-- The finalized block is reported as missing when it is fetched, and found a moment later. -/
def pruned : MortalBuild Nat where
  hash _ := 1
  nonce := 0
  mortality := 8
  metadata := .derived 0
  attempts i := ⟨some 40, true, if i = 0 then none else some 41⟩

def prompt : MortalBuild Nat :=
  { pruned with attempts := fun _ => ⟨some 40, true, some 41⟩ }

theorem missing_block_panics :
    ¬ (∀ b : MortalBuild Nat, b.Retried true) ∧
      pruned.create true = none ∧ (prompt.build true).isSome ∧
      buildAll true [prompt, pruned] = none := by
  refine ⟨fun h => ?_, rfl, rfl, rfl⟩
  obtain ⟨number, hnumber, _⟩ := retried_iff.mp (h pruned) _ rfl
  cases hnumber

end MortalBuild

end SubxtTransaction

end TxTestTool
