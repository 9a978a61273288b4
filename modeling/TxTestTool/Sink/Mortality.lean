import Mathlib.Data.Nat.Log
import TxTestTool.Machine.Unsigned
import TxTestTool.Monitor.BlockMonitor

/-!
# The lifetime of a mortal transaction

The lifetime that is signed counts from the finalized block that `create_partial` saw, and is
rounded. The block that the monitor waits for counts from the one seen after it, and is not.
-/

namespace TxTestTool

/-- The lifetime that subxt signs. -/
structure Era where
  period : Nat
  birth : Nat
  pos : 0 < period
deriving DecidableEq, Repr

namespace Era

def includes (e : Era) (n : Nat) : Prop := e.birth ≤ n ∧ n < e.birth + e.period

/-- A power of two in the range of periods. -/
def periodOf (mortality : Nat) : Nat := min (max (2 ^ Nat.clog 2 mortality) 4) 65536

def quantum (period : Nat) : Nat := max (period / 4096) 1

def mortal (mortality current : Nat) : Era where
  period := periodOf mortality
  birth := current - current % quantum (periodOf mortality)
  pos := by unfold periodOf; omega

/-- A power of two in the range is not rounded, so it is always covered. -/
theorem periodOf_pow {k : Nat} (hk : 2 ≤ k) (hk' : k ≤ 16) : periodOf (2 ^ k) = 2 ^ k := by
  have hlow : 2 ^ 2 ≤ 2 ^ k := Nat.pow_le_pow_right (by decide) hk
  have hhigh : 2 ^ k ≤ 2 ^ 16 := Nat.pow_le_pow_right (by decide) hk'
  rw [periodOf, Nat.clog_pow 2 k (by decide)]
  omega

end Era

structure SubxtTransaction (H : Type*) where
  hash : H
  era : Option Era
  nonce : Nat
  validUntil : Option BlockNumber
  accountMetadata : AccountMetadata
deriving DecidableEq, Repr

namespace SubxtTransaction

variable {H : Type*}

def defaultRetriesForPartialTxCreation : Nat := 10

/-- `None` when the transaction is not mortal. Both `expect`s and the addition can panic. -/
def validUntilOf (overflowChecks : Bool) (mortality : Option Nat) (latest : Option BlockNumber) :
    Option (Option BlockNumber) :=
  match mortality with
  | none => some none
  | some mortal => latest.bind fun number =>
      (Unsigned.fit 64 overflowChecks (number + mortal)).map some

/-- `latest` is the last finalized block, and `metadata` the entry of the account. -/
def subxtTransaction (overflowChecks : Bool) (hash : H) (era : Option Era) (nonce : Nat)
    (mortality : Option Nat) (metadata : Option AccountMetadata) (latest : Option BlockNumber) :
    Option (SubxtTransaction H) :=
  (validUntilOf overflowChecks mortality latest).bind fun validUntil =>
    metadata.map fun accountMetadata => { hash, era, nonce, validUntil, accountMetadata }

/-- Each attempt is a call of `create_partial`, which fails or sees a last finalized block. -/
def createOnlineTransaction (overflowChecks : Bool) (hash : H) (nonce : Nat)
    (mortality : Option Nat) (metadata : Option AccountMetadata)
    (attempts : List (Option BlockNumber)) (latest : Option BlockNumber) :
    Option (Except Error (SubxtTransaction H)) :=
  match (attempts.take defaultRetriesForPartialTxCreation).findSome? id with
  | some current =>
      let era := mortality.map fun m => Era.mortal m current
      (subxtTransaction overflowChecks hash era nonce mortality metadata latest).map .ok
  | none => some (.error (.other "failed to create transaction with online client"))

/-- When the monitor tells a listener that the lifetime has ended at the block it was registered
with, no later block can include the transaction. -/
def NeverEarly [DecidableEq H] (tx : SubxtTransaction H) : Prop :=
  ∀ es s k (v : Nat), (BlockMonitor.machine H).run BlockMonitor.new es = some s →
    s.requests[k]? = some (tx.hash, some v) → tx.validUntil = some v →
      .error (.mortalLifetimeSurpassed v) ∈ (s.channels k).sent →
        ∀ n, v < n → ∀ e ∈ tx.era, ¬ e.includes n

variable [DecidableEq H] {tx : SubxtTransaction H} {e : Era} {v : Nat}
  {overflowChecks : Bool} {hash : H} {nonce : Nat} {metadata : AccountMetadata}
  {attempts : List (Option BlockNumber)} {m current latest : Nat}

/-- A listener that waits alone is told of the end of its lifetime by an empty block. -/
theorem monitor_expires (hash : H) (v : Nat) : ∃ es s,
    (BlockMonitor.machine H).run BlockMonitor.new es = some s ∧
      s.requests[0]? = some (hash, some v) ∧
      .error (.mortalLifetimeSurpassed v) ∈ (s.channels 0).sent := by
  have hexpiring : (BlockMonitor.new.register hash (some v)).expiring v = [hash] := by
    simp [BlockMonitor.State.register, BlockMonitor.State.expiring, BlockMonitor.new,
      -AList.insert_empty]
  have hstep : BlockMonitor.step (BlockMonitor.new.register hash (some v))
      (.finalized ⟨v, hash, some []⟩ [hash]) =
        some ((BlockMonitor.new.register hash (some v)).handleBlock ⟨v, hash, some []⟩ [hash] true) := by
    simp only [BlockMonitor.step, hexpiring]
    simp [BlockMonitor.State.register, BlockMonitor.new]
  refine ⟨[.request hash (some v), .finalized ⟨v, hash, some []⟩ [hash]], _,
    Machine.run_cons.mpr ⟨_, rfl, Machine.run_cons.mpr ⟨_, hstep, rfl⟩⟩, ?_⟩
  simp [BlockMonitor.State.handleBlock, BlockMonitor.State.settle, BlockMonitor.State.notifyAll,
    BlockMonitor.State.notify, BlockMonitor.State.register, BlockMonitor.new, Channel.send,
    -AList.insert_empty]

theorem neverEarly_iff (hera : tx.era = some e) (hv : tx.validUntil = some v) :
    tx.NeverEarly ↔ e.birth + e.period ≤ v + 1 := by
  constructor
  · intro h
    obtain ⟨es, s, hrun, hreq, hsent⟩ := monitor_expires tx.hash v
    have hlate := h es s 0 v hrun hreq hv hsent
    by_contra hlt
    have hpos := e.pos
    have hnext : v < max (v + 1) e.birth := by omega
    apply hlate _ hnext e (by simp [hera])
    constructor <;> omega
  · rintro hle es s k u _ _ hu _ n hn e' he' hin
    rw [hera, Option.mem_some] at he'
    subst he'
    rw [hv, Option.some.injEq] at hu
    subst hu
    have hlast := hin.2
    omega

omit [DecidableEq H] in
theorem createOnlineTransaction_mortal
    (hfirst : (attempts.take defaultRetriesForPartialTxCreation).findSome? id = some current) :
    createOnlineTransaction overflowChecks hash nonce (some m) (some metadata) attempts
      (some latest) = (Unsigned.fit 64 overflowChecks (latest + m)).map fun v =>
        .ok ⟨hash, some (Era.mortal m current), nonce, some v, metadata⟩ := by
  simp only [createOnlineTransaction, hfirst, subxtTransaction, validUntilOf, Option.bind_some]
  cases Unsigned.fit 64 overflowChecks (latest + m) <;> rfl

/-- The block that is waited for is exact and not before the end of the signed lifetime exactly if
the sum fits, and the rounding adds no more than the finalized blocks that passed meanwhile. -/
theorem valid_until_covers_lifetime_iff (hle : current ≤ latest)
    (hfirst : (attempts.take defaultRetriesForPartialTxCreation).findSome? id = some current) :
    (∃ tx, createOnlineTransaction overflowChecks hash nonce (some m) (some metadata) attempts
        (some latest) = some (.ok tx) ∧ tx.validUntil = some (latest + m) ∧ tx.NeverEarly) ↔
      latest + m < 2 ^ 64 ∧ Era.periodOf m ≤
        m + 1 + (latest - current) + current % Era.quantum (Era.periodOf m) := by
  have hphase : current % Era.quantum (Era.periodOf m) ≤ current := Nat.mod_le _ _
  have hcover : (Era.mortal m current).birth + (Era.mortal m current).period ≤ latest + m + 1 ↔
      Era.periodOf m ≤ m + 1 + (latest - current) + current % Era.quantum (Era.periodOf m) := by
    simp only [Era.mortal]
    omega
  rw [createOnlineTransaction_mortal hfirst, ← hcover]
  constructor
  · rintro ⟨tx, htx, hv, hnever⟩
    obtain ⟨u, hu, heq⟩ := Option.map_eq_some_iff.mp htx
    cases heq
    simp only [Option.some.injEq] at hv
    subst hv
    exact ⟨Unsigned.fit_lt hu, (neverEarly_iff rfl rfl).mp hnever⟩
  · rintro ⟨hlt, hcover⟩
    refine ⟨⟨hash, some (Era.mortal m current), nonce, some (latest + m), metadata⟩, ?_, rfl, ?_⟩
    · rw [Unsigned.fit_of_lt hlt]
      rfl
    · exact (neverEarly_iff rfl rfl).mpr hcover

/-- Five blocks are rounded up to eight: blocks 6 and 7 can include a transaction that has been
reported as expired. -/
theorem valid_until_too_early :
    ¬ (∀ (overflowChecks : Bool) (m current latest : Nat), m < 2 ^ 64 → current ≤ latest →
      ∃ tx, createOnlineTransaction overflowChecks 1 0 (some m) (some (.derived 0)) [some current]
        (some latest) = some (.ok tx) ∧ tx.validUntil = some (latest + m) ∧ tx.NeverEarly) := by
  intro h
  obtain ⟨tx, htx, hv, hnever⟩ := h true 5 0 0 (by decide) (by decide)
  rw [createOnlineTransaction_mortal rfl, Unsigned.fit_of_lt (by decide)] at htx
  cases htx
  have hle := (neverEarly_iff rfl rfl).mp hnever
  have hperiod : Era.periodOf 5 = 8 := by decide
  simp [Era.mortal, hperiod] at hle

theorem valid_until_covers_lifetime_seven : ∃ tx,
    createOnlineTransaction true 1 0 (some 7) (some (.derived 0)) [none, some 40] (some 41) =
      some (.ok tx) ∧ tx.validUntil = some 48 ∧ tx.NeverEarly :=
  (@valid_until_covers_lifetime_iff Nat _ true 1 0 (.derived 0) [none, some 40] 7 40 41 (by decide)
    rfl).mpr (by decide)

end SubxtTransaction

end TxTestTool
