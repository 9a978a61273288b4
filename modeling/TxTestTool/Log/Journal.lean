import TxTestTool.Log.FakeHash
import TxTestTool.Log.Queries

/-!
# The journal

The encodings that are derived for the events and the logs, and the file that holds all of them.
-/

namespace TxTestTool

variable {H : Type*}

def nanosPerSec : Nat := 1000000000

theorem SystemTime.widths {i : SystemTime} (h : i.toNat / nanosPerSec < 2 ^ 63) :
    i.toNat / nanosPerSec < 2 ^ 64 ∧ i.toNat % nanosPerSec < 2 ^ 32 := by
  unfold nanosPerSec at *
  omega

/-- A time before the epoch cannot be written, and one that the clock cannot represent not read. -/
def SystemTime.codec : Codec SystemTime where
  encode i :=
    if 0 ≤ i then
      some (.obj [("secs_since_epoch", .num (i.toNat / nanosPerSec)),
        ("nanos_since_epoch", .num (i.toNat % nanosPerSec))])
    else none
  decode
    | .obj members =>
        if members.length = 2 then
          ((Json.field members "secs_since_epoch").bind (Codec.nat 64).decode).bind fun secs =>
            ((Json.field members "nanos_since_epoch").bind (Codec.nat 32).decode).bind fun nanos =>
              if secs + nanos / nanosPerSec < 2 ^ 63 then
                some ((secs * nanosPerSec + nanos : Nat) : Int)
              else none
        else none
    | _ => none
  Valid i := 0 ≤ i ∧ i.toNat / nanosPerSec < 2 ^ 63
  depth := 1
  law i hi := by
    obtain ⟨hpos, hsecs⟩ := hi
    refine ⟨.obj [("secs_since_epoch", .num (i.toNat / nanosPerSec)),
      ("nanos_since_epoch", .num (i.toNat % nanosPerSec))], if_pos hpos, ?_, ?_⟩
    · intro member hmember
      rcases List.mem_pair.mp hmember with rfl | rfl <;> trivial
    · have hnanos : i.toNat % nanosPerSec < nanosPerSec := Nat.mod_lt _ (by decide)
      have hwidth := SystemTime.widths hsecs
      have hcarry : i.toNat % nanosPerSec / nanosPerSec = 0 := Nat.div_eq_of_lt hnanos
      have hback : ((i.toNat / nanosPerSec * nanosPerSec + i.toNat % nanosPerSec : Nat) : Int) =
          i := by
        rw [Nat.div_add_mod', Int.toNat_of_nonneg hpos]
      generalize i.toNat / nanosPerSec = secs at *
      generalize i.toNat % nanosPerSec = nanos at *
      have hfields : Json.field [("secs_since_epoch", .num secs), ("nanos_since_epoch", .num nanos)]
            "secs_since_epoch" = some (.num secs) ∧
          Json.field [("secs_since_epoch", .num secs), ("nanos_since_epoch", .num nanos)]
            "nanos_since_epoch" = some (.num nanos) := ⟨rfl, rfl⟩
      have hsecs' : (Codec.nat 64).decode (.num secs) = some secs := if_pos hwidth.1
      have hnanos' : (Codec.nat 32).decode (.num nanos) = some nanos := if_pos hwidth.2
      simp only [List.length_cons, List.length_nil, Nat.zero_add, Nat.reduceAdd, ↓reduceIte,
        hfields, Option.bind_some, hsecs', hnanos', hcarry, Nat.add_zero, hsecs, hback]

/-- `Result<(), String>` -/
def resultCodec : Codec (Except String Unit) where
  encode
    | .ok () => some (Json.variant "Ok" .null)
    | .error e => some (Json.variant "Err" (.str e))
  decode
    | .obj [("Ok", data)] => (Codec.unit.decode data).map .ok
    | .obj [("Err", data)] => (Codec.string.decode data).map .error
    | _ => none
  Valid _ := True
  depth := 1
  law r _ := by
    cases r with
    | ok u =>
        exact Codec.variant_law Codec.unit "Ok" .ok u trivial (Nat.le_refl _) rfl rfl fun _ => rfl
    | error e =>
        exact Codec.variant_law Codec.string "Err" .error e trivial
          (Nat.le_refl _) rfl rfl fun _ => rfl

def AccountMetadata.codec : Codec AccountMetadata where
  encode
    | .none => some (.str "None")
    | .derived id => ((Codec.nat 32).encode id).map (Json.variant "Derived")
    | .keyRing name => (Codec.string.encode name).map (Json.variant "KeyRing")
  decode j :=
    j.tagged.bind fun v =>
      match v.1 with
      | "None" => (Codec.unit.decode v.2).map fun _ => .none
      | "Derived" => ((Codec.nat 32).decode v.2).map .derived
      | "KeyRing" => (Codec.string.decode v.2).map .keyRing
      | _ => none
  Valid
    | .derived id => id < 2 ^ 32
    | _ => True
  depth := 1
  law m hm := by
    cases m with
    | none => exact ⟨.str "None", rfl, trivial, rfl⟩
    | derived id =>
        exact Codec.variant_law (Codec.nat 32) "Derived" .derived id hm
          (Nat.le_refl _) rfl rfl fun _ => rfl
    | keyRing name =>
        exact Codec.variant_law Codec.string "KeyRing" .keyRing name trivial (Nat.le_refl _) rfl rfl
          fun _ => rfl

def TransactionStatus.codec (hash : TextForm H) : Codec (TransactionStatus H) where
  encode
    | .validated => some (.str "Validated")
    | .broadcasted => some (.str "Broadcasted")
    | .inBlock h => ((Codec.text hash).encode h).map (Json.variant "InBlock")
    | .noLongerInBestBlock => some (.str "NoLongerInBestBlock")
    | .finalized h => ((Codec.text hash).encode h).map (Json.variant "Finalized")
    | .dropped message => (Codec.string.encode message).map (Json.variant "Dropped")
    | .invalid message => (Codec.string.encode message).map (Json.variant "Invalid")
    | .error message => (Codec.string.encode message).map (Json.variant "Error")
  decode j :=
    j.tagged.bind fun v =>
      match v.1 with
      | "Validated" => (Codec.unit.decode v.2).map fun _ => .validated
      | "Broadcasted" => (Codec.unit.decode v.2).map fun _ => .broadcasted
      | "InBlock" => ((Codec.text hash).decode v.2).map .inBlock
      | "NoLongerInBestBlock" => (Codec.unit.decode v.2).map fun _ => .noLongerInBestBlock
      | "Finalized" => ((Codec.text hash).decode v.2).map .finalized
      | "Dropped" => (Codec.string.decode v.2).map .dropped
      | "Invalid" => (Codec.string.decode v.2).map .invalid
      | "Error" => (Codec.string.decode v.2).map .error
      | _ => none
  Valid _ := True
  depth := 1
  law status _ := by
    cases status with
    | validated => exact ⟨.str "Validated", rfl, trivial, rfl⟩
    | broadcasted => exact ⟨.str "Broadcasted", rfl, trivial, rfl⟩
    | inBlock h =>
        exact Codec.variant_law (.text hash) "InBlock" .inBlock h trivial (Nat.le_refl _) rfl rfl
          fun _ => rfl
    | noLongerInBestBlock => exact ⟨.str "NoLongerInBestBlock", rfl, trivial, rfl⟩
    | finalized h =>
        exact Codec.variant_law (.text hash) "Finalized" .finalized h trivial
          (Nat.le_refl _) rfl rfl
          fun _ => rfl
    | dropped message =>
        exact Codec.variant_law .string "Dropped" .dropped message trivial
          (Nat.le_refl _) rfl rfl fun _ => rfl
    | invalid message =>
        exact Codec.variant_law .string "Invalid" .invalid message trivial
          (Nat.le_refl _) rfl rfl fun _ => rfl
    | error message =>
        exact Codec.variant_law .string "Error" .error message trivial
          (Nat.le_refl _) rfl rfl fun _ => rfl

namespace ExecutionEvent

/-- The types of the fields hold no other values. -/
def Writable : ExecutionEvent H → Prop
  | .mortalDroppedMonitor i blockNumber => SystemTime.codec.Valid i ∧ blockNumber < 2 ^ 64
  | e => SystemTime.codec.Valid e.time

def codec (hash : TextForm H) : Codec (ExecutionEvent H) where
  encode
    | .popped i => (SystemTime.codec.encode i).map (Json.variant "Popped")
    | .sent i => (SystemTime.codec.encode i).map (Json.variant "Sent")
    | .resubmitted i => (SystemTime.codec.encode i).map (Json.variant "Resubmitted")
    | .submitResult i r =>
        ((SystemTime.codec.pair resultCodec).encode (i, r)).map (Json.variant "SubmitResult")
    | .submitAndWatchResult i r =>
        ((SystemTime.codec.pair resultCodec).encode (i, r)).map
          (Json.variant "SubmitAndWatchResult")
    | .txPoolEvent i status =>
        ((SystemTime.codec.pair (TransactionStatus.codec hash)).encode (i, status)).map
          (Json.variant "TxPoolEvent")
    | .finalizedMonitor i h =>
        ((SystemTime.codec.pair (.text hash)).encode (i, h)).map (Json.variant "FinalizedMonitor")
    | .mortalDroppedMonitor i n =>
        ((SystemTime.codec.pair (.nat 64)).encode (i, n)).map (Json.variant "MortalDroppedMonitor")
  decode j :=
    j.tagged.bind fun v =>
      match v.1 with
      | "Popped" => (SystemTime.codec.decode v.2).map .popped
      | "Sent" => (SystemTime.codec.decode v.2).map .sent
      | "Resubmitted" => (SystemTime.codec.decode v.2).map .resubmitted
      | "SubmitResult" =>
          ((SystemTime.codec.pair resultCodec).decode v.2).map fun p => .submitResult p.1 p.2
      | "SubmitAndWatchResult" =>
          ((SystemTime.codec.pair resultCodec).decode v.2).map fun p =>
            .submitAndWatchResult p.1 p.2
      | "TxPoolEvent" =>
          ((SystemTime.codec.pair (TransactionStatus.codec hash)).decode v.2).map fun p =>
            .txPoolEvent p.1 p.2
      | "FinalizedMonitor" =>
          ((SystemTime.codec.pair (.text hash)).decode v.2).map fun p => .finalizedMonitor p.1 p.2
      | "MortalDroppedMonitor" =>
          ((SystemTime.codec.pair (.nat 64)).decode v.2).map fun p => .mortalDroppedMonitor p.1 p.2
      | _ => none
  Valid := Writable
  depth := 3
  law e he := by
    cases e with
    | popped i =>
        exact Codec.variant_law SystemTime.codec "Popped" .popped i he (by decide)
          rfl rfl fun _ => rfl
    | sent i =>
        exact Codec.variant_law SystemTime.codec "Sent" .sent i he (by decide) rfl rfl fun _ => rfl
    | resubmitted i =>
        exact Codec.variant_law SystemTime.codec "Resubmitted" .resubmitted i he (by decide) rfl rfl
          fun _ => rfl
    | submitResult i r =>
        exact Codec.variant_law (SystemTime.codec.pair resultCodec) "SubmitResult"
          (fun p => .submitResult p.1 p.2) (i, r) ⟨he, trivial⟩ (Nat.le_refl _) rfl rfl fun _ => rfl
    | submitAndWatchResult i r =>
        exact Codec.variant_law (SystemTime.codec.pair resultCodec) "SubmitAndWatchResult"
          (fun p => .submitAndWatchResult p.1 p.2) (i, r) ⟨he, trivial⟩
            (Nat.le_refl _) rfl rfl fun _ => rfl
    | txPoolEvent i status =>
        exact Codec.variant_law (SystemTime.codec.pair (TransactionStatus.codec hash))
          "TxPoolEvent" (fun p => .txPoolEvent p.1 p.2) (i, status) ⟨he, trivial⟩
            (Nat.le_refl _) rfl rfl
          fun _ => rfl
    | finalizedMonitor i h =>
        exact Codec.variant_law (SystemTime.codec.pair (.text hash)) "FinalizedMonitor"
          (fun p => .finalizedMonitor p.1 p.2) (i, h) ⟨he, trivial⟩
            (Nat.le_refl _) rfl rfl fun _ => rfl
    | mortalDroppedMonitor i n =>
        exact Codec.variant_law (SystemTime.codec.pair (.nat 64)) "MortalDroppedMonitor"
          (fun p => .mortalDroppedMonitor p.1 p.2) (i, n) he (Nat.le_refl _) rfl rfl fun _ => rfl

end ExecutionEvent

namespace TransactionExecutionLog

structure Writable (l : TransactionExecutionLog H) : Prop where
  events : ∀ e ∈ l.events, e.Writable
  accountMetadata : AccountMetadata.codec.Valid l.accountMetadata
  nonce : l.nonce < 2 ^ 128

/-- Through `DefaultExecutionLogSerdeHelper`, which has the fields of the log but for the
counters. -/
def codec (hash : TextForm H) : Codec (TransactionExecutionLog H) where
  encode l :=
    ((ExecutionEvent.codec hash).list.encode l.events).bind fun events =>
      (AccountMetadata.codec.encode l.accountMetadata).bind fun accountMetadata =>
        ((Codec.nat 128).encode l.nonce).bind fun nonce =>
          ((Codec.text hash).encode l.hash).map fun h =>
            .obj [("events", events), ("account_metadata", accountMetadata), ("nonce", nonce),
              ("hash", h)]
  decode
    | .obj members =>
        ((Json.field members "events").bind (ExecutionEvent.codec hash).list.decode).bind
          fun events =>
        ((Json.field members "account_metadata").bind AccountMetadata.codec.decode).bind
          fun accountMetadata =>
        ((Json.field members "nonce").bind (Codec.nat 128).decode).bind fun nonce =>
        ((Json.field members "hash").bind (Codec.text hash).decode).map fun h =>
          ⟨events, accountMetadata, nonce, h⟩
    | _ => none
  Valid := Writable
  depth := 5
  law l hl := by
    obtain ⟨events, hevents, hevents', hback⟩ := (ExecutionEvent.codec hash).list.law _ hl.events
    obtain ⟨metadata, hmeta, hmeta', hmetaback⟩ := AccountMetadata.codec.law _ hl.accountMetadata
    obtain ⟨nonce, hnonce, hnonce', hnonceback⟩ := (Codec.nat 128).law _ hl.nonce
    obtain ⟨h, hhash, hhash', hhashback⟩ := (Codec.text hash).law l.hash trivial
    refine ⟨.obj [("events", events), ("account_metadata", metadata), ("nonce", nonce),
      ("hash", h)], by simp [hevents, hmeta, hnonce, hhash], ?_, ?_⟩
    · intro member hmember
      simp only [List.mem_cons, List.not_mem_nil, or_false] at hmember
      rcases hmember with rfl | rfl | rfl | rfl
      · exact hevents'.mono (Nat.le_refl _)
      · exact hmeta'.mono (by decide)
      · exact hnonce'.mono (by decide)
      · exact hhash'.mono (Nat.zero_le _)
    · simp [Json.field, hback, hmetaback, hnonceback, hhashback]

end TransactionExecutionLog

/-! ## What can be written -/

theorem SystemTime.isSome_encode (i : SystemTime) :
    (SystemTime.codec.encode i).isSome ↔ 0 ≤ i := by
  by_cases hi : 0 ≤ i <;> simp [SystemTime.codec, hi]

theorem isSome_pair {α β : Type*} (c : Codec α) (d : Codec β) (p : α × β) :
    ((c.pair d).encode p).isSome = ((c.encode p.1).isSome && (d.encode p.2).isSome) := by
  cases hc : c.encode p.1 <;> simp [Codec.pair, hc]

theorem isSome_resultCodec (r : Except String Unit) : (resultCodec.encode r).isSome = true := by
  rcases r with _ | ⟨⟩ <;> rfl

theorem TransactionStatus.isSome_encode (hash : TextForm H) (status : TransactionStatus H) :
    ((TransactionStatus.codec hash).encode status).isSome = true := by
  cases status <;> rfl

theorem AccountMetadata.isSome_encode (m : AccountMetadata) :
    (AccountMetadata.codec.encode m).isSome = true := by
  cases m <;> rfl

theorem ExecutionEvent.isSome_encode (hash : TextForm H) (e : ExecutionEvent H) :
    ((ExecutionEvent.codec hash).encode e).isSome ↔ 0 ≤ e.time := by
  rw [← SystemTime.isSome_encode]
  cases e with
  | submitResult | submitAndWatchResult =>
      simp [ExecutionEvent.codec, isSome_pair, isSome_resultCodec, ExecutionEvent.time]
  | txPoolEvent =>
      simp [ExecutionEvent.codec, isSome_pair, TransactionStatus.isSome_encode,
        ExecutionEvent.time]
  | finalizedMonitor => simp [ExecutionEvent.codec, isSome_pair, Codec.text, ExecutionEvent.time]
  | mortalDroppedMonitor =>
      simp [ExecutionEvent.codec, isSome_pair, Codec.nat, ExecutionEvent.time]
  | _ => simp [ExecutionEvent.codec, ExecutionEvent.time]

namespace TransactionExecutionLog

/-- No event is before the epoch. -/
def sinceEpoch (l : TransactionExecutionLog H) : Bool := l.events.all fun e => decide (0 ≤ e.time)

theorem isSome_encode (hash : TextForm H) (l : TransactionExecutionLog H) :
    ((codec hash).encode l).isSome = l.sinceEpoch := by
  have hevents : ((ExecutionEvent.codec hash).list.encode l.events).isSome = l.sinceEpoch := by
    rw [Bool.eq_iff_iff]
    simp [Codec.list, List.isSome_mapM, ExecutionEvent.isSome_encode, sinceEpoch]
  obtain ⟨metadata, hmetadata⟩ :=
    Option.isSome_iff_exists.mp (AccountMetadata.isSome_encode l.accountMetadata)
  rw [← hevents]
  cases he : (ExecutionEvent.codec hash).list.encode l.events <;>
    simp [codec, he, hmetadata, Codec.nat, Codec.text]

end TransactionExecutionLog

def Logs.sinceEpoch (logs : Logs H) : Bool := logs.values.all fun l => l.sinceEpoch

namespace Journal

def codec (hash : TextForm H) : Codec (List (H × TransactionExecutionLog H)) :=
  .entries hash (TransactionExecutionLog.codec hash)

/-- The text of `save_logs`. The map is gone through in any order. -/
def saveLogs (hash : TextForm H) (order : List (H × TransactionExecutionLog H)) : Option String :=
  (codec hash).write order

def loadLogs [DecidableEq H] (hash : TextForm H) (text : String) : Option (Logs H) :=
  ((codec hash).read text).map AList.ofPairs

/-- A line of the CSV file, with the hash as it is formatted for debugging. -/
def csvRow (debug : H → String) (h : H) (l : TransactionExecutionLog H) : Option String :=
  (CsvEntry.ofLog l).map fun e => debug h ++ "," ++ e.toString

/-- The text of `save_csv`. -/
def saveCsv (debug : H → String) (order : List (H × TransactionExecutionLog H)) : Option String :=
  (order.mapM fun p => csvRow debug p.1 p.2).map fun rows =>
    String.intercalate "\n" (("hash," ++ CsvEntry.headerLine) :: rows) ++ "\n"

/-- The map can be gone through in an order that gives this CSV file. -/
def CsvOf (debug : H → String) (logs : Logs H) (csv : String) : Prop :=
  ∃ order, order.Perm logs.pairs ∧ saveCsv debug order = some csv

/-- All that the statistics and the CSV file read from a log. -/
structure Report (H : Type*) where
  times : List (Option (Option Duration))
  inBlocks : List H
  reasons : List (List String)
  inpoolEventsString : String
  csvRow : Option String

def report (debug : H → String) (h : H) (l : TransactionExecutionLog H) : Report H where
  times := [l.timeToDropped, l.timeToError, l.timeToInvalid, l.timeToResult, l.timeToValidated,
    l.timeToBroadcasted, l.timeToInblock, l.timeToFinalized, l.timeToFinalizedMonitor,
    l.timeToMortalDroppedMonitor]
  inBlocks := l.inBlocks
  reasons := [l.getDroppedReason, l.getErrorReason, l.getInvalidReason, l.getSubmitResultError,
    l.getSubmitAndWatchResultError]
  inpoolEventsString := l.getInpoolEventsString
  csvRow := csvRow debug h l

variable [DecidableEq H] {logs : Logs H} {order : List (H × TransactionExecutionLog H)}

theorem sinceEpoch_iff : logs.sinceEpoch = true ↔
    ∀ h l, logs.lookup h = some l → ∀ e ∈ l.events, 0 ≤ e.time := by
  simp only [Logs.sinceEpoch, TransactionExecutionLog.sinceEpoch, List.all_eq_true,
    decide_eq_true_eq]
  exact ⟨fun hall h l hl => hall l (AList.mem_values.mpr ⟨h, hl⟩), fun hall l hl =>
    have ⟨h, hlookup⟩ := AList.mem_values.mp hl
    hall h l hlookup⟩

/-- What is written at or after the epoch can be saved. -/
theorem sinceEpoch_pushEvents {b : Books H} {h : H} {es : List (ExecutionEvent H)}
    (hb : b.logs.sinceEpoch = true) (hes : ∀ e ∈ es, 0 ≤ e.time) :
    (b.pushEvents h es).logs.sinceEpoch = true := by
  rw [sinceEpoch_iff] at hb ⊢
  intro a l hl e he
  rw [Books.lookup_pushEvents] at hl
  split at hl
  · obtain ⟨l₀, hl₀, rfl⟩ := Option.map_eq_some_iff.mp hl
    rcases List.mem_append.mp he with he | he
    · exact hb h l₀ hl₀ e he
    · exact hes e he
  · exact hb a l hl e he

/-- `save_logs` panics exactly on logs with an event before the epoch. -/
theorem isSome_saveLogs (hash : TextForm H) (horder : order.Perm logs.pairs) :
    (saveLogs hash order).isSome = logs.sinceEpoch := by
  have hmembers : (saveLogs hash order).isSome = order.all fun p => p.2.sinceEpoch := by
    simp [saveLogs, codec, Codec.write, Codec.entries, List.isSome_mapM, Codec.member,
      TransactionExecutionLog.isSome_encode]
  rw [hmembers, Logs.sinceEpoch, Bool.eq_iff_iff, List.all_eq_true, List.all_eq_true]
  constructor
  · intro h l hl
    obtain ⟨a, ha⟩ := AList.mem_values.mp hl
    exact h (a, l) (horder.mem_iff.mpr (AList.mem_pairs.mpr ha))
  · intro h p hp
    exact h p.2 (AList.mem_values.mpr ⟨p.1, AList.mem_pairs.mp (horder.mem_iff.mp hp)⟩)

omit [DecidableEq H] in
theorem codec_depth (hash : TextForm H) : (codec hash).depth = 6 := rfl

theorem codec_valid (hash : TextForm H) (hlogs : ∀ h l, logs.lookup h = some l → l.Writable)
    (horder : order.Perm logs.pairs) : (codec hash).Valid order := by
  intro e he
  exact hlogs e.1 e.2 (AList.mem_pairs.mp (horder.subset he))

theorem lookup_ofPairs_perm (horder : order.Perm logs.pairs) (h : H) :
    (AList.ofPairs order).lookup h = logs.lookup h := by
  have hnodup : (order.map Prod.fst).Nodup :=
    (horder.map Prod.fst).nodup_iff.mpr (AList.nodup_pairs logs)
  apply Option.ext
  intro l
  rw [AList.lookup_ofPairs hnodup, horder.mem_iff, AList.mem_pairs]

/-- Loading what has been saved gives the same logs under the same hashes, in whatever order the
saved map was gone through, so that all reports and CSV files are the same. -/
theorem load_saved (hash : TextForm H) (debug : H → String)
    (hlogs : ∀ h l, logs.lookup h = some l → l.Writable) (horder : order.Perm logs.pairs) :
    ∃ text loaded, saveLogs hash order = some text ∧ loadLogs hash text = some loaded ∧
      (∀ h, h ∈ loaded ↔ h ∈ logs) ∧ (∀ h, loaded.lookup h = logs.lookup h) ∧
      (∀ h, (loaded.lookup h).map (report debug h) = (logs.lookup h).map (report debug h)) ∧
      ∀ csv, CsvOf debug loaded csv ↔ CsvOf debug logs csv := by
  have hdepth : (codec hash).depth ≤ 127 := by
    rw [codec_depth]
    decide
  obtain ⟨text, hwrite, hread⟩ := (codec hash).read_write hdepth (codec_valid hash hlogs horder)
  have hlookup := lookup_ofPairs_perm horder
  have hpairs : (AList.ofPairs order).pairs.Perm logs.pairs := AList.pairs_perm hlookup
  refine ⟨text, AList.ofPairs order, hwrite, ?_, ?_, hlookup, ?_, ?_⟩
  · rw [loadLogs, hread, Option.map_some]
  · intro h
    rw [← AList.lookup_isSome, hlookup h, AList.lookup_isSome]
  · intro h
    rw [hlookup h]
  · intro csv
    constructor
    · rintro ⟨order', horder', hcsv⟩
      exact ⟨order', horder'.trans hpairs, hcsv⟩
    · rintro ⟨order', horder', hcsv⟩
      exact ⟨order', horder'.trans hpairs.symm, hcsv⟩

/-- The log of a transaction that the pool has dropped. -/
def droppedLog : TransactionExecutionLog FakeHash where
  events := [.popped 0, .sent 1500000000, .submitResult 1500000007 (.error "\"quoted\"\n\\ é"),
    .txPoolEvent 2000000000 (.inBlock (.ofIndex 7)), .txPoolEvent 2000000001 (.dropped "")]
  accountMetadata := .keyRing "alice"
  nonce := 2 ^ 128 - 1
  hash := .ofIndex 258

theorem load_saved_droppedLog :
    ∃ text loaded, saveLogs FakeHash.textForm [(FakeHash.ofIndex 258, droppedLog)] = some text ∧
      loadLogs FakeHash.textForm text = some loaded ∧
      loaded.lookup (FakeHash.ofIndex 258) = some droppedLog := by
  let logs : Logs FakeHash := AList.singleton (FakeHash.ofIndex 258) droppedLog
  have hwritable : droppedLog.Writable := by
    refine ⟨?_, trivial, by decide⟩
    intro e he
    simp only [droppedLog, List.mem_cons, List.not_mem_nil, or_false] at he
    rcases he with rfl | rfl | rfl | rfl | rfl <;> exact ⟨by decide, by decide⟩
  have hlogs : ∀ h l, logs.lookup h = some l → l.Writable := by
    intro h l hl
    cases List.mem_singleton.mp (AList.mem_lookup_iff.mp hl)
    exact hwritable
  have horder : [(FakeHash.ofIndex 258, droppedLog)].Perm logs.pairs := List.Perm.refl _
  obtain ⟨text, loaded, hsave, hload, _, hlookup, _⟩ :=
    load_saved FakeHash.textForm (fun h => Hex.encode h.bytes) hlogs horder
  exact ⟨text, loaded, hsave, hload, hlookup _⟩

example : (ExecutionEvent.codec FakeHash.textForm).write (.submitResult 1000000005 (.error "no")) =
    some ("\x7b\"SubmitResult\":[\x7b\"secs_since_epoch\":1,\"nanos_since_epoch\":5\x7d," ++
      "\x7b\"Err\":\"no\"\x7d]\x7d") := by decide

end Journal

end TxTestTool
