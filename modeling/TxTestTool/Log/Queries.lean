import TxTestTool.Log.ExecutionLog

/-!
# What the reports read from a log

The reasons of failure, the events string of the timeline and the rows of the CSV file. `none` is
the panic of a query.
-/

namespace TxTestTool

variable {H : Type*}

def TransactionStatus.getLetter : TransactionStatus H → Char
  | .validated => 'V'
  | .broadcasted => 'b'
  | .inBlock _ => 'B'
  | .finalized _ => 'F'
  | .error _ => 'E'
  | .invalid _ => 'I'
  | .dropped _ => 'D'
  | .noLongerInBestBlock => 'N'

namespace TransactionExecutionLog

def getInvalidReason (l : TransactionExecutionLog H) : List String :=
  l.events.filterMap fun
    | .txPoolEvent _ (.invalid reason) => some reason
    | _ => none

def getErrorReason (l : TransactionExecutionLog H) : List String :=
  l.events.filterMap fun
    | .txPoolEvent _ (.error reason) => some reason
    | _ => none

def getDroppedReason (l : TransactionExecutionLog H) : List String :=
  l.events.filterMap fun
    | .txPoolEvent _ (.dropped reason) => some reason
    | _ => none

def getSubmitResultError (l : TransactionExecutionLog H) : List String :=
  l.events.filterMap fun
    | .submitResult _ (.error reason) => some reason
    | _ => none

def getSubmitAndWatchResultError (l : TransactionExecutionLog H) : List String :=
  l.events.filterMap fun
    | .submitAndWatchResult _ (.error reason) => some reason
    | _ => none

def getInpoolEventsString (l : TransactionExecutionLog H) : String :=
  String.ofList <| l.events.filterMap fun
    | .txPoolEvent _ p => some p.getLetter
    | _ => none

end TransactionExecutionLog

structure CsvEntry where
  finalized : Bool
  inBlock : Bool
  timeToFinalized : Option Duration
  timeToResult : Option Duration
  timeToValidated : Option Duration
  timeToBroadcasted : Option Duration
  timeToInBlock : Option Duration
  timeToFinalizedMonitor : Option Duration

namespace CsvEntry

def headerLine : String :=
  "finalized,in_block,time_to_finalized,time_to_result,time_to_validated,time_to_broadcasted," ++
    "time_to_in_block,time_to_finalized_monitor"

def ofLog (l : TransactionExecutionLog H) : Option CsvEntry := do
  let finalized ← l.timeToFinalized
  let inBlock ← l.timeToInblock
  let result ← l.timeToResult
  let validated ← l.timeToValidated
  let broadcasted ← l.timeToBroadcasted
  let finalizedMonitor ← l.timeToFinalizedMonitor
  return ⟨finalized.isSome, inBlock.isSome, finalized, result, validated, broadcasted, inBlock,
    finalizedMonitor⟩

/-- `as u8` -/
def flag (b : Bool) : String := if b then "1" else "0"

/-- `unwrap_or_default().as_millis()` -/
def millis (d : Option Duration) : String := (d.getD 0 / 1000000).repr

def toString (e : CsvEntry) : String :=
  ",".intercalate [flag e.finalized, flag e.inBlock, millis e.timeToFinalized,
    millis e.timeToResult, millis e.timeToValidated, millis e.timeToBroadcasted,
    millis e.timeToInBlock, millis e.timeToFinalizedMonitor]

end CsvEntry

end TxTestTool
