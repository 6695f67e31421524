import FundsLedger.Duration
import FundsLedger.Record

/-!
What the ledger reports while it works. An event is a fact; its level, its wording and its fields
are fixed here.
-/

namespace FundsLedger

/-- Money that is to go from one account to another. -/
structure Movement where
  fromId : AccountId
  toId : AccountId
  amount : Amount
deriving DecidableEq

/-- How much attention an event asks for. -/
inductive Level where
  | debug
  | info
  | warn
deriving DecidableEq, Repr

/-- The name of the level. -/
def Level.name : Level → String
  | debug => "debug"
  | info => "info"
  | warn => "warn"

/-- A fact that the ledger reports. -/
inductive Event where
  | accountOpened (account : Account)
  | lockingRows (first second : AccountId)
  | transferCommitted (id : TransferId) (movement : Movement) (attempt : Nat)
  | transferConflict (movement : Movement) (attempt : Nat)
  | retriesExhausted (movement : Movement) (attempt : Nat)
  | transferRejected (movement : Movement) (attempt : Nat) (error : String)
  | deadlineExceeded (movement : Movement)
  | transferCancelled (movement : Movement)
  | conflictRetried (attempt : Nat)
  | unitDiscarded (accounts entries transfers : Nat)
  | unitRolledBack
  | rollbackFailed (error : String)
deriving DecidableEq

/-- The value of a field of an event. -/
inductive FieldValue where
  | number (n : Int)
  | text (s : String)
deriving DecidableEq, Repr

namespace Event

/-- The level at which the event is reported. -/
def level : Event → Level
  | accountOpened _ | transferCommitted .. => .info
  | transferConflict .. | retriesExhausted .. | deadlineExceeded _ | conflictRetried _
  | rollbackFailed _ => .warn
  | lockingRows .. | transferRejected .. | transferCancelled _ | unitDiscarded .. | unitRolledBack =>
    .debug

/-- The wording of the event. -/
def message : Event → String
  | accountOpened _ => "Account opened"
  | lockingRows .. => "Locking account rows"
  | transferCommitted .. => "Transfer committed"
  | transferConflict .. => "Transfer conflict, retrying"
  | retriesExhausted .. => "Transfer conflict, retries exhausted"
  | transferRejected .. => "Transfer rejected"
  | deadlineExceeded _ => "Transfer deadline exceeded, rolled back"
  | transferCancelled _ => "Transfer cancelled, rolled back"
  | conflictRetried _ => "Conflict, retrying"
  | unitDiscarded .. => "Discarding uncommitted unit of work"
  | unitRolledBack => "Unit of work rolled back"
  | rollbackFailed _ => "Rollback failed"

/-- The two accounts of a movement. -/
def endpoints (m : Movement) : List (String × FieldValue) :=
  [("from", .number m.fromId), ("to", .number m.toId)]

/-- The accounts and the amount of a movement. -/
def whole (m : Movement) : List (String × FieldValue) :=
  endpoints m ++ [("amount", .number m.amount.units)]

/-- The fields of the event, by name. -/
def fields : Event → List (String × FieldValue)
  | accountOpened a =>
    [("account_id", .number a.id), ("owner", .text a.owner), ("currency", .text a.currency.code),
      ("balance", .number a.balance.units)]
  | lockingRows first second => [("first", .number first), ("second", .number second)]
  | transferCommitted id m attempt =>
    ("transfer_id", .number id) :: whole m ++ [("attempt", .number attempt)]
  | transferConflict m attempt | retriesExhausted m attempt =>
    whole m ++ [("attempt", .number attempt)]
  | transferRejected m attempt error =>
    whole m ++ [("attempt", .number attempt), ("error", .text error)]
  | deadlineExceeded m => whole m
  | transferCancelled m => endpoints m
  | conflictRetried attempt => [("attempt", .number attempt)]
  | unitDiscarded accounts entries transfers =>
    [("accounts", .number accounts), ("entries", .number entries),
      ("transfers", .number transfers)]
  | unitRolledBack => []
  | rollbackFailed error => [("error", .text error)]

end Event
end FundsLedger
