import FundsLedger.Page
import FundsLedger.Record
import FundsLedger.StoreError

/-!
The calls that a unit of work makes on the stored ledger, and what each one answers.
-/

namespace FundsLedger

/-- A call on the stored ledger from inside a unit of work. -/
inductive Call where
  | createAccount (owner : String) (currency : Currency) (balance : Amount)
  | getAccount (id : AccountId)
  | getForUpdate (id : AccountId)
  | addBalance (id : AccountId) (delta : Amount)
  | listByOwner (owner : String) (page : Page)
  | appendEntry (accountId : AccountId) (amount : Amount)
  | getEntry (id : EntryId)
  | listEntries (accountId : AccountId) (page : Page)
  | entrySum (accountId : AccountId)
  | appendTransfer (fromId toId : AccountId) (amount : Amount)
  | getTransfer (id : TransferId)
  | listTransfers (fromId toId : AccountId) (page : Page)
deriving DecidableEq

namespace Call

/-- What the call answers when it succeeds. -/
@[reducible] def Answer : Call → Type
  | createAccount .. => Account
  | getAccount _ => Account
  | getForUpdate _ => Account
  | addBalance .. => Account
  | listByOwner .. => List Account
  | appendEntry .. => Entry
  | getEntry _ => Option Entry
  | listEntries .. => List Entry
  | entrySum _ => Amount
  | appendTransfer .. => Transfer
  | getTransfer _ => Option Transfer
  | listTransfers .. => List Transfer

/-- How a call ends: with its answer or with a failure. -/
abbrev Result (c : Call) : Type := Except StoreError c.Answer

/-- The account whose row the call has to lock. -/
def row? : Call → Option AccountId
  | getForUpdate id => some id
  | addBalance id _ => some id
  | _ => none

end Call

/-- A call together with how it ended. -/
structure Answered where
  call : Call
  result : call.Result

end FundsLedger
