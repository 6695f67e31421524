import FundsLedger.StoreError

/-!
Why a transfer, or a question about transfers, fails. Each cause has a stable code; a conflict alone
is worth another attempt.
-/

namespace FundsLedger

/-- A cause for the failure of a transfer or of a question about transfers. -/
inductive TransferError where
  | invalidRequest (text : String)
  | accountNotFound (id : AccountId)
  | currencyMismatch (id : AccountId) (expected actual : Currency)
  | insufficientFunds (id : AccountId) (available requested : Amount)
  | conflict (attempts : Nat)
  | deadlineExceeded
  | cancelled
  | transferNotFound (id : TransferId)
  | internal (text : String)
deriving DecidableEq

namespace TransferError

/-- The text shown for the cause. -/
def message : TransferError → String
  | invalidRequest text => s!"Invalid request: {text}"
  | accountNotFound id => s!"Account {id} not found"
  | currencyMismatch id expected actual =>
    s!"Account [{id}] currency mismatch: {actual.code} vs {expected.code}"
  | insufficientFunds id available requested =>
    s!"Account [{id}] has insufficient funds: available {available.units}, requested {requested.units}"
  | conflict attempts => s!"Transfer aborted after {attempts} conflicting attempt(s)"
  | deadlineExceeded => "Transfer deadline exceeded"
  | cancelled => "Transfer cancelled by caller"
  | transferNotFound id => s!"Transfer {id} not found"
  | internal text => s!"Internal error: {text}"

/-- The stable code of the cause. -/
def code : TransferError → String
  | invalidRequest _ => "INVALID_REQUEST"
  | accountNotFound _ => "ACCOUNT_NOT_FOUND"
  | currencyMismatch .. => "CURRENCY_MISMATCH"
  | insufficientFunds .. => "INSUFFICIENT_FUNDS"
  | conflict _ => "CONFLICT"
  | deadlineExceeded => "DEADLINE_EXCEEDED"
  | cancelled => "CANCELLED"
  | transferNotFound _ => "TRANSFER_NOT_FOUND"
  | internal _ => "INTERNAL"

/-- Another attempt may succeed. -/
def retryable : TransferError → Bool
  | conflict _ => true
  | _ => false

/-- A failure of the store, seen from a transfer. -/
def ofStore : StoreError → TransferError
  | .accountNotFound id => accountNotFound id
  | .conflict => conflict 1
  | e => internal e.message

/-- A refused argument, seen from a transfer. -/
def ofValidation (e : ValidationError) : TransferError := invalidRequest e.message

instance : OfStoreError TransferError := ⟨ofStore⟩

end TransferError
end FundsLedger
