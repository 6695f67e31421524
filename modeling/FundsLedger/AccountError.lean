import FundsLedger.StoreError

/-!
Why a request about accounts fails, with a stable code for every cause.
-/

namespace FundsLedger

/-- A cause for the failure of a request about accounts. -/
inductive AccountError where
  | validation (cause : ValidationError)
  | notFound (id : AccountId)
  | duplicate (owner currency : String)
  | conflict
  | internal (text : String)
deriving DecidableEq, Repr

namespace AccountError

/-- The text shown for the cause. -/
def message : AccountError → String
  | validation cause => cause.message
  | notFound id => s!"Account {id} not found"
  | duplicate owner currency => s!"Owner '{owner}' already has a {currency} account"
  | conflict => "Write conflict, please retry"
  | internal text => s!"Internal error: {text}"

/-- The stable code of the cause. -/
def code : AccountError → String
  | validation _ => "INVALID_REQUEST"
  | notFound _ => "ACCOUNT_NOT_FOUND"
  | duplicate .. => "DUPLICATE_ACCOUNT"
  | conflict => "CONFLICT"
  | internal _ => "INTERNAL"

/-- A failure of the store, seen from a request about accounts. -/
def ofStore : StoreError → AccountError
  | .accountNotFound id => notFound id
  | .duplicateAccount owner currency => duplicate owner currency
  | .conflict => conflict
  | .internal text => internal text

instance : OfStoreError AccountError := ⟨ofStore⟩

end AccountError
end FundsLedger
