import FundsLedger.Record

/-!
Why a call on the stored ledger fails. Of the causes only a write conflict is worth another attempt.
-/

namespace FundsLedger

/-- A cause for the failure of a call on the stored ledger. -/
inductive StoreError where
  | accountNotFound (id : AccountId)
  | duplicateAccount (owner currency : String)
  | conflict
  | internal (text : String)
deriving DecidableEq, Repr

namespace StoreError

/-- The text shown for the cause. -/
def message : StoreError → String
  | accountNotFound id => s!"Account {id} not found"
  | duplicateAccount owner currency =>
    s!"Account already exists for owner '{owner}' in {currency}"
  | conflict => "Write conflict, transaction must be retried"
  | internal text => s!"Storage error: {text}"

/-- Another attempt may succeed. -/
def retryable : StoreError → Bool
  | conflict => true
  | _ => false

end StoreError

/-- Kinds of failure that a failure of the store turns into. -/
class OfStoreError (ε : Type) where
  ofStoreError : StoreError → ε

export OfStoreError (ofStoreError)

instance : OfStoreError StoreError := ⟨id⟩

end FundsLedger
