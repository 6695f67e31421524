/-!
Why an argument is refused before any account is touched. Each cause carries what its message
quotes; the wording is in `ValidationError.message` alone.
-/

namespace FundsLedger

/-- A cause for refusing an argument. -/
inductive ValidationError where
  | invalidCurrency (code : String)
  | unsupportedCurrency (code : String)
  | invalidLength (field : String) (min max actual : Nat)
  | invalidFormat (field value expected : String)
  | invalidPageId (pageId : Int)
  | invalidPageSize (pageSize : Int)
deriving DecidableEq, Repr

/-- The text shown for the cause. -/
def ValidationError.message : ValidationError → String
  | invalidCurrency code => s!"Invalid currency code '{code}' (expected 3 uppercase letters)"
  | unsupportedCurrency code => s!"Unsupported currency '{code}'"
  | invalidLength field min max actual =>
    s!"Invalid length for {field}: expected {min}-{max}, got {actual}"
  | invalidFormat field value expected =>
    s!"Invalid format for {field}: '{value}' (expected: {expected})"
  | invalidPageId pageId => s!"page_id must be >= 1, got {pageId}"
  | invalidPageSize pageSize => s!"page_size must be between 5 and 10, got {pageSize}"

end FundsLedger
