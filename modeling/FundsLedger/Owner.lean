import FundsLedger.Validation

/-!
Names of account owners: 3 to 100 characters, each an ASCII letter, a digit or an underscore.
The length is checked first.
-/

namespace FundsLedger.Owner

/-- A character that an owner's name may hold. -/
def allowed (c : Char) : Bool := c.isAlphanum || c == '_'

/-- Refuses a name of the wrong length or with a character that is not allowed. -/
def validate (owner : String) : Except ValidationError Unit :=
  let length := owner.toList.length
  if length < 3 ∨ 100 < length then
    .error (.invalidLength "owner" 3 100 length)
  else if owner.toList.all allowed then .ok ()
  else .error (.invalidFormat "owner" owner "letters, digits, underscore only")

end FundsLedger.Owner
