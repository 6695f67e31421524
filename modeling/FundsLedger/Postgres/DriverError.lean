import FundsLedger.StoreError

/-!
Failures of the database driver and what they mean for the ledger. A serialization failure or a
deadlock is a write conflict; a broken foreign key is a missing account; a broken uniqueness is an
account that exists already, which only the creation of an account asks about. Everything else is an
internal failure that keeps the driver's text.
-/

namespace FundsLedger.Postgres

/-- A failure of the database driver. -/
inductive DriverError where
  | database (text : String) (code constraint : Option String)
  | rowNotFound
  | poolTimedOut
  | poolClosed
  | workerCrashed
  | protocol (text : String)
  | columnNotFound (name : String)
  | columnOutOfBounds (index length : Nat)
  | columnDecode (name cause : String)
deriving DecidableEq, Repr

/-- One text occurs in another. -/
def occursIn (needle : List Char) : List Char → Bool
  | [] => needle.isEmpty
  | c :: rest => needle.isPrefixOf (c :: rest) || occursIn needle rest

namespace DriverError

/-- The text of the failure. -/
def message : DriverError → String
  | database text _ _ => s!"error returned from database: {text}"
  | rowNotFound => "no rows returned by a query that expected to return at least one row"
  | poolTimedOut => "pool timed out while waiting for an open connection"
  | poolClosed => "attempted to acquire a connection on a closed pool"
  | workerCrashed => "attempted to communicate with a crashed background worker"
  | protocol text => s!"encountered unexpected or invalid data: {text}"
  | columnNotFound name => s!"no column found for name: {name}"
  | columnOutOfBounds index length =>
    s!"column index out of bounds: the len is {length}, but the index is {index}"
  | columnDecode name cause => s!"error occurred while decoding column \"{name}\": {cause}"

/-- The SQLSTATE that the server gave. -/
def sqlState? : DriverError → Option String
  | database _ code _ => code
  | _ => none

/-- The server gave up on the transaction in favour of another one. -/
def IsConflict (e : DriverError) : Prop := e.sqlState? = some "40001" ∨ e.sqlState? = some "40P01"

instance (e : DriverError) : Decidable e.IsConflict := inferInstanceAs (Decidable (_ ∨ _))

/-- A uniqueness was violated. -/
def IsUniqueViolation (e : DriverError) : Prop := e.sqlState? = some "23505"

instance (e : DriverError) : Decidable e.IsUniqueViolation := inferInstanceAs (Decidable (_ = _))

/-- If a foreign key was violated, the name of its constraint, as far as it is known. -/
def foreignKey? : DriverError → Option (Option String)
  | database _ (some "23503") constraint => some constraint
  | _ => none

/-- What the failure means, given which account a violated foreign key stands for. -/
def translate (missing : Option String → AccountId) (e : DriverError) : StoreError :=
  if e.IsConflict then .conflict
  else
    match e.foreignKey? with
    | some constraint => .accountNotFound (missing constraint)
    | none => .internal e.message

/-- What the failure means where no foreign key can be violated. -/
def toStoreError (e : DriverError) : StoreError := e.translate fun _ => 0

/-- What the failure means for the entry or transfer that was to be inserted: the account of the
entry; of a transfer the destination if the constraint is on it, and the source otherwise. -/
def missingEndpoint (fromId toId : AccountId) : Option String → AccountId
  | some name => if occursIn "to_account".toList name.toList then toId else fromId
  | none => fromId

end DriverError
end FundsLedger.Postgres
