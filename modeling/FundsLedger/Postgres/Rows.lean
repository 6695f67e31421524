import FundsLedger.Postgres.DriverError
import FundsLedger.Postgres.Statement

/-!
Reading records from the rows of a result. Columns are found by name, and a value is taken only from
a column of the right type; of an account the currency is read first.
-/

namespace FundsLedger.Postgres

/-- A value in a row. -/
inductive SqlValue where
  | null
  | number (n : Int)
  | text (s : String)
  | time (t : Timestamp)
deriving DecidableEq

/-- A row: its columns with their values. -/
abbrev Row := List (Column × SqlValue)

namespace Row

/-- The column with that name and its value. -/
def cell (row : Row) (name : String) : Except DriverError (Column × SqlValue) :=
  match row.find? (·.1.name = name) with
  | some cell => .ok cell
  | none => .error (.columnNotFound name)

/-- The number in a cell. -/
def numberIn : Column × SqlValue → Except DriverError Int
  | (⟨_, .bigint⟩, .number n) => .ok n
  | (⟨name, .bigint⟩, .null) => .error (.columnDecode name "unexpected null")
  | (⟨name, _⟩, _) => .error (.columnDecode name "mismatched types")

/-- The number in a column. -/
def number (row : Row) (name : String) : Except DriverError Int := do
  numberIn (← row.cell name)

/-- The amount in a cell. -/
def amountIn (cell : Column × SqlValue) : Except DriverError Amount := do
  match Amount.ofInt? (← numberIn cell) with
  | some a => return a
  | none => throw (.columnDecode cell.1.name "out of range")

/-- The amount in a column. -/
def amount (row : Row) (name : String) : Except DriverError Amount := do
  amountIn (← row.cell name)

/-- The text in a column. -/
def text (row : Row) (name : String) : Except DriverError String := do
  match ← row.cell name with
  | (⟨_, .text⟩, .text s) => return s
  | (⟨_, .text⟩, .null) => throw (.columnDecode name "unexpected null")
  | _ => throw (.columnDecode name "mismatched types")

/-- The time in a column. -/
def time (row : Row) (name : String) : Except DriverError Timestamp := do
  match ← row.cell name with
  | (⟨_, .timestamptz⟩, .time t) => return t
  | (⟨_, .timestamptz⟩, .null) => throw (.columnDecode name "unexpected null")
  | _ => throw (.columnDecode name "mismatched types")

/-- A failure to read a column, as a failure of the store. -/
def lift {α : Type} (r : Except DriverError α) : Except StoreError α :=
  r.mapError DriverError.toStoreError

/-- The currency in a row; a code of the wrong form means that the table is damaged. -/
def currency (row : Row) : Except StoreError Currency := do
  let code ← lift (row.text "currency")
  (Currency.parse code).mapError fun e => .internal s!"corrupt currency column: {e.message}"

/-- The account in a row. -/
def account (row : Row) : Except StoreError Account := do
  let currency ← row.currency
  let id ← lift (row.number "id")
  let owner ← lift (row.text "owner")
  let balance ← lift (row.amount "balance")
  let createdAt ← lift (row.time "created_at")
  return ⟨id, owner, balance, currency, createdAt⟩

/-- The entry in a row. -/
def entry (row : Row) : Except StoreError Entry := do
  let id ← lift (row.number "id")
  let accountId ← lift (row.number "account_id")
  let amount ← lift (row.amount "amount")
  let createdAt ← lift (row.time "created_at")
  return ⟨id, accountId, amount, createdAt⟩

/-- The transfer in a row. -/
def transfer (row : Row) : Except StoreError Transfer := do
  let id ← lift (row.number "id")
  let fromId ← lift (row.number "from_account_id")
  let toId ← lift (row.number "to_account_id")
  let amount ← lift (row.amount "amount")
  let createdAt ← lift (row.time "created_at")
  return ⟨id, fromId, toId, amount, createdAt⟩

/-- The amount in the first column of a row. -/
def scalar : Row → Except StoreError Amount
  | [] => lift (.error (.columnOutOfBounds 0 0))
  | cell :: _ => lift (amountIn cell)

end Row
end FundsLedger.Postgres
