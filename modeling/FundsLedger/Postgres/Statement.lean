import FundsLedger.Call

/-!
The SQL statements behind the calls on the stored ledger: their text, the values bound to them and
the columns that they return. Rows are locked with `FOR NO KEY UPDATE`, which does not stand in the
way of the key checks that inserting entries and transfers makes on the accounts they name.
-/

namespace FundsLedger.Postgres

/-- Types of columns, as far as they matter. -/
inductive ColumnType where
  | bigint
  | text
  | timestamptz
  | other (name : String)
deriving DecidableEq, Repr

/-- A column of a result. -/
structure Column where
  name : String
  type : ColumnType
deriving DecidableEq, Repr

/-- A value bound to a statement. -/
inductive Bound where
  | number (n : Int)
  | text (s : String)
deriving DecidableEq, Repr

/-- A statement, the values bound to it, and the columns of its result. -/
structure Statement where
  sql : String
  bound : List Bound
  columns : List Column
deriving DecidableEq, Repr

/-- How far transactions are kept apart. -/
inductive Isolation where
  | readCommitted
  | repeatableRead
  | serializable
deriving DecidableEq, Repr

namespace Isolation

/-- The level that holds unless another one is chosen. -/
def usual : Isolation := repeatableRead

/-- The name of the level in settings. -/
def name : Isolation → String
  | readCommitted => "read_committed"
  | repeatableRead => "repeatable_read"
  | serializable => "serializable"

/-- The level with that name. -/
def ofName? (name : String) : Option Isolation :=
  [readCommitted, repeatableRead, serializable].find? (·.name = name)

/-- The statement that sets the level for a transaction. -/
def sql : Isolation → String
  | readCommitted => "SET TRANSACTION ISOLATION LEVEL READ COMMITTED"
  | repeatableRead => "SET TRANSACTION ISOLATION LEVEL REPEATABLE READ"
  | serializable => "SET TRANSACTION ISOLATION LEVEL SERIALIZABLE"

end Isolation

/-- The column with the time at which a row was made. -/
def createdAt : Column := ⟨"created_at", .timestamptz⟩

/-- The columns of accounts. -/
def accountColumns : List Column :=
  [⟨"id", .bigint⟩, ⟨"owner", .text⟩, ⟨"balance", .bigint⟩, ⟨"currency", .text⟩, createdAt]

/-- The columns of entries. -/
def entryColumns : List Column :=
  [⟨"id", .bigint⟩, ⟨"account_id", .bigint⟩, ⟨"amount", .bigint⟩, createdAt]

/-- The columns of transfers. -/
def transferColumns : List Column :=
  [⟨"id", .bigint⟩, ⟨"from_account_id", .bigint⟩, ⟨"to_account_id", .bigint⟩, ⟨"amount", .bigint⟩,
    createdAt]

/-- Column names as they stand in a statement. -/
def listed (columns : List Column) : String := ", ".intercalate (columns.map (·.name))

/-- The statement that asks whether the server is there. -/
def healthCheck : Statement := ⟨"SELECT 1", [], []⟩

/-- The statement that carries a call out. -/
def statement : Call → Statement
  | .createAccount owner currency balance =>
    ⟨s!"INSERT INTO accounts (owner, balance, currency) VALUES ($1, $2, $3) RETURNING {listed accountColumns}",
      [.text owner, .number balance.units, .text currency.code], accountColumns⟩
  | .getAccount id =>
    ⟨s!"SELECT {listed accountColumns} FROM accounts WHERE id = $1", [.number id], accountColumns⟩
  | .getForUpdate id =>
    ⟨s!"SELECT {listed accountColumns} FROM accounts WHERE id = $1 FOR NO KEY UPDATE", [.number id],
      accountColumns⟩
  | .addBalance id delta =>
    ⟨s!"UPDATE accounts SET balance = balance + $1 WHERE id = $2 RETURNING {listed accountColumns}",
      [.number delta.units, .number id], accountColumns⟩
  | .listByOwner owner page =>
    ⟨s!"SELECT {listed accountColumns} FROM accounts WHERE owner = $1 ORDER BY id LIMIT $2 OFFSET $3",
      [.text owner, .number page.limit, .number page.offset], accountColumns⟩
  | .appendEntry accountId amount =>
    ⟨s!"INSERT INTO entries (account_id, amount) VALUES ($1, $2) RETURNING {listed entryColumns}",
      [.number accountId, .number amount.units], entryColumns⟩
  | .getEntry id =>
    ⟨s!"SELECT {listed entryColumns} FROM entries WHERE id = $1", [.number id], entryColumns⟩
  | .listEntries accountId page =>
    ⟨s!"SELECT {listed entryColumns} FROM entries WHERE account_id = $1 ORDER BY id LIMIT $2 OFFSET $3",
      [.number accountId, .number page.limit, .number page.offset], entryColumns⟩
  | .entrySum accountId =>
    ⟨"SELECT COALESCE(SUM(amount), 0)::BIGINT FROM entries WHERE account_id = $1",
      [.number accountId], [⟨"coalesce", .bigint⟩]⟩
  | .appendTransfer fromId toId amount =>
    ⟨s!"INSERT INTO transfers (from_account_id, to_account_id, amount) VALUES ($1, $2, $3) RETURNING {listed transferColumns}",
      [.number fromId, .number toId, .number amount.units], transferColumns⟩
  | .getTransfer id =>
    ⟨s!"SELECT {listed transferColumns} FROM transfers WHERE id = $1", [.number id], transferColumns⟩
  | .listTransfers fromId toId page =>
    ⟨s!"SELECT {listed transferColumns} FROM transfers WHERE from_account_id = $1 OR to_account_id = $2 ORDER BY id LIMIT $3 OFFSET $4",
      [.number fromId, .number toId, .number page.limit, .number page.offset], transferColumns⟩

end FundsLedger.Postgres
