import FundsLedger.Backend
import FundsLedger.Postgres.Rows

/-!
The ledger in a database. Each unit of work is one transaction at the chosen isolation level, each
call is one statement, and the server may answer any statement in any way. A transaction that is
left open, because setting its level, its commit or its rollback failed or because it was dropped,
is rolled back on the way out.
-/

namespace FundsLedger.Postgres

/-- A server that keeps a state of type `σ`: what it becomes by a statement, and what it answers. -/
structure Server (σ : Type) where
  answer : σ → Statement → σ × Except DriverError (List Row)

/-- A connection: the state of the server and the statements that it has received, latest first. -/
structure Connection (σ : Type) where
  state : σ
  received : List Statement

/-- A statement without values or results. -/
def command (sql : String) : Statement := ⟨sql, [], []⟩

variable {σ : Type}

/-- Sends a statement. -/
def Server.send (server : Server σ) (c : Connection σ) (st : Statement) :
    Connection σ × Except DriverError (List Row) :=
  let (state, answer) := server.answer c.state st
  (⟨state, st :: c.received⟩, answer)

/-- Rolls back a transaction that is left open; how that ends does not matter any more. -/
def Server.leave (server : Server σ) (c : Connection σ) : Connection σ :=
  (server.send c (command "ROLLBACK")).1

/-- Sends a command that ends a transaction or sets it up; if it fails, the transaction is left. -/
def Server.control (server : Server σ) (c : Connection σ) (sql : String) :
    Connection σ × Except StoreError Unit :=
  match server.send c (command sql) with
  | (c', .ok _) => (c', .ok ())
  | (c', .error e) => (server.leave c', .error e.toStoreError)

/-- Begins a transaction at the isolation level. -/
def Server.begin (server : Server σ) (isolation : Isolation) (c : Connection σ) :
    Connection σ × Except StoreError Unit :=
  match server.send c (command "BEGIN") with
  | (c', .error e) => (c', .error e.toStoreError)
  | (c', .ok _) => server.control c' isolation.sql

/-- The first row of a result that must have one. -/
def firstRow (rows : List Row) : Except DriverError Row :=
  match rows with
  | [] => .error .rowNotFound
  | row :: _ => .ok row

/-- The account in the first row; without a row the account does not exist. -/
def foundAccount (id : AccountId) (rows : Except DriverError (List Row)) :
    Except StoreError Account := do
  match ← Row.lift rows with
  | [] => throw (.accountNotFound id)
  | row :: _ => row.account

/-- What the result of its statement means for a call. -/
def interpret : (c : Call) → Except DriverError (List Row) → c.Result
  | .createAccount owner currency _, rows => do
    let row ← (rows.bind firstRow).mapError fun e =>
      if e.IsUniqueViolation then .duplicateAccount owner currency.code else e.toStoreError
    Row.account row
  | .getAccount id, rows => foundAccount id rows
  | .getForUpdate id, rows => foundAccount id rows
  | .addBalance id _, rows => foundAccount id rows
  | .listByOwner .., rows => do (← Row.lift rows).mapM Row.account
  | .appendEntry accountId _, rows => do
    let row ← (rows.bind firstRow).mapError (·.translate fun _ => accountId)
    Row.entry row
  | .getEntry _, rows => do (← Row.lift rows).head?.mapM Row.entry
  | .listEntries .., rows => do (← Row.lift rows).mapM Row.entry
  | .entrySum _, rows => do Row.scalar (← Row.lift (rows.bind firstRow))
  | .appendTransfer fromId toId _, rows => do
    let row ← (rows.bind firstRow).mapError
      (·.translate (DriverError.missingEndpoint fromId toId))
    Row.transfer row
  | .getTransfer _, rows => do (← Row.lift rows).head?.mapM Row.transfer
  | .listTransfers .., rows => do (← Row.lift rows).mapM Row.transfer

/-- The store on a server. -/
def store (server : Server σ) (isolation : Isolation) : Backend (Connection σ) where
  reply c
    | .begin => server.begin isolation c
    | .call call =>
      -- A statement that fails leaves the transaction open: the work decides how it ends.
      let (c', rows) := server.send c (statement call)
      (c', interpret call rows)
    | .commit => server.control c "COMMIT"
    | .rollback => server.control c "ROLLBACK"
  abandon := server.leave

/-- Asks whether the server is there. -/
def checkHealth (server : Server σ) (c : Connection σ) :
    Connection σ × Except DriverError Unit :=
  let (c', answer) := server.send c healthCheck
  (c', answer.map fun _ => ())

end FundsLedger.Postgres
