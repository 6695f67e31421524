import FundsLedger.Record
import FundsLedger.Table

/-!
The books: everything that has been committed. Other readers see the books and nothing else.
-/

namespace FundsLedger

/-- Puts a row into an ordered listing, before the rows with the same identifier. -/
def insertOrdered {α : Type} (id : α → Int) (row : α) : List α → List α
  | [] => [row]
  | r :: rest => if id row ≤ id r then row :: r :: rest else r :: insertOrdered id row rest

/-- The rows in ascending order of their identifiers; rows with one identifier keep their order. -/
def orderById {α : Type} (id : α → Int) (rows : List α) : List α :=
  rows.foldr (insertOrdered id) []

/-- The sum of the amounts, taken from left to right, if every partial sum is in range. -/
def Amount.sum? (start : Amount) : List Amount → Option Amount
  | [] => some start
  | a :: rest => (start.add? a).bind (fun s => Amount.sum? s rest)

/-- The committed accounts, entries and transfers, each under its identifier. -/
structure Books where
  accounts : Table Account
  entries : Table Entry
  transfers : Table Transfer
deriving DecidableEq

namespace Books

/-- Books in which nothing has been written. -/
def empty : Books := ⟨Table.empty, Table.empty, Table.empty⟩

/-- The entries on one account, by identifier. -/
def entriesOf (b : Books) (id : AccountId) : List Entry :=
  b.entries.values.filter (·.accountId = id)

/-- The transfers out of the first account or into the second, by identifier. -/
def transfersBetween (b : Books) (fromId toId : AccountId) : List Transfer :=
  b.transfers.values.filter (fun t => t.fromId = fromId ∨ t.toId = toId)

/-- The sum of all balances, in exact arithmetic. -/
def total (b : Books) : Int := b.accounts.values.foldr (fun a sum => a.balance.units + sum) 0

end Books
end FundsLedger
