import FundsLedger.Books
import FundsLedger.Call

/-!
Units of work. What a unit of work writes is staged in it and reaches the books in one step at its
commit; until then it alone sees these rows, over those of the books.
-/

namespace FundsLedger

/-- The number of a unit of work: they are counted from 1 in the order in which they begin. -/
abbrev UnitId := Int

/-- An open unit of work: the rows that it has staged and, while it waits for a row lock, the call
that has to wait. -/
structure UnitOfWork where
  accounts : Table Account
  entries : List Entry
  transfers : List Transfer
  pending : Option Call
deriving DecidableEq

namespace UnitOfWork

/-- A unit of work that has done nothing yet. -/
def fresh : UnitOfWork := ⟨Table.empty, [], [], none⟩

/-- Something is staged. -/
def hasWrites (w : UnitOfWork) : Bool :=
  !(w.accounts.rows.isEmpty && w.entries.isEmpty && w.transfers.isEmpty)

/-- The account as the unit of work sees it. -/
def visible? (w : UnitOfWork) (b : Books) (id : AccountId) : Option Account :=
  (w.accounts.find? id).or (b.accounts.find? id)

/-- Another account, in the books or staged here, has the same owner and currency. -/
def isDuplicate (w : UnitOfWork) (b : Books) (candidate : Account) : Bool :=
  (b.accounts.values ++ w.accounts.values).any fun a =>
    a.id ≠ candidate.id ∧ a.owner = candidate.owner ∧ a.currency = candidate.currency

/-- The accounts of an owner as the unit of work sees them, by identifier. -/
def accountsOf (w : UnitOfWork) (b : Books) (owner : String) : List Account :=
  ((b.accounts.filter (·.owner = owner)).overlay (w.accounts.filter (·.owner = owner))).values

/-- The entries on an account as the unit of work sees them, by identifier. -/
def entriesOf (w : UnitOfWork) (b : Books) (id : AccountId) : List Entry :=
  orderById Entry.id (b.entriesOf id ++ w.entries.filter (·.accountId = id))

/-- The transfers out of the first account or into the second as the unit of work sees them, by
identifier. -/
def transfersBetween (w : UnitOfWork) (b : Books) (fromId toId : AccountId) : List Transfer :=
  orderById Transfer.id (b.transfersBetween fromId toId ++
    w.transfers.filter (fun t => t.fromId = fromId ∨ t.toId = toId))

/-- The entry as the unit of work sees it. -/
def entry? (w : UnitOfWork) (b : Books) (id : EntryId) : Option Entry :=
  (w.entries.find? (·.id = id)).or (b.entries.find? id)

/-- The transfer as the unit of work sees it. -/
def transfer? (w : UnitOfWork) (b : Books) (id : TransferId) : Option Transfer :=
  (w.transfers.find? (·.id = id)).or (b.transfers.find? id)

/-- The sum of the entries on an account: those of the books by identifier, then those staged here
in the order in which they were appended; nothing if a partial sum leaves the range. -/
def entrySum? (w : UnitOfWork) (b : Books) (id : AccountId) : Option Amount :=
  Amount.sum? Amount.zero ((b.entriesOf id).map (·.amount) ++
    (w.entries.filter (·.accountId = id)).map (·.amount))

/-- The books after everything staged has been written over them. -/
def publish (w : UnitOfWork) (b : Books) : Books where
  accounts := b.accounts.overlay w.accounts
  entries := w.entries.foldl (fun t e => t.insert e.id e) b.entries
  transfers := w.transfers.foldl (fun t x => t.insert x.id x) b.transfers

/-- The first account created here whose owner and currency another account has by now. -/
def firstDuplicate? (w : UnitOfWork) (b : Books) : Option Account :=
  w.accounts.values.find? fun a => !b.accounts.contains a.id && w.isDuplicate b a

end UnitOfWork
end FundsLedger
