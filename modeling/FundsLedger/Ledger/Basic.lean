import FundsLedger.Event
import FundsLedger.UnitOfWork

/-!
The ledger in memory: the books, the open units of work, the row locks and what the ledger counts.

Row locks are exclusive and fair. All requests stand in one list in the order in which they were
made; of the requests for one row the first holds the lock, and the others wait behind it. Taking a
request out, whether it holds or waits, hands the lock on to the next request at once.
-/

namespace FundsLedger

/-- A place at which the ledger can be told to fail. -/
inductive FailPoint where
  | addBalance
  | appendEntry
  | appendTransfer
  | commit
deriving DecidableEq, Repr

/-- The name of the place. -/
def FailPoint.name : FailPoint → String
  | addBalance => "AddBalance"
  | appendEntry => "AppendEntry"
  | appendTransfer => "AppendTransfer"
  | commit => "Commit"

/-- How many identifiers of each kind have been given out. -/
structure Drawn where
  accounts : Nat
  entries : Nat
  transfers : Nat
deriving DecidableEq, Repr

/-- The identifier given out after so many others: they are counted from 1 in a 64-bit word. -/
def idAfter (drawn : Nat) : Int := wrap64 (drawn + 1)

/-- A unit of work asks for the lock on the row of an account. -/
structure LockRequest where
  unit : UnitId
  row : AccountId
deriving DecidableEq, Repr

/-- The state of a ledger in memory. -/
structure Ledger where
  books : Books
  drawn : Drawn
  failPoint : Option FailPoint
  conflicts : Nat
  begins : Nat
  commits : Nat
  clock : Timestamp
  units : Table UnitOfWork
  requests : List LockRequest
deriving DecidableEq

namespace Ledger

/-- A ledger in which nothing has happened. -/
def empty : Ledger where
  books := Books.empty
  drawn := ⟨0, 0, 0⟩
  failPoint := none
  conflicts := 0
  begins := 0
  commits := 0
  clock := Timestamp.epoch
  units := Table.empty
  requests := []

/-- The unit of work that holds the lock on the row. -/
def holder? (l : Ledger) (row : AccountId) : Option UnitId :=
  (l.requests.find? (·.row = row)).map (·.unit)

/-- The unit of work holds the lock on the row. -/
def Holds (l : Ledger) (u : UnitId) (row : AccountId) : Prop := l.holder? row = some u

instance (l : Ledger) (u : UnitId) (row : AccountId) : Decidable (l.Holds u row) :=
  inferInstanceAs (Decidable (_ = _))

/-- The unit of work has asked for the lock on the row, and another one holds it. -/
def Waits (l : Ledger) (u : UnitId) (row : AccountId) : Prop :=
  ⟨u, row⟩ ∈ l.requests ∧ ¬ l.Holds u row

instance (l : Ledger) (u : UnitId) (row : AccountId) : Decidable (l.Waits u row) :=
  inferInstanceAs (Decidable (_ ∧ _))

/-- Asks for the lock on the row; a second request of one unit of work changes nothing. -/
def request (l : Ledger) (u : UnitId) (row : AccountId) : Ledger :=
  if ⟨u, row⟩ ∈ l.requests then l else { l with requests := l.requests ++ [⟨u, row⟩] }

/-- Ends a unit of work: what it staged is gone, and its locks go to the next in line. -/
def close (l : Ledger) (u : UnitId) : Ledger :=
  { l with units := l.units.erase u, requests := l.requests.filter (·.unit ≠ u) }

/-- Makes calls at the place fail from now on, or none. -/
def failAt (l : Ledger) (point : Option FailPoint) : Ledger := { l with failPoint := point }

/-- Makes the next `n` commits fail with a conflict. -/
def injectConflicts (l : Ledger) (n : Nat) : Ledger := { l with conflicts := n }

/-- Sets the clock from which new rows take their time. -/
def setClock (l : Ledger) (now : Timestamp) : Ledger := { l with clock := now }

/-- The failure at a place, if the ledger has been told to fail there. -/
def injected? (l : Ledger) (point : FailPoint) : Option StoreError :=
  if l.failPoint = some point then some (.internal s!"injected failure at {point.name}") else none

end Ledger
end FundsLedger
