import FundsLedger.Ledger.Calls

/-!
How units of work begin and end. A commit either writes everything that is staged to the books in
one step or, if it fails, writes nothing; either way the unit of work is over, and so it is after a
rollback or when it is dropped.
-/

namespace FundsLedger.Ledger

/-- Opens a unit of work, and tells its number. -/
def begin (l : Ledger) : Ledger × UnitId :=
  let u : UnitId := l.begins + 1
  ({ l with begins := l.begins + 1, units := l.units.insert u UnitOfWork.fresh }, u)

/-- Commits what a unit of work has staged. Of the causes of failure the place at which the ledger
was told to fail comes first, then a conflict that was asked for, then an account whose owner and
currency another unit of work has committed in the meantime. -/
def commitUnit (l : Ledger) (u : UnitId) (w : UnitOfWork) : Ledger × Except StoreError Unit :=
  match l.injected? .commit with
  | some e => (l.close u, .error e)
  | none =>
    if 0 < l.conflicts then
      ({ l.close u with conflicts := l.conflicts - 1 }, .error .conflict)
    else
      match w.firstDuplicate? l.books with
      | some a => (l.close u, .error (.duplicateAccount a.owner a.currency.code))
      | none =>
        -- The rows are in the books before the next in line can look at them.
        ({ l.close u with books := w.publish l.books, commits := l.commits + 1 }, .ok ())

/-- Commits a unit of work; nothing if it is not open or waits in a call. -/
def commit? (l : Ledger) (u : UnitId) : Option (Ledger × Except StoreError Unit) :=
  match l.units.find? u with
  | none => none
  | some w => if w.pending.isSome then none else some (l.commitUnit u w)

/-- Rolls a unit of work back; nothing if it is not open or waits in a call. -/
def rollback? (l : Ledger) (u : UnitId) : Option (Ledger × Except StoreError Unit) :=
  match l.units.find? u with
  | none => none
  | some w => if w.pending.isSome then none else some (l.close u, .ok ())

/-- Drops a unit of work that was neither committed nor rolled back, and reports what it had
staged. -/
def abandon (l : Ledger) (u : UnitId) : Ledger × List Event :=
  match l.units.find? u with
  | none => (l, [])
  | some w =>
    (l.close u,
      if w.hasWrites then
        [.unitDiscarded w.accounts.rows.length w.entries.length w.transfers.length]
      else [])

end FundsLedger.Ledger
