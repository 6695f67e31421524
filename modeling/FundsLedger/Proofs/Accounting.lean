import FundsLedger.Proofs.Conduct
import FundsLedger.Proofs.Ledger.Answers
import FundsLedger.Proofs.Movements

/-!
Rules of accounting. An entry may be appended only to an account whose row is locked, and only if
the entries on it stay within what a balance can be; and what is committed changes every balance by
the sum of the entries that go with it. Counters have to be in range, so that rows are what they
seem.
-/

namespace FundsLedger

open Ledger

namespace View

variable {v : View} {l : Ledger} {u : UnitId} {p : Option Call} {id : Int}

/-- The balance from which the entries on an account start: the committed one if the task has locked
the row of a committed account, and otherwise none. -/
def start (v : View) (id : AccountId) : Int :=
  match v.locked.find? id with
  | some (some a) => a.balance.units
  | _ => 0

/-- The balance that the account will have after a commit. -/
def balance (v : View) (id : AccountId) : Int :=
  match v.staged.accounts.find? id with
  | some a => a.balance.units
  | none => v.start id

/-- The call keeps the entries on an account within what a balance can be, if they start there. -/
def Permits (v : View) : Call → Prop
  | .appendEntry id amount =>
    (v.locked.find? id).isSome ∧
      (0 ≤ v.start id →
        0 ≤ v.start id + (v.staged.movements id).sum + amount.units ∧
        v.start id + (v.staged.movements id).sum + amount.units ≤ 9223372036854775807)
  | _ => True

/-- Every balance changes by the sum of the entries. -/
def Settled (v : View) : Prop :=
  ∀ id, v.balance id = v.start id + (v.staged.movements id).sum

/-- Who has staged nothing has changed no balance. -/
theorem settled_of_unstaged (h : v.staged = UnitOfWork.fresh) : v.Settled := by
  intro id
  simp [balance, h, UnitOfWork.fresh, UnitOfWork.movements, UnitOfWork.entriesOn]

/-- A staged account whose row the task has not locked is new. -/
theorem Fits.new_of_unlocked {a : Account} (h : v.Fits l u p) (hl : l.Lawful)
    (hr : l.drawn.InRange) (hs : v.staged.accounts.find? id = some a)
    (hunlocked : v.locked.find? id = none) : l.books.accounts.find? id = none := by
  have hstaged : (l.unit u).accounts.find? id = some a := by
    rw [h.unit_eq]
    exact hs
  rcases (hl.sound hr).owned u id a hstaged with hnew | hcovers
  · exact hnew.uncommitted
  · rcases h.asked id hcovers.holds.mem with hlocked | ⟨c, hc, hrow⟩
    · rw [hunlocked] at hlocked
      cases hlocked
    · have := (hl.sound hr).awaited u c id (by rw [h.unit_eq, hc]) hrow
      rw [hstaged] at this
      cases this

end View

/-- Every task that keeps these rules keeps the balances equal to the sums of the entries. -/
def Rules.accounting : Rules where
  relies l := l.drawn.InRange
  calls v c := v.Permits c
  commits v := v.Settled

theorem Rules.accounting.sound {v : View} {l : Ledger} {u : UnitId} {p : Option Call}
    (h : accounting.Finds v l u p) : l.Sound :=
  h.lawful.sound h.relied

/-- What a task has locked, it finds in the books. -/
theorem Rules.accounting.row {v : View} {l : Ledger} {u : UnitId} {p : Option Call} {id : Int}
    {a : Option Account} (h : accounting.Finds v l u p) (ha : v.locked.find? id = some a) :
    l.books.accounts.find? id = a :=
  h.fits.rows h.relied id a ha

end FundsLedger
