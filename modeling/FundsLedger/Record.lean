import FundsLedger.Amount
import FundsLedger.Currency
import FundsLedger.Timestamp

/-!
What the ledger keeps: accounts, entries (one signed movement on one account) and transfers (one
movement of money between two accounts).
-/

namespace FundsLedger

abbrev AccountId := Int
abbrev EntryId := Int
abbrev TransferId := Int

/-- An account: a balance in one currency that belongs to one owner. -/
structure Account where
  id : AccountId
  owner : String
  balance : Amount
  currency : Currency
  createdAt : Timestamp
deriving DecidableEq

/-- The balance is at least the amount. -/
def Account.CanCover (a : Account) (amount : Amount) : Prop := amount.units ≤ a.balance.units

instance (a : Account) (amount : Amount) : Decidable (a.CanCover amount) :=
  inferInstanceAs (Decidable (_ ≤ _))

/-- One signed movement on one account. -/
structure Entry where
  id : EntryId
  accountId : AccountId
  amount : Amount
  createdAt : Timestamp
deriving DecidableEq

/-- One movement of money from an account to another. -/
structure Transfer where
  id : TransferId
  fromId : AccountId
  toId : AccountId
  amount : Amount
  createdAt : Timestamp
deriving DecidableEq

end FundsLedger
