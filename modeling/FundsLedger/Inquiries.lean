import FundsLedger.Retry

/-!
Questions about the ledger: single transfers, listings, and whether the balance of an account is the
sum of its entries.
-/

namespace FundsLedger

/-- The balance of an account beside the sum of its entries. -/
structure Reconciliation where
  accountId : AccountId
  balance : Amount
  entrySum : Amount
deriving DecidableEq

/-- The balance is the sum of the entries. -/
def Reconciliation.Consistent (r : Reconciliation) : Prop := r.balance = r.entrySum

instance (r : Reconciliation) : Decidable r.Consistent := inferInstanceAs (Decidable (_ = _))

namespace Inquiries

/-- Looks a transfer up. -/
def getTransfer (id : TransferId) : Process (Except TransferError Transfer) :=
  Work.atomically do
    match ← Work.ask (.getTransfer id) with
    | some transfer => return transfer
    | none => Work.fail (.transferNotFound id)

/-- Lists a page of the transfers out of the first account or into the second. -/
def listTransfers (fromId toId : AccountId) (pageId pageSize : Int) :
    Process (Except TransferError (List Transfer)) :=
  match Page.numbered pageId pageSize with
  | .error e => .done (.error (.ofValidation e))
  | .ok page =>
    (Work.ask (.listTransfers fromId toId page) : Work TransferError (List Transfer)).atomically

/-- Lists a page of the entries on an account, which has to exist. -/
def listEntries (accountId : AccountId) (pageId pageSize : Int) :
    Process (Except TransferError (List Entry)) :=
  match Page.numbered pageId pageSize with
  | .error e => .done (.error (.ofValidation e))
  | .ok page =>
    Work.atomically do
      let _ ← Work.ask (.getAccount accountId)
      Work.ask (.listEntries accountId page)

/-- Locks an account and puts its balance beside the sum of its entries. -/
def reconcileOnce (accountId : AccountId) : Work TransferError Reconciliation := do
  let account ← Work.ask (.getForUpdate accountId)
  let entrySum ← Work.ask (.entrySum accountId)
  return ⟨accountId, account.balance, entrySum⟩

/-- Reconciles an account, trying again after a conflict. -/
def reconcile (policy : RetryPolicy) (accountId : AccountId) :
    Process (Except TransferError Reconciliation) :=
  (policy.retry fun _ => (reconcileOnce accountId).atomically).map (·.result)

end Inquiries
end FundsLedger
