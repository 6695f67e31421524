import FundsLedger.AccountError
import FundsLedger.Owner
import FundsLedger.Process

/-!
Opening accounts and looking them up. A new account starts with its opening deposit; a deposit other
than zero is an entry written in the same unit of work, so the account reconciles from the start.
-/

namespace FundsLedger.Accounts

/-- The work of opening an account. -/
def openingWork (owner : String) (currency : Currency) (deposit : Amount) :
    Work AccountError Account := do
  let account ← Work.ask (.createAccount owner currency Amount.zero)
  if deposit.units = 0 then
    return account
  else
    let funded ← Work.ask (.addBalance account.id deposit)
    -- The entry goes to the account that the store has credited, whichever it says that is.
    let _ ← Work.ask (.appendEntry funded.id deposit)
    return funded

/-- Checks the arguments for a new account: owner, form of the currency, whether it is supported,
and the deposit. -/
def checkOpening (owner currency : String) (deposit : Amount) :
    Except ValidationError Currency := do
  Owner.validate owner
  let currency ← Currency.parse currency
  currency.ensureSupported
  if deposit.units < 0 then
    throw (.invalidFormat "initial_deposit" (toString deposit.units) "a non-negative amount")
  return currency

/-- Opens an account with a deposit. -/
def openAccount (owner currency : String) (deposit : Amount) :
    Process (Except AccountError Account) :=
  match checkOpening owner currency deposit with
  | .error e => .done (.error (.validation e))
  | .ok currency =>
    (openingWork owner currency deposit).atomically.bind fun
      | .ok account => .note (.accountOpened account) (.done (.ok account))
      | .error e => .done (.error e)

/-- Looks an account up. -/
def getAccount (id : AccountId) : Process (Except AccountError Account) :=
  (Work.ask (.getAccount id) : Work AccountError Account).atomically

/-- Lists a page of the accounts of an owner. -/
def listAccounts (owner : String) (pageId pageSize : Int) :
    Process (Except AccountError (List Account)) :=
  match Page.numbered pageId pageSize with
  | .error e => .done (.error (.validation e))
  | .ok page => (Work.ask (.listByOwner owner page) : Work AccountError (List Account)).atomically

end FundsLedger.Accounts
