import FundsLedger.Retry
import FundsLedger.Transfer.Order

/-!
Executing a transfer. One attempt is one unit of work: it locks both rows in ascending order of
their identifiers, checks currencies, funds and room for the credit, changes both balances, and
appends two entries and the transfer. After a conflict the whole attempt is made again.
-/

namespace FundsLedger

/-- What a transfer has written, and the two accounts after it. -/
structure Receipt where
  transfer : Transfer
  fromEntry : Entry
  toEntry : Entry
  fromAccount : Account
  toAccount : Account
deriving DecidableEq

/-- Two identifiers, the smaller one first. -/
def lockOrder (a b : AccountId) : AccountId × AccountId := if a ≤ b then (a, b) else (b, a)

namespace TransferOrder

/-- The account is kept in the currency of the order. -/
def requireCurrency (o : TransferOrder) (a : Account) : Work TransferError Unit :=
  Work.require (a.currency = o.currency) (.currencyMismatch a.id o.currency a.currency)

/-- One attempt at the transfer. -/
def attempt (o : TransferOrder) : Work TransferError Receipt := do
  let (first, second) := lockOrder o.fromId o.toId
  Work.report (.lockingRows first second)
  let firstAccount ← Work.ask (.getForUpdate first)
  let secondAccount ← Work.ask (.getForUpdate second)
  let (source, destination) :=
    if first = o.fromId then (firstAccount, secondAccount) else (secondAccount, firstAccount)
  o.requireCurrency source
  o.requireCurrency destination
  Work.require (source.CanCover o.amount) (.insufficientFunds o.fromId source.balance o.amount)
  Work.require (destination.balance.add? o.amount).isSome
    (.invalidRequest s!"credit would overflow balance of account {o.toId}")
  let fromAccount ← Work.ask (.addBalance o.fromId o.amount.neg)
  let toAccount ← Work.ask (.addBalance o.toId o.amount)
  let fromEntry ← Work.ask (.appendEntry o.fromId o.amount.neg)
  let toEntry ← Work.ask (.appendEntry o.toId o.amount)
  let transfer ← Work.ask (.appendTransfer o.fromId o.toId o.amount)
  return { transfer, fromEntry, toEntry, fromAccount, toAccount }

/-- Attempt number `attempt` at the transfer and, after a conflict, up to `left` further ones. -/
def executeFrom (o : TransferOrder) (policy : RetryPolicy) (attempt : Nat) :
    (left : Nat) → Process (Except TransferError Receipt)
  | 0 =>
    o.attempt.atomically.bind fun
      | .ok receipt =>
        .note (.transferCommitted receipt.transfer.id o.toMovement attempt) (.done (.ok receipt))
      | .error e =>
        if e.retryable then
          .note (.retriesExhausted o.toMovement attempt) (.done (.error (.conflict attempt)))
        else .note (.transferRejected o.toMovement attempt e.message) (.done (.error e))
  | left + 1 =>
    o.attempt.atomically.bind fun
      | .ok receipt =>
        .note (.transferCommitted receipt.transfer.id o.toMovement attempt) (.done (.ok receipt))
      | .error e =>
        if e.retryable then
          .note (.transferConflict o.toMovement attempt)
            (.sleep (policy.ceiling attempt) (o.executeFrom policy (attempt + 1) left))
        else .note (.transferRejected o.toMovement attempt e.message) (.done (.error e))

end TransferOrder

/-- Executes a request for a transfer: a request of the wrong form is refused before any unit of
work is opened. -/
def TransferRequest.execute (r : TransferRequest) (policy : RetryPolicy) :
    Process (Except TransferError Receipt) :=
  match r.validate with
  | .ok order => order.executeFrom policy 1 (policy.maxAttempts - 1)
  | .error e => .done (.error e)

end FundsLedger
