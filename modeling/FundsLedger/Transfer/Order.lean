import FundsLedger.Event
import FundsLedger.Transfer.Error

/-!
Requests for transfers. What a caller asks for is a `TransferRequest`; once its form has been
checked it is a `TransferOrder`, which names two different accounts, a positive amount and a
currency.
-/

namespace FundsLedger

/-- A transfer as it is asked for. -/
structure TransferRequest where
  fromId : AccountId
  toId : AccountId
  amount : Amount
  currency : String
deriving DecidableEq

/-- A transfer whose form is right. -/
structure TransferOrder extends Movement where
  currency : Currency
  fromId_pos : 1 ≤ fromId
  toId_pos : 1 ≤ toId
  distinct : fromId ≠ toId
  amount_pos : 0 < amount.units
deriving DecidableEq

/-- The movement of money that a request asks for. -/
def TransferRequest.movement (r : TransferRequest) : Movement := ⟨r.fromId, r.toId, r.amount⟩

/-- Checks the form of a request: the identifiers, that they differ, the amount, the currency. -/
def TransferRequest.validate (r : TransferRequest) : Except TransferError TransferOrder :=
  if hIds : 1 ≤ r.fromId ∧ 1 ≤ r.toId then
    if hDistinct : r.fromId ≠ r.toId then
      if hAmount : 0 < r.amount.units then
        match Currency.parse r.currency with
        | .ok currency =>
          .ok ⟨r.movement, currency, hIds.1, hIds.2, hDistinct, hAmount⟩
        | .error e => .error (.ofValidation e)
      else .error (.invalidRequest s!"amount must be positive, got {r.amount.units}")
    else .error (.invalidRequest "source and destination accounts must differ")
  else .error (.invalidRequest "account ids must be positive")

end FundsLedger
