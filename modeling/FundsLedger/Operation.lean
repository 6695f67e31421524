import FundsLedger.Accounts
import FundsLedger.Inquiries
import FundsLedger.Script
import FundsLedger.Transfer.Execution

/-!
Everything that a client can ask of the ledger, as one type of operations with one type of answers.
An operation is a process together with the interrupts that may cut it short: the deadline of a
transfer and the moment at which its caller cancels it.
-/

namespace FundsLedger

/-- How long a transfer may take: as long as the engine allows, up to a deadline of its own, or up
to a moment at which the caller cancels it, if there is one. -/
inductive Limit where
  | usual
  | deadline (within : Duration)
  | cancel (after : Option Duration)
deriving DecidableEq

/-- Something that a client asks for. -/
inductive Operation where
  | openAccount (owner currency : String) (deposit : Amount)
  | getAccount (id : AccountId)
  | listAccounts (owner : String) (pageId pageSize : Int)
  | transfer (request : TransferRequest) (limit : Limit)
  | getTransfer (id : TransferId)
  | listTransfers (fromId toId : AccountId) (pageId pageSize : Int)
  | listEntries (accountId : AccountId) (pageId pageSize : Int)
  | reconcile (accountId : AccountId)
  | script (kind : FailureKind) (script : Script)

/-- What a client gets. -/
inductive Answer where
  | account (result : Except AccountError Account)
  | accounts (result : Except AccountError (List Account))
  | receipt (result : Except TransferError Receipt)
  | transfer (result : Except TransferError Transfer)
  | transfers (result : Except TransferError (List Transfer))
  | entries (result : Except TransferError (List Entry))
  | reconciliation (result : Except TransferError Reconciliation)
  | script (result : Except Failure (List (Noted Failure)))
  | call (answer : Answered)

/-- A moment at which a task is cut short, with what is reported and answered then. -/
structure Interrupt where
  due : Nat
  event : Event
  error : TransferError
deriving DecidableEq

/-- How the engine works: when it tries again, and how long a transfer may take. -/
structure Settings where
  policy : RetryPolicy
  timeout : Option Duration
deriving DecidableEq

namespace Operation

/-- The process that carries the operation out. -/
def process (policy : RetryPolicy) : Operation → Process Answer
  | openAccount owner currency deposit =>
    (Accounts.openAccount owner currency deposit).map .account
  | getAccount id => (Accounts.getAccount id).map .account
  | listAccounts owner pageId pageSize => (Accounts.listAccounts owner pageId pageSize).map .accounts
  | transfer request _ => (request.execute policy).map .receipt
  | getTransfer id => (Inquiries.getTransfer id).map .transfer
  | listTransfers fromId toId pageId pageSize =>
    (Inquiries.listTransfers fromId toId pageId pageSize).map .transfers
  | listEntries accountId pageId pageSize =>
    (Inquiries.listEntries accountId pageId pageSize).map .entries
  | reconcile accountId => (Inquiries.reconcile policy accountId).map .reconciliation
  | script kind s => (s.atomically kind).map .script

/-- A deadline for a movement of money. -/
def deadlineAt (m : Movement) (due : Nat) : Interrupt := ⟨due, .deadlineExceeded m, .deadlineExceeded⟩

/-- A cancellation of a movement of money. -/
def cancelAt (m : Movement) (due : Nat) : Interrupt := ⟨due, .transferCancelled m, .cancelled⟩

/-- The interrupts of an operation that starts now; of two that are due the earlier in the list
counts. -/
def interrupts (timeout : Option Duration) (now : Nat) : Operation → List Interrupt
  | transfer request limit =>
    let m := request.movement
    let usual := timeout.toList.map fun d => deadlineAt m (now + d.nanos)
    match limit with
    | .usual => usual
    | .deadline within => [deadlineAt m (now + within.nanos)]
    | .cancel after => usual ++ after.toList.map fun d => cancelAt m (now + d.nanos)
  | _ => []

end Operation
end FundsLedger
