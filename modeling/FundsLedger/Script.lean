import FundsLedger.AccountError
import FundsLedger.Process
import FundsLedger.Transfer.Error

/-!
Scripts: work given as a plain list of calls and a way to end. A script either stops at the first
call that fails or notes the failure and goes on.
-/

namespace FundsLedger

/-- How a script ends once its calls are made. -/
inductive Ending where
  | succeed
  | fail
  | panic
deriving DecidableEq, Repr

/-- Work given as a list of calls. -/
structure Script where
  calls : List Call
  keepGoing : Bool
  ending : Ending

/-- A call and how it ended, in terms of the kind of failure of the work that made it. -/
structure Noted (ε : Type) where
  call : Call
  result : Except ε call.Answer

namespace Script

variable {ε : Type} [OfStoreError ε]

/-- Makes the calls one after the other and notes their ends. -/
def making (keepGoing : Bool) : List Call → Work ε (List (Noted ε))
  | [] => pure []
  | c :: rest =>
    Work.call c fun r =>
      match r, keepGoing with
      | .error e, false => Work.fail (ofStoreError e)
      | r, _ => (making keepGoing rest).bind fun others =>
          pure (⟨c, r.mapError ofStoreError⟩ :: others)

/-- The work that the script stands for. -/
def work (s : Script) : Work ε (List (Noted ε)) :=
  (making s.keepGoing s.calls).bind fun noted =>
    match s.ending with
    | .succeed => pure noted
    | .fail => Work.fail (ofStoreError (.internal "requested"))
    | .panic => Work.panic "boom"

end Script

/-- A failure of any of the three kinds. -/
inductive Failure where
  | store (e : StoreError)
  | account (e : AccountError)
  | transfer (e : TransferError)
deriving DecidableEq

/-- The three kinds of failure. -/
inductive FailureKind where
  | store
  | account
  | transfer
deriving DecidableEq, Repr

namespace Script

/-- Takes the failures in a list of notes for failures of one of the three kinds. -/
def liftNotes {ε : Type} (lift : ε → Failure) (notes : List (Noted ε)) : List (Noted Failure) :=
  notes.map fun n => ⟨n.call, n.result.mapError lift⟩

/-- The result of a script in terms of failures of one of the three kinds. -/
def liftResult {ε : Type} (lift : ε → Failure) (r : Except ε (List (Noted ε))) :
    Except Failure (List (Noted Failure)) :=
  (r.mapError lift).map (liftNotes lift)

/-- Runs the script in a unit of work of its own. -/
def atomically (s : Script) : FailureKind → Process (Except Failure (List (Noted Failure)))
  | .store =>
    (s.work : Work StoreError (List (Noted StoreError))).atomically.map (liftResult .store)
  | .account =>
    (s.work : Work AccountError (List (Noted AccountError))).atomically.map (liftResult .account)
  | .transfer =>
    (s.work : Work TransferError (List (Noted TransferError))).atomically.map (liftResult .transfer)

end Script
end FundsLedger
