import FundsLedger.Call
import FundsLedger.Event

/-!
Work to be done inside one unit of work, as data: what to call next given every answer so far, and
how it ends. Nothing here says what the calls are made on, so one piece of work runs on the ledger
in memory, on a database, and on anything else that answers calls.
-/

namespace FundsLedger

/-- A piece of work that ends with a result or a failure of its own kind. -/
inductive Work (ε α : Type) : Type where
  | done (result : Except ε α)
  | call (c : Call) (next : c.Result → Work ε α)
  | note (event : Event) (rest : Work ε α)
  | panic (message : String)

namespace Work

variable {ε α β : Type}

/-- Goes on with the result; a failure ends the work. -/
def bind : Work ε α → (α → Work ε β) → Work ε β
  | done (.ok a), f => f a
  | done (.error e), _ => done (.error e)
  | call c next, f => call c fun r => (next r).bind f
  | note event rest, f => note event (rest.bind f)
  | panic message, _ => panic message

instance : Monad (Work ε) where
  pure a := done (.ok a)
  bind := bind

/-- Ends the work with a failure. -/
def fail (e : ε) : Work ε α := done (.error e)

/-- Goes on if the condition holds, and ends with the failure otherwise. -/
def require (condition : Prop) [Decidable condition] (e : ε) : Work ε Unit :=
  if condition then pure () else fail e

/-- Reports an event. -/
def report (event : Event) : Work ε Unit := note event (pure ())

/-- Makes a call; if it fails, the work ends with that failure. -/
def ask [OfStoreError ε] (c : Call) : Work ε c.Answer :=
  call c fun r => done (r.mapError ofStoreError)

/-- Makes a call and goes on however it ends. -/
def attempt (c : Call) : Work ε c.Result := call c fun r => done (.ok r)

end Work
end FundsLedger
