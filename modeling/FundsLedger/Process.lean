import FundsLedger.Work

/-!
Processes: what a client of the store does from its first request to its answer. A process opens
units of work, makes calls in them and ends each of them; between two units of work it may sleep.
Like work it is data, and leaves open what answers its requests and when.

`Work.atomically` is the one way from work to a process: the unit of work is committed if the work
succeeds, rolled back if it fails, and left alone if it panics.
-/

namespace FundsLedger

/-- A request to the store. -/
inductive Request where
  | begin
  | call (c : Call)
  | commit
  | rollback
deriving DecidableEq

/-- What the store replies to a request. -/
@[reducible] def Request.Reply : Request → Type
  | begin => Except StoreError Unit
  | call c => c.Result
  | commit => Except StoreError Unit
  | rollback => Except StoreError Unit

/-- What a client does until it has its answer. A sleep says how long it may last at most. -/
inductive Process (α : Type) : Type where
  | done (answer : α)
  | ask (request : Request) (next : request.Reply → Process α)
  | note (event : Event) (rest : Process α)
  | sleep (longest : Duration) (rest : Process α)
  | panic (message : String)

/-- How a process has ended. -/
inductive Settled (α : Type) where
  | answered (answer : α)
  | panicked (message : String)

namespace Process

variable {α β : Type}

/-- Goes on with the answer. -/
def bind : Process α → (α → Process β) → Process β
  | done a, f => f a
  | ask request next, f => ask request fun r => (next r).bind f
  | note event rest, f => note event (rest.bind f)
  | sleep longest rest, f => sleep longest (rest.bind f)
  | panic message, _ => panic message

/-- Changes the answer. -/
def map (f : α → β) (p : Process α) : Process β := p.bind fun a => done (f a)

end Process

namespace Work

variable {ε α : Type} [OfStoreError ε]

/-- Does the work in the unit of work that is open, and ends that. -/
def finishing : Work ε α → Process (Except ε α)
  | done (.ok a) =>
    .ask .commit fun
      | .ok () => .done (.ok a)
      | .error e => .done (.error (ofStoreError e))
  | done (.error e) =>
    .ask .rollback fun
      | .ok () => .note .unitRolledBack (.done (.error e))
      | .error e' => .note (.rollbackFailed e'.message) (.done (.error e))
  | call c next => .ask (.call c) fun r => (next r).finishing
  | note event rest => .note event rest.finishing
  | panic message => .panic message

/-- Does the work in a unit of work of its own. -/
def atomically (w : Work ε α) : Process (Except ε α) :=
  .ask .begin fun
    | .ok () => w.finishing
    | .error e => .done (.error (ofStoreError e))

end Work
end FundsLedger
