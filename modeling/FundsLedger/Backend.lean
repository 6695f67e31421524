import FundsLedger.Operation

/-!
Backends: stores that reply to every request at once. Whatever a store keeps is its state, and any
function from a state and a request to a reply is a store, so that what is shown of a process on an
arbitrary backend holds on every store there is.
-/

namespace FundsLedger

/-- A store that keeps a state of type `σ`. -/
structure Backend (σ : Type) where
  /-- The state after a request, and the reply to it. -/
  reply : σ → (r : Request) → σ × r.Reply
  /-- The state after the open unit of work has been dropped. -/
  abandon : σ → σ

/-- The store that refuses every request. -/
def Backend.refusing : Backend Unit where
  reply _ r := ((), match r with
    | .begin => .error (.internal "refused")
    | .call _ => .error (.internal "refused")
    | .commit => .error (.internal "refused")
    | .rollback => .error (.internal "refused"))
  abandon _ := ()

/-- A process that has run to its end: the state of the store, what was reported, and how it
ended. -/
structure Ran (σ α : Type) where
  state : σ
  events : List Event
  settled : Settled α

/-- Runs a process to its end. Sleeping takes no time. -/
def Process.runOn {σ α : Type} (b : Backend σ) (s : σ) : Process α → Ran σ α
  | done a => ⟨s, [], .answered a⟩
  | ask r next =>
    let (s', reply) := b.reply s r
    runOn b s' (next reply)
  | note event rest =>
    let ran := runOn b s rest
    { ran with events := event :: ran.events }
  | sleep _ rest => runOn b s rest
  | panic message => ⟨b.abandon s, [], .panicked message⟩

/-- Runs an operation to its end. The first request already takes time, so an interrupt that is due
at the start comes before it. -/
def Operation.runOn {σ : Type} (b : Backend σ) (settings : Settings) (s : σ) (op : Operation) :
    Ran σ Answer :=
  let process := op.process settings.policy
  match process, (op.interrupts settings.timeout 0).find? (·.due = 0) with
  | .ask .., some i => ⟨s, [i.event], .answered (.receipt (.error i.error))⟩
  | _, _ => process.runOn b s

end FundsLedger
