import FundsLedger.Ledger.Ending

/-!
The ledger as a state machine. Any number of units of work share it, and a run is any sequence of
actions: there is no order that a run has to keep, and an action that makes no sense in a state
changes nothing.
-/

namespace FundsLedger.Ledger

/-- One step of the ledger. -/
inductive Action where
  | begin
  | call (u : UnitId) (c : Call)
  | resume (u : UnitId)
  | withdraw (u : UnitId)
  | commit (u : UnitId)
  | rollback (u : UnitId)
  | abandon (u : UnitId)
  | failAt (point : Option FailPoint)
  | injectConflicts (n : Nat)
  | setClock (now : Timestamp)
deriving DecidableEq

/-- The unit of work that a step concerns. -/
def Action.unit? : Action → Option UnitId
  | .call u _ | .resume u | .withdraw u | .commit u | .rollback u | .abandon u => some u
  | .begin | .failAt _ | .injectConflicts _ | .setClock _ => none

/-- What a step shows to whoever made it. -/
inductive Reply where
  | begun (u : UnitId)
  | answered (u : UnitId) (answer : Answered)
  | waiting (u : UnitId)
  | ended (u : UnitId) (result : Except StoreError Unit)
  | done
  | refused

/-- The reply to a call. -/
def Outcome.reply {c : Call} (u : UnitId) : Outcome c → Reply
  | .answered result => .answered u ⟨c, result⟩
  | .waits => .waiting u

/-- Takes one step. -/
def step (l : Ledger) : Action → Ledger × Reply
  | .begin => let (l', u) := l.begin; (l', .begun u)
  | .call u c =>
    match l.call? u c with
    | some (l', o) => (l', o.reply u)
    | none => (l, .refused)
  | .resume u =>
    match (l.units.find? u).bind (·.pending) with
    | none => (l, .refused)
    | some c =>
      match l.resume? u c with
      | some (l', o) => (l', o.reply u)
      | none => (l, .refused)
  | .withdraw u => (l.withdraw u, .done)
  | .commit u =>
    match l.commit? u with
    | some (l', r) => (l', .ended u r)
    | none => (l, .refused)
  | .rollback u =>
    match l.rollback? u with
    | some (l', r) => (l', .ended u r)
    | none => (l, .refused)
  | .abandon u => ((l.abandon u).1, .done)
  | .failAt point => (l.failAt point, .done)
  | .injectConflicts n => (l.injectConflicts n, .done)
  | .setClock now => (l.setClock now, .done)

/-- The state after a sequence of steps. -/
def run (l : Ledger) (actions : List Action) : Ledger :=
  actions.foldl (fun l a => (l.step a).1) l

/-- States that a ledger can come to from the start. -/
def Reachable (l : Ledger) : Prop := ∃ actions, l = empty.run actions

end FundsLedger.Ledger
