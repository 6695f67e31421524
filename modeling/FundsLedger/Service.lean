import FundsLedger.Ledger.Step
import FundsLedger.Operation

/-!
A service: many clients over one ledger in memory. Each operation runs as a task, and tasks take
turns at the level of single requests to the ledger, in any order.

`Service.advance` lets a task take one step. `Service.poll` lets it go on until it ends or has to
wait for a row lock, and only then looks at its interrupts: a task past its deadline that can go on
goes on.
-/

namespace FundsLedger

namespace Ledger

/-- How the ledger responds to a request of a task: what it is afterwards, the unit of work that the
task has open, and the reply; without a reply the task has to wait. -/
structure Response (r : Request) where
  ledger : Ledger
  unit : Option UnitId
  reply : Option r.Reply

/-- The response to a request that ends the unit of work. -/
def endingResponse {r : Request} (l : Ledger) (unit : Option UnitId)
    (ended : Option (Ledger × r.Reply)) : Response r :=
  match ended with
  | some (l', reply) => ⟨l', none, some reply⟩
  | none => ⟨l, unit, none⟩

/-- Responds to a request. A call that has already been made and waits is gone on with. -/
def respond (l : Ledger) (unit : Option UnitId) : (r : Request) → Response r
  | .begin => let (l', u) := l.begin; ⟨l', some u, some (.ok ())⟩
  | .call c =>
    -- Only one of the two can answer: a unit of work that waits cannot start a call.
    match unit.bind fun u => (l.resume? u c).or (l.call? u c) with
    | some (l', .answered result) => ⟨l', unit, some result⟩
    | some (l', .waits) => ⟨l', unit, none⟩
    | none => ⟨l, unit, none⟩
  | .commit => endingResponse l unit (unit.bind fun u => l.commit? u)
  | .rollback => endingResponse l unit (unit.bind fun u => l.rollback? u)

/-- Drops the unit of work that a task has open. -/
def abandonAny (l : Ledger) : Option UnitId → Ledger × List Event
  | some u => l.abandon u
  | none => (l, [])

end Ledger

/-- Where a process stands: it has ended, or it can go on later. -/
inductive Standing (α : Type) where
  | settled (how : Settled α)
  | suspended (process : Process α)

/-- A process after some time: the ledger, the unit of work that it has open, what it reported on
the way, and where it stands. -/
structure Moved (α : Type) where
  ledger : Ledger
  unit : Option UnitId
  events : List Event
  standing : Standing α

namespace Process

variable {α : Type}

/-- Lets a process take one step. -/
def advance (l : Ledger) (unit : Option UnitId) : Process α → Moved α
  | done a => ⟨l, unit, [], .settled (.answered a)⟩
  | ask request next =>
    let response := l.respond unit request
    match response.reply with
    | some reply => ⟨response.ledger, response.unit, [], .suspended (next reply)⟩
    | none => ⟨response.ledger, response.unit, [], .suspended (ask request next)⟩
  | note event rest => ⟨l, unit, [event], .suspended rest⟩
  | sleep _ rest => ⟨l, unit, [], .suspended rest⟩
  | panic message =>
    let (l', events) := l.abandonAny unit
    ⟨l', none, events, .settled (.panicked message)⟩

/-- Lets a process go on until it ends or has to wait. Sleeping takes no time here, unless the
process is `hurried`: then it stops at a sleep that may last. -/
def drive (hurried : Bool) (l : Ledger) (unit : Option UnitId) : Process α → Moved α
  | done a => ⟨l, unit, [], .settled (.answered a)⟩
  | ask request next =>
    let response := l.respond unit request
    match response.reply with
    | some reply => drive hurried response.ledger response.unit (next reply)
    | none => ⟨response.ledger, response.unit, [], .suspended (ask request next)⟩
  | note event rest =>
    let moved := drive hurried l unit rest
    { moved with events := event :: moved.events }
  | sleep longest rest =>
    if hurried ∧ 0 < longest.nanos then ⟨l, unit, [], .suspended (sleep longest rest)⟩
    else drive hurried l unit rest
  | panic message =>
    let (l', events) := l.abandonAny unit
    ⟨l', none, events, .settled (.panicked message)⟩

end Process

/-- The number of a task. -/
abbrev TaskId := Int

/-- A task: what is left to do, the unit of work that it has open, and what may cut it short. -/
structure Task where
  process : Process Answer
  unit : Option UnitId
  interrupts : List Interrupt

/-- The task can be dropped where it stands: it waits for a row lock, sleeps, or has no unit of work
open. Anywhere else it goes on without a pause. -/
def Task.Stoppable (l : Ledger) (t : Task) : Prop :=
  match t.process, t.unit with
  | .sleep .., _ => True
  | .ask .begin _, none => True
  | .ask (.call c) _, some u => ((l.units.find? u).bind (·.pending)) = some c
  | _, _ => False

instance (l : Ledger) (t : Task) : Decidable (t.Stoppable l) := by
  unfold Task.Stoppable
  split <;> infer_instance

/-- The task can be cut short where it stands: it sleeps, or waits for a row lock that another unit
of work holds. A task that can go on goes on. -/
def Task.Interruptible (l : Ledger) (t : Task) : Prop :=
  match t.process, t.unit with
  | .sleep .., _ => True
  | .ask (.call c) _, some u => c.row?.any (fun row => l.Waits u row) = true
  | _, _ => False

instance (l : Ledger) (t : Task) : Decidable (t.Interruptible l) := by
  unfold Task.Interruptible
  split <;> infer_instance

/-- The state of a service. Time is counted in nanoseconds from the start. -/
structure Service where
  settings : Settings
  ledger : Ledger
  tasks : Table Task
  submitted : Nat
  now : Nat

namespace Service

/-- A service that has not been asked for anything. -/
def start (settings : Settings) : Service := ⟨settings, Ledger.empty, Table.empty, 0, 0⟩

/-- Adds a task that has not taken a step yet. -/
def addTask (s : Service) (t : Task) : Service × TaskId :=
  let id : TaskId := s.submitted + 1
  ({ s with tasks := s.tasks.insert id t, submitted := s.submitted + 1 }, id)

/-- Starts an operation as a task. -/
def submit (s : Service) (op : Operation) : Service × TaskId :=
  s.addTask ⟨op.process s.settings.policy, none, op.interrupts s.settings.timeout s.now⟩

/-- Starts a single call in an open unit of work as a task. -/
def submitCall (s : Service) (u : UnitId) (c : Call) : Service × TaskId :=
  s.addTask ⟨.ask (.call c) fun r => .done (.call ⟨c, r⟩), some u, []⟩

/-- Puts a task that has moved back into the service, or takes it out if it has ended. -/
def settle (s : Service) (id : TaskId) (t : Task) (moved : Moved Answer) :
    Service × List Event × Option (Settled Answer) :=
  match moved.standing with
  | .settled how =>
    ({ s with ledger := moved.ledger, tasks := s.tasks.erase id }, moved.events, some how)
  | .suspended process =>
    ({ s with
        ledger := moved.ledger
        tasks := s.tasks.insert id { t with process, unit := moved.unit } },
      moved.events, none)

/-- Lets a task take one step. -/
def advance (s : Service) (id : TaskId) : Service × List Event × Option (Settled Answer) :=
  match s.tasks.find? id with
  | none => (s, [], none)
  | some t => s.settle id t (t.process.advance s.ledger t.unit)

/-- Cuts a task short if it cannot go on and an interrupt of it is due. -/
def interrupt (s : Service) (id : TaskId) : Service × List Event × Option (Settled Answer) :=
  match s.tasks.find? id with
  | none => (s, [], none)
  | some t =>
    match t.interrupts.find? (·.due ≤ s.now) with
    | none => (s, [], none)
    | some i =>
      if t.Interruptible s.ledger then
        let (ledger, events) := s.ledger.abandonAny t.unit
        ({ s with ledger, tasks := s.tasks.erase id }, events ++ [i.event],
          some (.answered (.receipt (.error i.error))))
      else (s, [], none)

/-- Lets a task go on as far as it can; if that is not to its end, an interrupt that is due ends
it. -/
def poll (s : Service) (id : TaskId) : Service × List Event × Option (Settled Answer) :=
  match s.tasks.find? id with
  | none => (s, [], none)
  | some t =>
    -- A task whose time is over may still end in this turn, but it may not sleep first.
    let hurried := t.interrupts.any (·.due ≤ s.now)
    match s.settle id t (t.process.drive hurried s.ledger t.unit) with
    | (s', events, some how) => (s', events, some how)
    | (s', events, none) =>
      let (s'', later, how) := s'.interrupt id
      (s'', events ++ later, how)

/-- Drops a task where it can be dropped, and its unit of work with it. -/
def abort (s : Service) (id : TaskId) : Service × List Event :=
  match s.tasks.find? id with
  | none => (s, [])
  | some t =>
    if t.Stoppable s.ledger then
      let (ledger, events) := s.ledger.abandonAny t.unit
      ({ s with ledger, tasks := s.tasks.erase id }, events)
    else (s, [])

/-- Drops a task but leaves its unit of work open; a call in which that waits is given up. -/
def withdraw (s : Service) (id : TaskId) : Service :=
  match s.tasks.find? id with
  | none => s
  | some t =>
    let ledger := match t.unit with
      | some u => s.ledger.withdraw u
      | none => s.ledger
    { s with ledger, tasks := s.tasks.erase id }

/-- Lets time pass. -/
def pass (s : Service) (d : Duration) : Service := { s with now := s.now + d.nanos }

/-- The time at which the first of the interrupts of a task is due. -/
def nextDue? (s : Service) (id : TaskId) : Option Nat :=
  ((s.tasks.find? id).map fun t => t.interrupts.map (·.due)).bind List.min?

/-- Waits for a task while no other one goes on: after its first turn the clock moves to the moment
of its next interrupt, but by `patience` at most. A task that is still waiting then stays in the
service. -/
def await (s : Service) (id : TaskId) (patience : Duration) :
    Service × List Event × Option (Settled Answer) :=
  match s.poll id with
  | (s', events, some how) => (s', events, some how)
  | (s', events, none) =>
    let limit := s'.now + patience.nanos
    match (s'.nextDue? id).filter (· ≤ limit) with
    | none => ({ s' with now := limit }, events, none)
    | some due =>
      let (s'', later, how) := { s' with now := due }.poll id
      (s'', events ++ later, how)

/-- A task has the unit of work open. -/
def Owned (s : Service) (u : UnitId) : Prop := s.tasks.values.any (fun t => t.unit = some u) = true

instance (s : Service) (u : UnitId) : Decidable (s.Owned u) :=
  inferInstanceAs (Decidable (_ = _))

/-- One step of a service: anything that a client, the clock, the hand that injects faults or a unit
of work outside any task can do. An operation runs under the settings in force when it is submitted,
so engines with different settings may share the ledger. -/
inductive Action where
  | configure (settings : Settings)
  | submit (op : Operation)
  | advance (id : TaskId)
  | interrupt (id : TaskId)
  | abort (id : TaskId)
  | pass (d : Duration)
  | ledger (action : Ledger.Action)

/-- Takes one step. -/
def step (s : Service) : Action → Service
  | .configure settings => { s with settings }
  | .submit op => (s.submit op).1
  | .advance id => (s.advance id).1
  | .interrupt id => (s.interrupt id).1
  | .abort id => (s.abort id).1
  | .pass d => s.pass d
  | .ledger action =>
    if action.unit?.any (fun u => s.Owned u) then s
    else { s with ledger := (s.ledger.step action).1 }

/-- The state after a sequence of steps. -/
def run (s : Service) (actions : List Action) : Service := actions.foldl step s

/-- States that a service can come to from the start. -/
def Reachable (s : Service) : Prop := ∃ settings actions, s = (start settings).run actions

end Service
end FundsLedger
