import FundsLedger.Service

/-!
Sessions: a service driven step by step. Units of work and tasks have names here. Nothing goes on
between two steps; a task goes on only when it is polled, and the clock moves only when a step moves
it.
-/

namespace FundsLedger

/-- What a task is made of: an operation, or one call in a named unit of work, which belongs to the
task until that has ended. -/
inductive Job where
  | operation (op : Operation)
  | call (unit : String) (c : Call)

/-- A step of a session. -/
inductive SessionStep where
  | perform (job : Job)
  | failAt (point : Option FailPoint)
  | injectConflicts (n : Nat)
  | peek (id : AccountId)
  | entriesFor (id : AccountId)
  | inspect
  | begin (unit : String)
  | commit (unit : String)
  | rollback (unit : String)
  | drop (unit : String)
  | start (task : String) (job : Job)
  | poll (task : String)
  | abort (task : String)
  | pass (d : Duration)

/-- What the committed state of a ledger shows. -/
structure Snapshot where
  books : Books
  begins : Nat
  commits : Nat

/-- The committed state of a ledger. -/
def Ledger.snapshot (l : Ledger) : Snapshot := ⟨l.books, l.begins, l.commits⟩

/-- The entries of the accounts there are: by account, then by identifier. -/
def Snapshot.entries (s : Snapshot) : List Entry :=
  s.books.accounts.values.flatMap fun a => s.books.entriesOf a.id

/-- What a step of a session shows. -/
inductive SessionReply where
  | settled (how : Settled Answer)
  | done
  | peeked (account : Option Account)
  | listed (entries : List Entry)
  | inspected (snapshot : Snapshot)
  | ended (result : Except StoreError Unit)
  | pending
  | blocked
  | unavailable (name : String)

/-- A task with a name, and the named unit of work that it has taken over. -/
structure NamedTask where
  name : String
  id : TaskId
  unit : Option (String × UnitId)

/-- The state of a session. -/
structure Session where
  service : Service
  units : List (String × UnitId)
  tasks : List NamedTask

namespace Session

/-- A session in which nothing has happened. -/
def start (settings : Settings) : Session := ⟨Service.start settings, [], []⟩

/-- How long a step that is not a task waits for a row lock. -/
def patience : Duration := Duration.ofMillis 60000

/-- The task with that name. -/
def task? (s : Session) (name : String) : Option NamedTask := s.tasks.find? (·.name = name)

/-- A unit of work has that name, be it at hand or with a task. -/
def unitNamed (s : Session) (name : String) : Bool :=
  (s.units.lookup name).isSome || s.tasks.any fun t => t.unit.any (·.1 = name)

/-- Takes the task out of the session. -/
def dropTask (s : Session) (name : String) : Session :=
  { s with tasks := s.tasks.filter (·.name ≠ name) }

/-- Takes the unit of work out of the session. -/
def dropUnit (s : Session) (name : String) : Session :=
  { s with units := s.units.filter (·.1 ≠ name) }

/-- Starts a job; a job in a unit of work that is not at hand tells its name. -/
def launch (s : Session) : Job → Except String (Session × TaskId × Option (String × UnitId))
  | .operation op =>
    let (service, id) := s.service.submit op
    .ok ({ s with service }, id, none)
  | .call name c =>
    match s.units.lookup name with
    | none => .error name
    | some u =>
      let (service, id) := s.service.submitCall u c
      .ok ({ s.dropUnit name with service }, id, some (name, u))

/-- Carries a job out here and now; if it has to wait for too long, it is given up, and a unit of
work that it was made in stays open. -/
def perform (s : Session) (job : Job) : Session × List Event × SessionReply :=
  match s.launch job with
  | .error name => (s, [], .unavailable name)
  | .ok (s', id, unit) =>
    let units := unit.toList ++ s'.units
    match s'.service.await id patience with
    | (service, events, some how) => ({ s' with service, units }, events, .settled how)
    | (service, events, none) =>
      -- A single call gives up its place in line; an operation gives up its unit of work as well.
      match unit with
      | some _ => ({ s' with service := service.withdraw id, units }, events, .blocked)
      | none =>
        let (service, later) := service.abort id
        ({ s' with service }, events ++ later, .blocked)

/-- Polls a task. When it has ended, its unit of work is at hand again. -/
def pollTask (s : Session) (t : NamedTask) : Session × List Event × SessionReply :=
  match s.service.poll t.id with
  | (service, events, some how) =>
    ({ s.dropTask t.name with service, units := t.unit.toList ++ s.units }, events, .settled how)
  | (service, events, none) => ({ s with service }, events, .pending)

/-- Ends a named unit of work. -/
def endUnit (s : Session) (name : String)
    (ending : Ledger → UnitId → Option (Ledger × Except StoreError Unit)) :
    Session × List Event × SessionReply :=
  match (s.units.lookup name).bind (ending s.service.ledger) with
  | none => (s, [], .unavailable name)
  | some (ledger, result) =>
    ({ s.dropUnit name with service := { s.service with ledger } }, [], .ended result)

/-- Changes the ledger. -/
def onLedger (s : Session) (f : Ledger → Ledger) : Session :=
  { s with service := { s.service with ledger := f s.service.ledger } }

/-- Takes one step, and tells what was reported and what it shows. -/
def step (s : Session) : SessionStep → Session × List Event × SessionReply
  | .perform job => s.perform job
  | .failAt point => (s.onLedger (·.failAt point), [], .done)
  | .injectConflicts n => (s.onLedger (·.injectConflicts n), [], .done)
  | .peek id => (s, [], .peeked (s.service.ledger.books.accounts.find? id))
  | .entriesFor id => (s, [], .listed (s.service.ledger.books.entriesOf id))
  | .inspect => (s, [], .inspected s.service.ledger.snapshot)
  | .begin name =>
    if s.unitNamed name then (s, [], .unavailable name)
    else
      let (ledger, u) := s.service.ledger.begin
      ({ s with service := { s.service with ledger }, units := (name, u) :: s.units }, [], .done)
  | .commit name => s.endUnit name Ledger.commit?
  | .rollback name => s.endUnit name Ledger.rollback?
  | .drop name =>
    match s.units.lookup name with
    | none => (s, [], .unavailable name)
    | some u =>
      let (ledger, events) := s.service.ledger.abandon u
      ({ s.dropUnit name with service := { s.service with ledger } }, events, .done)
  | .start name job =>
    if (s.task? name).isSome then (s, [], .unavailable name)
    else
      match s.launch job with
      | .error unit => (s, [], .unavailable unit)
      | .ok (s', id, unit) =>
        let t : NamedTask := ⟨name, id, unit⟩
        pollTask { s' with tasks := t :: s'.tasks } t
  | .poll name =>
    match s.task? name with
    | none => (s, [], .unavailable name)
    | some t => s.pollTask t
  | .abort name =>
    match s.task? name with
    | none => (s, [], .unavailable name)
    | some t =>
      let (service, events) := s.service.abort t.id
      ({ s.dropTask name with service }, events, .done)
  | .pass d => ({ s with service := s.service.pass d }, [], .done)

/-- Takes the steps one after the other. -/
def run (s : Session) : List SessionStep → Session × List (List Event × SessionReply)
  | [] => (s, [])
  | st :: rest =>
    let (s', events, reply) := s.step st
    let (last, shown) := run s' rest
    (last, (events, reply) :: shown)

end Session
end FundsLedger
