import FundsLedger.Arguments
import FundsLedger.Command
import FundsLedger.Configuration.Yaml
import FundsLedger.Json.Printer
import FundsLedger.Postgres.Store
import FundsLedger.Session

/-!
The program: it reads a command from its arguments, loads the configuration of the chosen
environment, finds the ledger, and carries the command out on it. The ledger is in the database
whose address the configuration or else the surroundings give. Without a database a ledger in memory
is made for the one command, so only a command that looks at nothing older is carried out.
-/

namespace FundsLedger

/-- Why the program ends without a result. -/
inductive ProgramError where
  | command (cause : CommandError)
  | unreadableConfiguration (path : String)
  | malformedConfiguration (path : String)
  | needsDatabase (path : String)
  | noConnection
  | refused (text : String)
deriving DecidableEq, Repr

/-- The texts shown for the cause, the outermost first. -/
def ProgramError.chain : ProgramError → List String
  | command cause => cause.chain
  | unreadableConfiguration path => [s!"Failed to read config file: {path}"]
  | malformedConfiguration path => [s!"Failed to parse {path}"]
  | needsDatabase path =>
    [s!"this command needs a database: set database.url in {path} or DATABASE_URL"]
  | noConnection => ["Failed to connect to PostgreSQL"]
  | refused text => [text]

/-- What the program reports about its failure: the outermost text, and below it what caused
that. -/
def ProgramError.report (e : ProgramError) : String :=
  match e.chain with
  | [] => "Error\n"
  | outermost :: causes =>
    "Error: " ++ outermost ++ "\n" ++
      (if causes.isEmpty then ""
      else "\nCaused by:\n" ++ String.join (causes.map fun c => "    " ++ c ++ "\n"))

/-- How a command ends: with a value that is printed, with a failure, or not at all. -/
inductive Outcome where
  | printed (value : Json)
  | failed (error : ProgramError)
  | unfinished

namespace Outcome

/-- The outcome of an operation with such a result. -/
def ofResult {ε α : Type} (message : ε → String) (toJson : α → Json) : Except ε α → Outcome
  | .ok a => printed (toJson a)
  | .error e => failed (.refused (message e))

/-- What is printed on several lines, each item of a list being a record. -/
def listed {α : Type} (toJson : α → Json) (rows : List α) : Json := .array (rows.map toJson)

/-- The outcome of a command that gets the answer; scripts and single calls are no commands. -/
def ofAnswer : Answer → Outcome
  | .account r => ofResult AccountError.message Account.toJson r
  | .accounts r => ofResult AccountError.message (listed Account.toJson) r
  | .receipt r => ofResult TransferError.message Receipt.toJson r
  | .transfer r => ofResult TransferError.message Transfer.toJson r
  | .transfers r => ofResult TransferError.message (listed Transfer.toJson) r
  | .entries r => ofResult TransferError.message (listed Entry.toJson) r
  | .reconciliation r => ofResult TransferError.message Reconciliation.toJson r
  | .script _ | .call _ => unfinished

/-- The outcome of a command that has ended in this way. -/
def ofSettled : Settled Answer → Outcome
  | .answered a => ofAnswer a
  | .panicked _ => unfinished

/-- The text that the program prints. -/
def output : Outcome → String
  | printed value => value.pretty ++ "\n"
  | failed _ | unfinished => ""

/-- The number that the program ends with. -/
def exitCode : Outcome → Nat
  | printed _ => 0
  | failed _ | unfinished => 1

end Outcome

namespace Command

/-- Carries the command out on a service, while no other task goes on. -/
def runOnService (c : Command) (s : Service) : Service × Outcome :=
  let (s, id) := s.submit c.operation
  match s.await id Session.patience with
  | (s, _, some how) => (s, Outcome.ofSettled how)
  | (s, _, none) => ((s.abort id).1, .unfinished)

/-- Carries the command out on a store that replies at once. -/
def runOnBackend {σ : Type} (c : Command) (b : Backend σ) (settings : Settings) (state : σ) :
    σ × Outcome :=
  let ran := c.operation.runOn b settings state
  (ran.state, Outcome.ofSettled ran.settled)

end Command

/-- A command together with the environment it is meant for. -/
structure Invocation where
  environment : String
  command : Command
deriving DecidableEq

namespace Invocation

/-- Reads the arguments of the program. -/
def ofArguments (args : List String) : Except ProgramError Invocation := do
  let command ← (Command.ofArguments (Arguments.positional args)).mapError .command
  return ⟨Arguments.environment args, command⟩

/-- The file with the configuration of the environment. -/
def configurationPath (i : Invocation) : String := s!"config/{i.environment}.yaml"

/-- The configuration in the text of that file, if it could be read. -/
def configuration (i : Invocation) : Option String → Except ProgramError Configuration
  | none => .error (.unreadableConfiguration i.configurationPath)
  | some text =>
    match Configuration.parseYaml? text with
    | none => .error (.malformedConfiguration i.configurationPath)
    | some c => .ok c

end Invocation

/-- What the program finds around it: the texts of files by their paths, the address of a database,
the server that an address leads to, and the time. -/
structure Surroundings (σ : Type) where
  file? : String → Option String
  databaseUrl : Option String
  connect? : String → Option (Postgres.Server σ × σ)
  now : Timestamp

/-- How the program has ended: the configuration under which it logs, once that is loaded, the
connection to the database if there was one, and the outcome. -/
structure Finished (σ : Type) where
  logging : Option Configuration
  connection : Option (Postgres.Connection σ)
  outcome : Outcome

namespace Surroundings

variable {σ : Type}

/-- The command line and the configuration that the program starts with. -/
def prepare (w : Surroundings σ) (args : List String) :
    Except ProgramError (Invocation × Configuration) := do
  let i ← Invocation.ofArguments args
  let c ← i.configuration (w.file? i.configurationPath)
  return (i, c)

/-- Carries a command out under a configuration. -/
def carryOut (w : Surroundings σ) (i : Invocation) (c : Configuration) : Finished σ :=
  match c.database.url.or w.databaseUrl with
  | some url =>
    match w.connect? url with
    | none => ⟨some c, none, .failed .noConnection⟩
    | some (server, state) =>
      let (connection, outcome) :=
        i.command.runOnBackend (Postgres.store server c.database.isolation) c.settings ⟨state, []⟩
      ⟨some c, some connection, outcome⟩
  | none =>
    if i.command.NeedsDatabase then
      ⟨some c, none, .failed (.needsDatabase i.configurationPath)⟩
    else
      -- This ledger ends with the program, so only what opens an account makes sense on it.
      let service := Service.start c.settings
      let service := { service with ledger := service.ledger.setClock w.now }
      ⟨some c, none, (i.command.runOnService service).2⟩

/-- Runs the program. -/
def run (w : Surroundings σ) (args : List String) : Finished σ :=
  match w.prepare args with
  | .error e => ⟨none, none, .failed e⟩
  | .ok (i, c) => w.carryOut i c

end Surroundings
end FundsLedger
