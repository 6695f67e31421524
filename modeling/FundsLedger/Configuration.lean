import FundsLedger.Operation
import FundsLedger.Postgres.Statement
import FundsLedger.Timestamp.Text

/-!
Configurations: where the log goes, which database to use, how often to try again after a conflict,
and how long a transfer may take. The numbers are those of the file; what they mean for the engine
is `Configuration.settings`.
-/

namespace FundsLedger

/-- Which database to use; without an address there is none. -/
structure DatabaseOptions where
  url : Option String
  maxConnections : Nat
  acquireTimeoutSecs : Nat
  isolation : Postgres.Isolation
deriving DecidableEq

/-- The database options that hold unless others are given. -/
def DatabaseOptions.usual : DatabaseOptions := ⟨none, 10, 5, Postgres.Isolation.usual⟩

/-- How often to try again after a conflict, with delays in milliseconds. -/
structure RetryOptions where
  maxAttempts : Nat
  baseBackoffMs : Nat
  maxBackoffMs : Nat
deriving DecidableEq

namespace RetryOptions

/-- The retry options that hold unless others are given. -/
def usual : RetryOptions := ⟨40, 5, 250⟩

/-- The policy that the options stand for. -/
def policy (o : RetryOptions) : RetryPolicy :=
  RetryPolicy.of o.maxAttempts (Duration.ofMillis o.baseBackoffMs)
    (Duration.ofMillis o.maxBackoffMs)

end RetryOptions

/-- When a new log file is begun. -/
inductive Rotation where
  | hourly
  | daily
  | never
deriving DecidableEq, Repr

/-- The name of the rotation. -/
def Rotation.name : Rotation → String
  | hourly => "hourly"
  | daily => "daily"
  | never => "never"

/-- The name of the log file that is written at a time. -/
def Rotation.fileName (file : String) (now : Timestamp) : Rotation → String
  | hourly =>
    String.ofList (file.toList ++ '.' :: Timestamp.printedDate now.date ++
      '-' :: Numeral.padded 2 now.hour)
  | daily => String.ofList (file.toList ++ '.' :: Timestamp.printedDate now.date)
  | never => file

/-- A configuration. -/
structure Configuration where
  logLevel : String
  logDir : String
  logFile : String
  useJson : Bool
  rotation : String
  database : DatabaseOptions
  retry : RetryOptions
  transferTimeoutMs : Option Nat
deriving DecidableEq

namespace Configuration

/-- The time that a transfer may take, if there is a limit. -/
def timeout (c : Configuration) : Option Duration := c.transferTimeoutMs.map Duration.ofMillis

/-- How the engine is to work. -/
def settings (c : Configuration) : Settings := ⟨c.retry.policy, c.timeout⟩

/-- Which events are logged: those of the ledger from the chosen level on, and warnings of all
else. -/
def logFilter (c : Configuration) : String := s!"warn,bank_ledger={c.logLevel}"

/-- When a new log file is begun; an unknown name means never. -/
def logRotation (c : Configuration) : Rotation :=
  if c.rotation = "hourly" then .hourly
  else if c.rotation = "daily" then .daily
  else .never

end Configuration
end FundsLedger
