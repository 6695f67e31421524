import FundsLedger.Configuration
import FundsLedger.Json.Records

/-!
Configurations as JSON. Options may be left out where there are usual ones; the address of the
database and the time limit may also be null.
-/

namespace FundsLedger

namespace Postgres.Isolation

/-- The isolation level as JSON: its name. -/
def toJson (i : Isolation) : Json := .string i.name

/-- The isolation level that a JSON value stands for: its name, alone or as the one member of an
object with the value null. -/
def ofJson? : Json → Option Isolation
  | .string name => ofName? name
  | .object [(name, .null)] => ofName? name
  | _ => none

end Postgres.Isolation

namespace Json

/-- The value of a field that may be left out or null. -/
def optional? {α : Type} (read : Json → Option α) : Option Json → Option (Option α)
  | none => some none
  | some null => some none
  | some j => (read j).map some

/-- The value of a field that has a usual value when it is left out. -/
def orUsual? {α : Type} (usual : α) (read : Json → Option α) : Option Json → Option α
  | none => some usual
  | some j => read j

/-- A value that may be missing, which is null then. -/
def ofOption {α : Type} (print : α → Json) : Option α → Json
  | none => null
  | some a => print a

/-- A natural number of 32 bits. -/
def nat32? (j : Json) : Option Nat := (j.word? Word.nat32).map Int.toNat

/-- A natural number of 64 bits. -/
def nat64? (j : Json) : Option Nat := (j.word? Word.nat64).map Int.toNat

end Json

namespace DatabaseOptions

/-- The fields of the database options. -/
def fieldNames : List String := ["url", "max_connections", "acquire_timeout_secs", "isolation"]

/-- The database options as JSON. -/
def toJson (o : DatabaseOptions) : Json :=
  Json.record fieldNames
    [Json.ofOption .string o.url, .integer o.maxConnections, .integer o.acquireTimeoutSecs,
      o.isolation.toJson]

/-- The database options that a JSON value stands for. -/
def ofJson? (j : Json) : Option DatabaseOptions := do
  let [url, maxConnections, acquireTimeoutSecs, isolation] ← j.fields? fieldNames | none
  return ⟨← Json.optional? Json.string? url, ← maxConnections >>= Json.nat32?,
    ← acquireTimeoutSecs >>= Json.nat64?,
    ← Json.orUsual? Postgres.Isolation.usual Postgres.Isolation.ofJson? isolation⟩

end DatabaseOptions

namespace RetryOptions

/-- The fields of the retry options. -/
def fieldNames : List String := ["max_attempts", "base_backoff_ms", "max_backoff_ms"]

/-- The retry options as JSON. -/
def toJson (o : RetryOptions) : Json :=
  Json.record fieldNames
    [.integer o.maxAttempts, .integer o.baseBackoffMs, .integer o.maxBackoffMs]

/-- The retry options that a JSON value stands for. -/
def ofJson? (j : Json) : Option RetryOptions := do
  let [maxAttempts, baseBackoffMs, maxBackoffMs] ← j.fields? fieldNames | none
  return ⟨← maxAttempts >>= Json.nat32?, ← baseBackoffMs >>= Json.nat64?,
    ← maxBackoffMs >>= Json.nat64?⟩

end RetryOptions

namespace Configuration

/-- The fields of a configuration. -/
def fieldNames : List String :=
  ["log_level", "log_dir", "log_file", "use_json", "rotation", "database", "retry",
    "transfer_timeout_ms"]

/-- The configuration as JSON. -/
def toJson (c : Configuration) : Json :=
  Json.record fieldNames
    [.string c.logLevel, .string c.logDir, .string c.logFile, .bool c.useJson, .string c.rotation,
      c.database.toJson, c.retry.toJson, Json.ofOption (.integer ·) c.transferTimeoutMs]

/-- The configuration that a JSON value stands for. -/
def ofJson? (j : Json) : Option Configuration := do
  let [logLevel, logDir, logFile, useJson, rotation, database, retry, transferTimeoutMs] ←
    j.fields? fieldNames | none
  return ⟨← logLevel >>= Json.string?, ← logDir >>= Json.string?, ← logFile >>= Json.string?,
    ← useJson >>= Json.bool?, ← rotation >>= Json.string?,
    ← Json.orUsual? DatabaseOptions.usual DatabaseOptions.ofJson? database,
    ← Json.orUsual? RetryOptions.usual RetryOptions.ofJson? retry,
    ← Json.optional? Json.nat64? transferTimeoutMs⟩

end Configuration
end FundsLedger
