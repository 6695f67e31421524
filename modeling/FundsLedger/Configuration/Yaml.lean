import FundsLedger.Configuration.Json
import FundsLedger.Yaml.Number
import FundsLedger.Yaml.Reader

/-!
Configurations in YAML files. They have the fields that they have in JSON; a text may be any scalar,
and the address of the database and the time limit may be plain nulls.
-/

namespace FundsLedger

namespace Yaml

/-- The value of a field that may be left out or null. -/
def optional? {α : Type} (read : Yaml → Option α) : Option Yaml → Option (Option α)
  | none => some none
  | some y => if y.isNull then some none else (read y).map some

/-- The value of a field that has a usual value when it is left out. -/
def orUsual? {α : Type} (usual : α) (read : Yaml → Option α) : Option Yaml → Option α
  | none => some usual
  | some y => read y

/-- A natural number that fits the word. -/
def word? (w : Word) (y : Yaml) : Option Nat := y.natural?.filter fun n => w.Holds n

end Yaml

/-- The isolation level that a scalar names. -/
def Postgres.Isolation.ofYaml? (y : Yaml) : Option Postgres.Isolation :=
  y.text? >>= Postgres.Isolation.ofName?

/-- The database options that a mapping stands for. -/
def DatabaseOptions.ofYaml? (y : Yaml) : Option DatabaseOptions := do
  let [url, maxConnections, acquireTimeoutSecs, isolation] ← y.fields? fieldNames | none
  return ⟨← Yaml.optional? Yaml.text? url, ← maxConnections >>= Yaml.word? Word.nat32,
    ← acquireTimeoutSecs >>= Yaml.word? Word.nat64,
    ← Yaml.orUsual? Postgres.Isolation.usual Postgres.Isolation.ofYaml? isolation⟩

/-- The retry options that a mapping stands for. -/
def RetryOptions.ofYaml? (y : Yaml) : Option RetryOptions := do
  let [maxAttempts, baseBackoffMs, maxBackoffMs] ← y.fields? fieldNames | none
  return ⟨← maxAttempts >>= Yaml.word? Word.nat32, ← baseBackoffMs >>= Yaml.word? Word.nat64,
    ← maxBackoffMs >>= Yaml.word? Word.nat64⟩

namespace Configuration

/-- The configuration that a mapping stands for. -/
def ofYaml? (y : Yaml) : Option Configuration := do
  let [logLevel, logDir, logFile, useJson, rotation, database, retry, transferTimeoutMs] ←
    y.fields? fieldNames | none
  return ⟨← logLevel >>= Yaml.text?, ← logDir >>= Yaml.text?, ← logFile >>= Yaml.text?,
    ← useJson >>= Yaml.bool?, ← rotation >>= Yaml.text?,
    ← Yaml.orUsual? DatabaseOptions.usual DatabaseOptions.ofYaml? database,
    ← Yaml.orUsual? RetryOptions.usual RetryOptions.ofYaml? retry,
    ← Yaml.optional? (Yaml.word? Word.nat64) transferTimeoutMs⟩

/-- The configuration that the text of a file stands for. -/
def parseYaml? (text : String) : Option Configuration := Yaml.parse? text >>= ofYaml?

end Configuration
end FundsLedger
