import FundsLedger.Inquiries
import FundsLedger.Json.Value
import FundsLedger.Timestamp.Text
import FundsLedger.Transfer.Execution

/-!
Records as JSON. A record is printed as an object with its fields in a fixed order. It is read from
every form that `Json.fields?` takes, provided that each field is there and of the right kind:
numbers fit their words, a currency has a well-formed code, and a time stamp is one.
-/

namespace FundsLedger

namespace Json

/-- A record with these fields. -/
def record (names : List String) (values : List Json) : Json := object (names.zip values)

/-- The whole number, if it fits the word. -/
def word? (w : Word) : Json → Option Int
  | integer n => if w.Holds n then some n else none
  | _ => none

/-- The identifier. -/
def id? : Json → Option Int := word? Word.int64

/-- The amount of money. -/
def amount? : Json → Option Amount
  | integer n => Amount.ofInt? n
  | _ => none

/-- The time stamp. -/
def timestamp? : Json → Option Timestamp
  | string s => Timestamp.parse? s
  | _ => none

end Json

/-- The currency as JSON: its code. -/
def Currency.toJson (c : Currency) : Json := .string c.code

/-- The currency that a JSON value stands for. -/
def Currency.ofJson? : Json → Option Currency
  | .string code => (Currency.parse code).toOption
  | _ => none

namespace Account

/-- The fields of an account. -/
def fieldNames : List String := ["id", "owner", "balance", "currency", "created_at"]

/-- The account as JSON. -/
def toJson (a : Account) : Json :=
  Json.record fieldNames
    [.integer a.id, .string a.owner, .integer a.balance.units, a.currency.toJson,
      .string a.createdAt.toText]

/-- The account that a JSON value stands for. -/
def ofJson? (j : Json) : Option Account := do
  let [id, owner, balance, currency, createdAt] ← j.fields? fieldNames | none
  return ⟨← id >>= Json.id?, ← owner >>= Json.string?, ← balance >>= Json.amount?,
    ← currency >>= Currency.ofJson?, ← createdAt >>= Json.timestamp?⟩

end Account

namespace Entry

/-- The fields of an entry. -/
def fieldNames : List String := ["id", "account_id", "amount", "created_at"]

/-- The entry as JSON. -/
def toJson (e : Entry) : Json :=
  Json.record fieldNames
    [.integer e.id, .integer e.accountId, .integer e.amount.units, .string e.createdAt.toText]

/-- The entry that a JSON value stands for. -/
def ofJson? (j : Json) : Option Entry := do
  let [id, accountId, amount, createdAt] ← j.fields? fieldNames | none
  return ⟨← id >>= Json.id?, ← accountId >>= Json.id?, ← amount >>= Json.amount?,
    ← createdAt >>= Json.timestamp?⟩

end Entry

namespace Transfer

/-- The fields of a transfer. -/
def fieldNames : List String := ["id", "from_account_id", "to_account_id", "amount", "created_at"]

/-- The transfer as JSON. -/
def toJson (t : Transfer) : Json :=
  Json.record fieldNames
    [.integer t.id, .integer t.fromId, .integer t.toId, .integer t.amount.units,
      .string t.createdAt.toText]

/-- The transfer that a JSON value stands for. -/
def ofJson? (j : Json) : Option Transfer := do
  let [id, fromId, toId, amount, createdAt] ← j.fields? fieldNames | none
  return ⟨← id >>= Json.id?, ← fromId >>= Json.id?, ← toId >>= Json.id?,
    ← amount >>= Json.amount?, ← createdAt >>= Json.timestamp?⟩

end Transfer

namespace TransferRequest

/-- The fields of a request for a transfer. -/
def fieldNames : List String := ["from_account_id", "to_account_id", "amount", "currency"]

/-- The request as JSON. -/
def toJson (r : TransferRequest) : Json :=
  Json.record fieldNames
    [.integer r.fromId, .integer r.toId, .integer r.amount.units, .string r.currency]

/-- The request that a JSON value stands for. -/
def ofJson? (j : Json) : Option TransferRequest := do
  let [fromId, toId, amount, currency] ← j.fields? fieldNames | none
  return ⟨← fromId >>= Json.id?, ← toId >>= Json.id?, ← amount >>= Json.amount?,
    ← currency >>= Json.string?⟩

end TransferRequest

namespace Receipt

/-- The fields of the receipt for a transfer. -/
def fieldNames : List String :=
  ["transfer", "from_entry", "to_entry", "from_account", "to_account"]

/-- The receipt as JSON. -/
def toJson (r : Receipt) : Json :=
  Json.record fieldNames
    [r.transfer.toJson, r.fromEntry.toJson, r.toEntry.toJson, r.fromAccount.toJson,
      r.toAccount.toJson]

/-- The receipt that a JSON value stands for. -/
def ofJson? (j : Json) : Option Receipt := do
  let [transfer, fromEntry, toEntry, fromAccount, toAccount] ← j.fields? fieldNames | none
  return ⟨← transfer >>= Transfer.ofJson?, ← fromEntry >>= Entry.ofJson?,
    ← toEntry >>= Entry.ofJson?, ← fromAccount >>= Account.ofJson?,
    ← toAccount >>= Account.ofJson?⟩

end Receipt

/-- The reconciliation as JSON. -/
def Reconciliation.toJson (r : Reconciliation) : Json :=
  Json.record ["account_id", "balance", "entry_sum", "consistent"]
    [.integer r.accountId, .integer r.balance.units, .integer r.entrySum.units,
      .bool r.Consistent]

end FundsLedger
