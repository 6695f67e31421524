import FundsLedger.Operation
import FundsLedger.Text.Integer

/-!
Commands of the program. A command is written as its name followed by its slots in order; the last
slots of some commands may be left out, and arguments after the last slot do not count. The slots
are filled from left to right, and the first one that cannot be filled is the one that is named.
-/

namespace FundsLedger

/-- A command of the program. -/
inductive Command where
  | createAccount (owner currency : String) (initialDeposit : Amount)
  | getAccount (id : AccountId)
  | listAccounts (owner : String) (pageId pageSize : Int)
  | transfer (request : TransferRequest)
  | listTransfers (fromId toId : AccountId) (pageId pageSize : Int)
  | listEntries (accountId : AccountId) (pageId pageSize : Int)
  | reconcile (accountId : AccountId)
deriving DecidableEq

/-- Why arguments are not a command. -/
inductive CommandError where
  | missingCommand
  | unknownCommand (name : String)
  | missingArgument (slot : String)
  | invalidArgument (slot raw : String) (cause : IntegerError)
deriving DecidableEq, Repr

/-- The texts shown for the cause, the outermost first. -/
def CommandError.chain : CommandError → List String
  | missingCommand => ["missing command"]
  | unknownCommand name => [s!"unknown command '{name}'"]
  | missingArgument slot => [s!"missing argument <{slot}>"]
  | invalidArgument slot raw cause => [s!"invalid <{slot}>: {raw}", cause.message]

/-- Arguments that fill the slots of a command, by position. -/
abbrev Slots := List String

namespace Slots

/-- The text in a slot. -/
def text (args : Slots) (i : Nat) (slot : String) : Except CommandError String :=
  match args[i]? with
  | some raw => .ok raw
  | none => .error (.missingArgument slot)

/-- The number in a slot. -/
def number (args : Slots) (w : Word) (i : Nat) (slot : String) :
    Except CommandError { n : Int // w.Holds n } := do
  let raw ← args.text i slot
  (Integer.parse w raw).mapError (.invalidArgument slot raw)

/-- The identifier in a slot. -/
def id (args : Slots) (i : Nat) (slot : String) : Except CommandError Int := do
  return (← args.number Word.int64 i slot).val

/-- The amount in a slot. -/
def amount (args : Slots) (i : Nat) (slot : String) : Except CommandError Amount := do
  let n ← args.number Word.int64 i slot
  return ⟨n.val, n.property.1, n.property.2⟩

/-- The amount in a slot that may be left out, which means none. -/
def amountOrZero (args : Slots) (i : Nat) (slot : String) : Except CommandError Amount :=
  if i < args.length then args.amount i slot else .ok Amount.zero

/-- The small number in a slot that may be left out, which means the usual one. -/
def numberOr (args : Slots) (usual : Int) (i : Nat) (slot : String) : Except CommandError Int :=
  if i < args.length then do return (← args.number Word.int32 i slot).val else .ok usual

end Slots

namespace Command

/-- The page that is meant if none is given. -/
def usualPageId : Int := 1

/-- The size of a page that is meant if none is given. -/
def usualPageSize : Int := 10

/-- Reads the slots of the command with a name. -/
def ofSlots (name : String) (args : Slots) : Except CommandError Command :=
  match name with
  | "create-account" => do
    return .createAccount (← args.text 0 "owner") (← args.text 1 "currency")
      (← args.amountOrZero 2 "initial_deposit")
  | "get-account" => do return .getAccount (← args.id 0 "account_id")
  | "list-accounts" => do
    return .listAccounts (← args.text 0 "owner") (← args.numberOr usualPageId 1 "page_id")
      (← args.numberOr usualPageSize 2 "page_size")
  | "transfer" => do
    return .transfer ⟨← args.id 0 "from_id", ← args.id 1 "to_id", ← args.amount 2 "amount",
      ← args.text 3 "currency"⟩
  | "list-transfers" => do
    return .listTransfers (← args.id 0 "from_id") (← args.id 1 "to_id")
      (← args.numberOr usualPageId 2 "page_id") (← args.numberOr usualPageSize 3 "page_size")
  | "list-entries" => do
    return .listEntries (← args.id 0 "account_id") (← args.numberOr usualPageId 1 "page_id")
      (← args.numberOr usualPageSize 2 "page_size")
  | "reconcile" => do return .reconcile (← args.id 0 "account_id")
  | other => .error (.unknownCommand other)

/-- Reads a command from positional arguments. -/
def ofArguments : List String → Except CommandError Command
  | [] => .error .missingCommand
  | name :: args => ofSlots name args

/-- The positional arguments that stand for the command, with every slot filled. -/
def toArguments : Command → List String
  | createAccount owner currency deposit =>
    ["create-account", owner, currency, Integer.toText deposit.units]
  | getAccount id => ["get-account", Integer.toText id]
  | listAccounts owner pageId pageSize =>
    ["list-accounts", owner, Integer.toText pageId, Integer.toText pageSize]
  | transfer r =>
    ["transfer", Integer.toText r.fromId, Integer.toText r.toId, Integer.toText r.amount.units,
      r.currency]
  | listTransfers fromId toId pageId pageSize =>
    ["list-transfers", Integer.toText fromId, Integer.toText toId, Integer.toText pageId,
      Integer.toText pageSize]
  | listEntries accountId pageId pageSize =>
    ["list-entries", Integer.toText accountId, Integer.toText pageId, Integer.toText pageSize]
  | reconcile accountId => ["reconcile", Integer.toText accountId]

/-- The command looks at accounts that an earlier run has made. -/
def NeedsDatabase : Command → Prop
  | createAccount .. => False
  | _ => True

instance (c : Command) : Decidable c.NeedsDatabase := by
  unfold NeedsDatabase
  split <;> infer_instance

/-- What the command asks of the ledger. -/
def operation : Command → Operation
  | createAccount owner currency deposit => .openAccount owner currency deposit
  | getAccount id => .getAccount id
  | listAccounts owner pageId pageSize => .listAccounts owner pageId pageSize
  | transfer request => .transfer request .usual
  | listTransfers fromId toId pageId pageSize => .listTransfers fromId toId pageId pageSize
  | listEntries accountId pageId pageSize => .listEntries accountId pageId pageSize
  | reconcile accountId => .reconcile accountId

end Command
end FundsLedger
