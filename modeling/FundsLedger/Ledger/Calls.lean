import FundsLedger.Ledger.Basic

/-!
Calls of a unit of work on the ledger in memory. A call that needs a row lock first makes sure that
it could succeed, then asks for the lock, and looks at the row again once it holds it: the previous
holder may have changed the row. All other calls end at once.
-/

namespace FundsLedger.Ledger

/-- What a call leaves behind: how it ended, the identifiers given out by then, and the unit of
work. -/
structure Performed (c : Call) where
  result : c.Result
  drawn : Drawn
  unit : UnitOfWork

/-- Carries out a call for a unit of work that holds the lock which the call needs. -/
def perform (l : Ledger) (w : UnitOfWork) : (c : Call) → Performed c
  | .createAccount owner currency balance =>
    let account : Account := ⟨idAfter l.drawn.accounts, owner, balance, currency, l.clock⟩
    -- The identifier is spent even when the account is refused.
    let drawn := { l.drawn with accounts := l.drawn.accounts + 1 }
    if w.isDuplicate l.books account then
      ⟨.error (.duplicateAccount owner currency.code), drawn, w⟩
    else
      ⟨.ok account, drawn, { w with accounts := w.accounts.insert account.id account }⟩
  | .getAccount id =>
    match w.visible? l.books id with
    | none => ⟨.error (.accountNotFound id), l.drawn, w⟩
    | some account => ⟨.ok account, l.drawn, w⟩
  | .getForUpdate id =>
    match w.visible? l.books id with
    | none => ⟨.error (.accountNotFound id), l.drawn, w⟩
    | some account => ⟨.ok account, l.drawn, w⟩
  | .addBalance id delta =>
    match w.visible? l.books id with
    | none => ⟨.error (.accountNotFound id), l.drawn, w⟩
    | some account =>
      match account.balance.add? delta with
      | none => ⟨.error (.internal s!"balance overflow on account {id}"), l.drawn, w⟩
      | some balance =>
        let changed := { account with balance }
        ⟨.ok changed, l.drawn, { w with accounts := w.accounts.insert id changed }⟩
  | .listByOwner owner page => ⟨.ok (page.window (w.accountsOf l.books owner)), l.drawn, w⟩
  | .appendEntry accountId amount =>
    match l.injected? .appendEntry with
    | some e => ⟨.error e, l.drawn, w⟩
    | none =>
      match w.visible? l.books accountId with
      | none => ⟨.error (.accountNotFound accountId), l.drawn, w⟩
      | some _ =>
        let entry : Entry := ⟨idAfter l.drawn.entries, accountId, amount, l.clock⟩
        ⟨.ok entry, { l.drawn with entries := l.drawn.entries + 1 },
          { w with entries := w.entries ++ [entry] }⟩
  | .getEntry id => ⟨.ok (w.entry? l.books id), l.drawn, w⟩
  | .listEntries accountId page =>
    ⟨.ok (page.window (w.entriesOf l.books accountId)), l.drawn, w⟩
  | .entrySum accountId =>
    match w.entrySum? l.books accountId with
    | none => ⟨.error (.internal s!"entry sum overflow on account {accountId}"), l.drawn, w⟩
    | some sum => ⟨.ok sum, l.drawn, w⟩
  | .appendTransfer fromId toId amount =>
    match l.injected? .appendTransfer with
    | some e => ⟨.error e, l.drawn, w⟩
    | none =>
      match [fromId, toId].find? (fun id => (w.visible? l.books id).isNone) with
      | some missing => ⟨.error (.accountNotFound missing), l.drawn, w⟩
      | none =>
        let transfer : Transfer :=
          ⟨idAfter l.drawn.transfers, fromId, toId, amount, l.clock⟩
        ⟨.ok transfer, { l.drawn with transfers := l.drawn.transfers + 1 },
          { w with transfers := w.transfers ++ [transfer] }⟩
  | .getTransfer id => ⟨.ok (w.transfer? l.books id), l.drawn, w⟩
  | .listTransfers fromId toId page =>
    ⟨.ok (page.window (w.transfersBetween l.books fromId toId)), l.drawn, w⟩

/-- Why a call that needs a row lock fails before it asks for the lock. -/
def refusal? (l : Ledger) (w : UnitOfWork) : Call → Option StoreError
  | .getForUpdate id =>
    if (w.visible? l.books id).isNone then some (.accountNotFound id) else none
  | .addBalance id _ =>
    (l.injected? .addBalance).or
      (if (w.visible? l.books id).isNone then some (.accountNotFound id) else none)
  | _ => none

/-- How far a call has come: it has ended, or it waits for a row lock. -/
inductive Outcome (c : Call) where
  | answered (result : c.Result)
  | waits

/-- Ends a call of an open unit of work. -/
def finish (l : Ledger) (u : UnitId) (w : UnitOfWork) (c : Call) : Ledger × Outcome c :=
  let p := l.perform w c
  ({ l with drawn := p.drawn, units := l.units.insert u { p.unit with pending := none } },
    .answered p.result)

/-- Starts a call of a unit of work; nothing if it is not open or is already waiting in a call. -/
def call? (l : Ledger) (u : UnitId) (c : Call) : Option (Ledger × Outcome c) :=
  match l.units.find? u with
  | none => none
  | some w =>
    if w.pending.isSome then none
    else
      match l.refusal? w c with
      | some e => some (l, .answered (.error e))
      | none =>
        match c.row? with
        | none => some (l.finish u w c)
        | some row =>
          -- A row that is free is held at once; otherwise the request stands in line.
          let asked := l.request u row
          if asked.Holds u row then some (asked.finish u w c)
          else
            some ({ asked with units := asked.units.insert u { w with pending := some c } }, .waits)

/-- Goes on with the call in which a unit of work waits; nothing if it does not wait in it. -/
def resume? (l : Ledger) (u : UnitId) (c : Call) : Option (Ledger × Outcome c) :=
  match l.units.find? u with
  | none => none
  | some w =>
    if w.pending = some c then
      match c.row? with
      | none => none
      | some row => if l.Holds u row then some (l.finish u w c) else some (l, .waits)
    else none

/-- Gives up the call in which a unit of work waits; the unit of work stays open. -/
def withdraw (l : Ledger) (u : UnitId) : Ledger :=
  match l.units.find? u with
  | none => l
  | some w =>
    match w.pending with
    | none => l
    | some c =>
      { l with
        units := l.units.insert u { w with pending := none }
        requests := l.requests.filter fun r => !(r.unit = u && c.row? = some r.row) }

end FundsLedger.Ledger
