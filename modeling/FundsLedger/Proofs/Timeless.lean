import FundsLedger.Operation
import FundsLedger.Proofs.Ledger.Staging

/-!
Rows without their times. Taking the time out of every row commutes with everything that a unit of
work does to rows: it looks at their identifiers, owners, currencies and amounts, and never at when
they were written. So a ledger without times makes a call as the ledger with times makes it, and
`perform_timeless` says that for all calls at once.
-/

namespace FundsLedger

/-! ## Rows changed under their keys -/

section Rows

variable {α β : Type} {g : α → α} {rowId : α → Int}

namespace Table

/-- Changes every row and leaves it under its key. -/
def map (f : α → β) (t : Table α) : Table β :=
  ⟨t.rows.map (Prod.map id f), List.pairwise_map.mpr t.ascending⟩

theorem findRow_map (f : α → β) (key : Int) (rows : List (Int × α)) :
    findRow key (rows.map (Prod.map id f)) = (findRow key rows).map f := by
  induction rows with
  | nil => rfl
  | cons p rest ih =>
    obtain ⟨k, r⟩ := p
    rw [List.map_cons, Prod.map_apply, findRow, findRow, ih]
    by_cases heq : key = k <;> simp [heq]

@[simp] theorem find?_map (f : α → β) (t : Table α) (key : Int) :
    (t.map f).find? key = (t.find? key).map f :=
  findRow_map f key t.rows

theorem values_map (f : α → β) (t : Table α) : (t.map f).values = t.values.map f := by
  simp [values, map, Function.comp_def]

theorem map_insert (f : α → β) (t : Table α) (key : Int) (row : α) :
    (t.insert key row).map f = (t.map f).insert key (f row) := by
  apply ext_find?
  intro k
  simp only [find?_map, find?_insert]
  split <;> rfl

theorem map_overlay (f : α → β) (t s : Table α) :
    (t.overlay s).map f = (t.map f).overlay (s.map f) := by
  apply ext_find?
  intro k
  simp only [find?_map, find?_overlay]
  cases s.find? k <;> rfl

theorem map_filter {test : α → Bool} (h : ∀ r, test (g r) = test r) (t : Table α) :
    (t.filter test).map g = (t.map g).filter test := by
  apply ext_find?
  intro k
  simp only [find?_map, find?_filter]
  cases t.find? k with
  | none => rfl
  | some r =>
    simp only [Option.map_some, Option.filter_some, h]
    split <;> rfl

/-- Rows that are put in under identifiers which the change leaves as they are. -/
theorem map_foldl_insert (h : ∀ r, rowId (g r) = rowId r) (rows : List α) (t : Table α) :
    (rows.foldl (fun t r => t.insert (rowId r) r) t).map g =
      (rows.map g).foldl (fun t r => t.insert (rowId r) r) (t.map g) := by
  induction rows generalizing t with
  | nil => rfl
  | cons r rest ih => rw [List.foldl_cons, List.map_cons, List.foldl_cons, ih, map_insert, h]

end Table

theorem insertOrdered_map (h : ∀ r, rowId (g r) = rowId r) (row : α) (rows : List α) :
    insertOrdered rowId (g row) (rows.map g) = (insertOrdered rowId row rows).map g := by
  induction rows with
  | nil => rfl
  | cons r rest ih =>
    rw [List.map_cons, insertOrdered, insertOrdered, h, h, ih]
    split <;> rfl

theorem orderById_map (h : ∀ r, rowId (g r) = rowId r) (rows : List α) :
    orderById rowId (rows.map g) = (orderById rowId rows).map g := by
  induction rows with
  | nil => rfl
  | cons r rest ih =>
    rw [List.map_cons, orderById, List.foldr_cons, ← orderById, ih, insertOrdered_map h]
    rfl

theorem Page.window_map (p : Page) (f : α → β) (rows : List α) :
    p.window (rows.map f) = (p.window rows).map f := by
  simp [window, List.map_take, List.map_drop]

end Rows

/-! ## What is left without times -/

/-- The account without its time. -/
def Account.timeless (a : Account) : Account := { a with createdAt := Timestamp.epoch }

/-- The entry without its time. -/
def Entry.timeless (e : Entry) : Entry := { e with createdAt := Timestamp.epoch }

/-- The transfer without its time. -/
def Transfer.timeless (t : Transfer) : Transfer := { t with createdAt := Timestamp.epoch }

/-- The receipt without the times of its rows. -/
def Receipt.timeless (r : Receipt) : Receipt :=
  ⟨r.transfer.timeless, r.fromEntry.timeless, r.toEntry.timeless, r.fromAccount.timeless,
    r.toAccount.timeless⟩

/-- What a call answers, without the times of its rows. -/
def Call.timeless : (c : Call) → c.Answer → c.Answer
  | createAccount .. | getAccount _ | getForUpdate _ | addBalance .. => Account.timeless
  | listByOwner .. => List.map Account.timeless
  | appendEntry .. => Entry.timeless
  | getEntry _ => Option.map Entry.timeless
  | listEntries .. => List.map Entry.timeless
  | entrySum _ => id
  | appendTransfer .. => Transfer.timeless
  | getTransfer _ => Option.map Transfer.timeless
  | listTransfers .. => List.map Transfer.timeless

/-- A note without the times in it. -/
def Noted.timeless {ε : Type} (n : Noted ε) : Noted ε := ⟨n.call, n.result.map n.call.timeless⟩

/-- What a client gets, without the times in it. -/
def Answer.timeless : Answer → Answer
  | account r => account (r.map Account.timeless)
  | accounts r => accounts (r.map (List.map Account.timeless))
  | receipt r => receipt (r.map Receipt.timeless)
  | transfer r => transfer (r.map Transfer.timeless)
  | transfers r => transfers (r.map (List.map Transfer.timeless))
  | entries r => entries (r.map (List.map Entry.timeless))
  | reconciliation r => reconciliation r
  | script r => script (r.map (List.map Noted.timeless))
  | call a => call ⟨a.call, a.result.map a.call.timeless⟩

/-- The books without the times of their rows. -/
def Books.timeless (b : Books) : Books where
  accounts := b.accounts.map Account.timeless
  entries := b.entries.map Entry.timeless
  transfers := b.transfers.map Transfer.timeless

/-- The unit of work without the times of what it has staged. -/
def UnitOfWork.timeless (w : UnitOfWork) : UnitOfWork where
  accounts := w.accounts.map Account.timeless
  entries := w.entries.map Entry.timeless
  transfers := w.transfers.map Transfer.timeless
  pending := w.pending

/-- The ledger with neither a clock nor times in its books. -/
def Ledger.timeless (l : Ledger) : Ledger :=
  { l with books := l.books.timeless, clock := Timestamp.epoch }

/-- What a call leaves behind, without times. -/
def Ledger.Performed.timeless {c : Call} (p : Performed c) : Performed c :=
  ⟨p.result.map c.timeless, p.drawn, p.unit.timeless⟩

@[simp] theorem Entry.timeless_id (e : Entry) : e.timeless.id = e.id := rfl

@[simp] theorem Transfer.timeless_id (t : Transfer) : t.timeless.id = t.id := rfl

/-- Accounts that differ in their times at most. -/
theorem Account.timeless_eq_iff {a a' : Account} :
    a.timeless = a'.timeless ↔ ∃ t, a' = { a with createdAt := t } := by
  constructor
  · intro h
    obtain ⟨id, owner, balance, currency, t⟩ := a
    obtain ⟨id', owner', balance', currency', t'⟩ := a'
    cases h
    exact ⟨t', rfl⟩
  · rintro ⟨t, rfl⟩
    rfl

/-! ## What a unit of work sees -/

namespace Books

variable (b : Books)

theorem entriesOf_timeless (id : AccountId) :
    b.timeless.entriesOf id = (b.entriesOf id).map Entry.timeless := by
  rw [entriesOf, timeless, Table.values_map, List.filter_map]
  rfl

theorem transfersBetween_timeless (fromId toId : AccountId) :
    b.timeless.transfersBetween fromId toId =
      (b.transfersBetween fromId toId).map Transfer.timeless := by
  rw [transfersBetween, timeless, Table.values_map, List.filter_map]
  rfl

end Books

namespace UnitOfWork

variable (w : UnitOfWork) (b : Books)

theorem visible?_timeless (id : AccountId) :
    w.timeless.visible? b.timeless id = (w.visible? b id).map Account.timeless := by
  simp only [visible?, timeless, Books.timeless, Table.find?_map]
  cases w.accounts.find? id <;> rfl

theorem isDuplicate_timeless (a : Account) :
    w.timeless.isDuplicate b.timeless a.timeless = w.isDuplicate b a := by
  rw [isDuplicate, timeless, Books.timeless, Table.values_map, Table.values_map, ← List.map_append,
    List.any_map]
  rfl

theorem accountsOf_timeless (owner : String) :
    w.timeless.accountsOf b.timeless owner = (w.accountsOf b owner).map Account.timeless := by
  have howner : ∀ t : Table Account, (t.filter (·.owner = owner)).map Account.timeless =
      (t.map Account.timeless).filter (·.owner = owner) := Table.map_filter fun _ => rfl
  rw [accountsOf, accountsOf, ← Table.values_map, Table.map_overlay, howner, howner]
  rfl

theorem entriesOf_timeless (id : AccountId) :
    w.timeless.entriesOf b.timeless id = (w.entriesOf b id).map Entry.timeless := by
  rw [entriesOf, entriesOf, Books.entriesOf_timeless, timeless, List.filter_map, ← List.map_append,
    orderById_map Entry.timeless_id]
  rfl

theorem transfersBetween_timeless (fromId toId : AccountId) :
    w.timeless.transfersBetween b.timeless fromId toId =
      (w.transfersBetween b fromId toId).map Transfer.timeless := by
  rw [transfersBetween, transfersBetween, Books.transfersBetween_timeless, timeless,
    List.filter_map, ← List.map_append, orderById_map Transfer.timeless_id]
  rfl

theorem entry?_timeless (id : EntryId) :
    w.timeless.entry? b.timeless id = (w.entry? b id).map Entry.timeless := by
  simp only [timeless, entry?, Books.timeless, Table.find?_map, List.find?_map]
  rw [Option.map_or]
  rfl

theorem transfer?_timeless (id : TransferId) :
    w.timeless.transfer? b.timeless id = (w.transfer? b id).map Transfer.timeless := by
  simp only [transfer?, timeless, Books.timeless, Table.find?_map, List.find?_map]
  rw [Option.map_or]
  rfl

theorem entrySum?_timeless (id : AccountId) :
    w.timeless.entrySum? b.timeless id = w.entrySum? b id := by
  rw [entrySum?, entrySum?, Books.entriesOf_timeless, timeless, List.filter_map, List.map_map,
    List.map_map]
  rfl

theorem publish_timeless :
    w.timeless.publish b.timeless = (w.publish b).timeless := by
  have hentries : (w.entries.foldl (fun t e => t.insert e.id e) b.entries).map Entry.timeless =
      (w.entries.map Entry.timeless).foldl (fun t e => t.insert e.id e)
        (b.entries.map Entry.timeless) := Table.map_foldl_insert Entry.timeless_id _ _
  have htransfers :
      (w.transfers.foldl (fun t x => t.insert x.id x) b.transfers).map Transfer.timeless =
        (w.transfers.map Transfer.timeless).foldl (fun t x => t.insert x.id x)
          (b.transfers.map Transfer.timeless) := Table.map_foldl_insert Transfer.timeless_id _ _
  simp only [publish, timeless, Books.timeless, Table.map_overlay, hentries, htransfers]

theorem firstDuplicate?_timeless :
    w.timeless.firstDuplicate? b.timeless = (w.firstDuplicate? b).map Account.timeless := by
  have hnew : ∀ a : Account, (!b.timeless.accounts.contains a.timeless.id &&
      w.timeless.isDuplicate b.timeless a.timeless) =
        (!b.accounts.contains a.id && w.isDuplicate b a) := by
    intro a
    rw [isDuplicate_timeless, Table.contains, Books.timeless, Table.find?_map, Option.isSome_map]
    rfl
  rw [firstDuplicate?, firstDuplicate?, timeless, Table.values_map, List.find?_map]
  exact congrArg _ (congrArg (List.find? · _) (funext hnew))

end UnitOfWork

/-! ## Calls -/

namespace Ledger

/-- Whether a call is refused before it asks for a row has nothing to do with times. -/
theorem refusal?_timeless (l : Ledger) (w : UnitOfWork) (c : Call) :
    l.timeless.refusal? w.timeless c = l.refusal? w c := by
  have hmissing : ∀ id, (w.timeless.visible? l.timeless.books id).isNone =
      (w.visible? l.books id).isNone := by
    intro id
    rw [timeless, UnitOfWork.visible?_timeless, Option.isNone_map]
  cases c <;> simp only [refusal?, hmissing]
  rfl

/-- A call is made without times as it is made with them. -/
theorem perform_timeless (l : Ledger) (w : UnitOfWork) (c : Call) :
    l.timeless.perform w.timeless c = (l.perform w c).timeless := by
  have hvisible : ∀ id, w.timeless.visible? l.timeless.books id =
      (w.visible? l.books id).map Account.timeless := fun id => w.visible?_timeless l.books id
  have hinjected : ∀ point, l.timeless.injected? point = l.injected? point := fun _ => rfl
  have hdrawn : l.timeless.drawn = l.drawn := rfl
  have hclock : l.timeless.clock = Timestamp.epoch := rfl
  cases c with
  | createAccount owner currency balance =>
    simp only [perform, hdrawn, hclock]
    generalize idAfter l.drawn.accounts = accountId
    have hduplicate : w.timeless.isDuplicate l.timeless.books
        ⟨accountId, owner, balance, currency, Timestamp.epoch⟩ =
          w.isDuplicate l.books ⟨accountId, owner, balance, currency, l.clock⟩ :=
      w.isDuplicate_timeless l.books ⟨accountId, owner, balance, currency, l.clock⟩
    rw [hduplicate]
    split
    · rfl
    · simp only [Performed.timeless, UnitOfWork.timeless, Table.map_insert]
      rfl
  | getAccount id =>
    simp only [perform, hvisible]
    cases w.visible? l.books id <;> rfl
  | getForUpdate id =>
    simp only [perform, hvisible]
    cases w.visible? l.books id <;> rfl
  | addBalance id delta =>
    simp only [perform, hvisible]
    cases w.visible? l.books id with
    | none => rfl
    | some a =>
      have hbalance : a.timeless.balance = a.balance := rfl
      simp only [Option.map_some, hbalance]
      cases a.balance.add? delta with
      | none => rfl
      | some sum =>
        simp only [Performed.timeless, UnitOfWork.timeless, Table.map_insert]
        rfl
  | listByOwner owner page =>
    simp only [perform, timeless, UnitOfWork.accountsOf_timeless, Page.window_map]
    rfl
  | appendEntry accountId amount =>
    simp only [perform, hinjected, hvisible, hdrawn, hclock]
    generalize idAfter l.drawn.entries = entryId
    cases l.injected? .appendEntry with
    | some e => rfl
    | none =>
      cases w.visible? l.books accountId with
      | none => rfl
      | some a =>
        simp only [Performed.timeless, UnitOfWork.timeless, List.map_append]
        rfl
  | getEntry id =>
    simp only [perform, timeless, UnitOfWork.entry?_timeless]
    rfl
  | listEntries accountId page =>
    simp only [perform, timeless, UnitOfWork.entriesOf_timeless, Page.window_map]
    rfl
  | entrySum accountId =>
    simp only [perform, timeless, UnitOfWork.entrySum?_timeless]
    cases w.entrySum? l.books accountId <;> rfl
  | appendTransfer fromId toId amount =>
    simp only [perform, hinjected, hvisible, Option.isNone_map, hdrawn, hclock]
    generalize idAfter l.drawn.transfers = transferId
    cases l.injected? .appendTransfer with
    | some e => rfl
    | none =>
      cases [fromId, toId].find? fun id => (w.visible? l.books id).isNone with
      | some missing => rfl
      | none =>
        simp only [Performed.timeless, UnitOfWork.timeless, List.map_append]
        rfl
  | getTransfer id =>
    simp only [perform, timeless, UnitOfWork.transfer?_timeless]
    rfl
  | listTransfers fromId toId page =>
    simp only [perform, timeless, UnitOfWork.transfersBetween_timeless, Page.window_map]
    rfl

end Ledger
end FundsLedger
