import FundsLedger.Proofs.Accounting
import FundsLedger.Proofs.Transfer.Serial

/-!
One attempt at a transfer, against the sequential reference. When an attempt gives up, the reference
gives the same answer on the books that the attempt has just found, unless the store has been told
to fail; when it succeeds, it has staged what the reference writes to the two accounts that it
holds.
-/

namespace FundsLedger

open Ledger

/-- The failure is an answer to the request, and not a failure to answer it. -/
def TransferError.IsVerdict : TransferError → Prop
  | invalidRequest _ | accountNotFound _ | currencyMismatch .. | insufficientFunds .. => True
  | conflict _ | deadlineExceeded | cancelled | transferNotFound _ | internal _ => False

theorem StoreError.IsFault.not_verdict {e : StoreError} (h : e.IsFault) :
    ¬ (ofStoreError e : TransferError).IsVerdict := by
  obtain ⟨text, rfl⟩ := h
  exact id

namespace TransferOrder

variable {o : TransferOrder} {r : TransferRequest} {source destination : Account} {K : Rules}
variable {v v' : View} {l : Ledger} {u : UnitId} {p : Option Call} {seen : List Books}

/-- The part of an attempt that comes after both balances have been changed. -/
def recording (o : TransferOrder) (fromAccount toAccount : Account) :
    Work TransferError Receipt := do
  let fromEntry ← Work.ask (.appendEntry o.fromId o.amount.neg)
  let toEntry ← Work.ask (.appendEntry o.toId o.amount)
  let transfer ← Work.ask (.appendTransfer o.fromId o.toId o.amount)
  return { transfer, fromEntry, toEntry, fromAccount, toAccount }

/-- The writes of an attempt. -/
def writing (o : TransferOrder) : Work TransferError Receipt := do
  let fromAccount ← Work.ask (.addBalance o.fromId o.amount.neg)
  let toAccount ← Work.ask (.addBalance o.toId o.amount)
  o.recording fromAccount toAccount

/-- The part of an attempt that comes after both rows have been locked. -/
def moving (o : TransferOrder) (source destination : Account) : Work TransferError Receipt := do
  o.requireCurrency source
  o.requireCurrency destination
  Work.require (source.CanCover o.amount) (.insufficientFunds o.fromId source.balance o.amount)
  Work.require (destination.balance.add? o.amount).isSome
    (.invalidRequest s!"credit would overflow balance of account {o.toId}")
  o.writing

/-- The part of an attempt that locks two rows, the one of `first` before the one of `second`. -/
def locking (first second : AccountId) (next : Account → Account → Work TransferError Receipt) :
    Work TransferError Receipt := do
  Work.report (.lockingRows first second)
  let firstAccount ← Work.ask (.getForUpdate first)
  let secondAccount ← Work.ask (.getForUpdate second)
  next firstAccount secondAccount

theorem attempt_eq (o : TransferOrder) :
    o.attempt =
      if o.fromId ≤ o.toId then locking o.fromId o.toId o.moving
      else locking o.toId o.fromId fun b a => o.moving a b := by
  unfold attempt
  by_cases hle : o.fromId ≤ o.toId
  · rw [show lockOrder o.fromId o.toId = (o.fromId, o.toId) from if_pos hle, if_pos hle]
    simp only [if_true]
    rfl
  · have hne : ¬ o.toId = o.fromId := fun heq => o.distinct heq.symm
    rw [show lockOrder o.fromId o.toId = (o.toId, o.fromId) from if_neg hle, if_neg hle]
    simp only [if_neg hne]
    rfl

/-- The task holds the rows of the two accounts and no other row. -/
structure Locked (o : TransferOrder) (v : View) (source destination : Account) : Prop where
  source : v.locked.find? o.fromId = some (some source)
  destination : v.locked.find? o.toId = some (some destination)
  others : ∀ id : Int, id ≠ o.fromId → id ≠ o.toId → v.locked.find? id = none

/-- The books in which the two accounts stand. -/
structure Stand (o : TransferOrder) (b : Books) (source destination : Account) : Prop where
  source : b.accounts.find? o.fromId = some source
  destination : b.accounts.find? o.toId = some destination

/-- The two accounts pass the checks of an attempt: they are in the currency of the order, and there
are funds for the debit and room for the credit. -/
structure Passes (o : TransferOrder) (source destination : Account) : Prop where
  currencies : source.currency = o.currency ∧ destination.currency = o.currency
  funds : o.amount.units ≤ source.balance.units
  room : destination.balance.units + o.amount.units ≤ 9223372036854775807

/-- The call is one of the five writes of an attempt. A balance that it is to change has not been
changed before. -/
inductive Writes (o : TransferOrder) (v : View) : Call → Prop
  | debit (unstaged : v.staged.accounts.find? o.fromId = none) :
      Writes o v (.addBalance o.fromId o.amount.neg)
  | credit (unstaged : v.staged.accounts.find? o.toId = none) :
      Writes o v (.addBalance o.toId o.amount)
  | debitEntry : Writes o v (.appendEntry o.fromId o.amount.neg)
  | creditEntry : Writes o v (.appendEntry o.toId o.amount)
  | transfer : Writes o v (.appendTransfer o.fromId o.toId o.amount)

/-- The rules of an attempt are those of accounting, and it writes only what it is for, and only
while it holds the rows of two accounts that have passed its checks. -/
def assured (o : TransferOrder) : Rules where
  relies := Rules.accounting.relies
  calls v c := Rules.accounting.calls v c ∧ (c.IsWrite → o.Writes v c ∧
    ∃ source destination, o.Locked v source destination ∧ o.Passes source destination)
  commits := Rules.accounting.commits

theorem assured_lenient (o : TransferOrder) : o.assured.Lenient Rules.accounting :=
  ⟨fun _ hr => hr, fun _ _ hc => hc.1, fun _ hv => hv⟩

/-- Who relies on what an attempt relies on finds the ledger as accounting does. -/
theorem accounting_finds (hK : o.assured.Lenient K) (hf : K.Finds v l u p) :
    Rules.accounting.Finds v l u p :=
  ⟨hf.lawful, hK.relies l hf.relied, hf.fits⟩

/-- The attempt gives up: the reference gives the same answer on some books that the attempt has
found, or a call has failed where the store had been told to fail. -/
def GivesUp (K : Rules) (r : TransferRequest) (seen : List Books) (e : TransferError) : Prop :=
  (∃ b ∈ seen, ∀ k, r.serial k b = (.error e, b)) ∨
    ∃ l point fault, K.relies l ∧ l.injected? point = some fault ∧ e = ofStoreError fault

/-- What is an answer to the request is the answer of the reference. -/
theorem GivesUp.verdict {e : TransferError} (h : GivesUp K r seen e) (hverdict : e.IsVerdict) :
    ∃ b ∈ seen, ∀ k, r.serial k b = (.error e, b) := by
  rcases h with hserial | ⟨l, point, fault, -, hinjected, rfl⟩
  · exact hserial
  · exact absurd hverdict (View.injected?_isFault hinjected).not_verdict

/-- The attempt has staged what a receipt says, and the receipt says what the reference does. -/
structure Stages (r : TransferRequest) (o : TransferOrder) (v : View) (source destination : Account)
    (receipt : Receipt) : Prop where
  locked : o.Locked v source destination
  serial : ∀ b, o.Stand b source destination →
    ∃ k, r.serial k b = (.ok receipt, receipt.post b) ∧ k.transfer = receipt.transfer.id ∧
      k.debit = receipt.fromEntry.id ∧ k.credit = receipt.toEntry.id
  ends : receipt.transfer.fromId = o.fromId ∧ receipt.transfer.toId = o.toId
  accounts : v.staged.accounts =
    (Table.empty.insert o.fromId receipt.fromAccount).insert o.toId receipt.toAccount
  entries : v.staged.entries = [receipt.fromEntry, receipt.toEntry]
  transfers : v.staged.transfers = [receipt.transfer]

/-- How an attempt ends. -/
def Attempted (K : Rules) (r : TransferRequest) (o : TransferOrder) (seen : List Books) (v : View) :
    Except TransferError Receipt → Prop
  | .ok receipt => v.Settled ∧ ∃ source destination, Stages r o v source destination receipt
  | .error e => GivesUp K r seen e

theorem Locked.congr (h : o.Locked v source destination) (hv : v'.locked = v.locked) :
    o.Locked v' source destination :=
  ⟨by rw [hv]; exact h.source, by rw [hv]; exact h.destination,
    fun id hsource hdestination => by rw [hv]; exact h.others id hsource hdestination⟩

theorem Locked.stand (h : o.Locked v source destination)
    (hf : Rules.accounting.Finds v l u p) : o.Stand l.books source destination :=
  ⟨Rules.accounting.row hf h.source, Rules.accounting.row hf h.destination⟩

/-- Locking a row again that is locked already changes nothing. -/
theorem Locked.relock {id : AccountId} {a : Option Account}
    (h : o.Locked v source destination) (hf : Rules.accounting.Finds v l u p)
    (hid : v.locked.find? id = some a) (hv : v'.locked = (v.lock l id).locked) :
    o.Locked v' source destination := by
  refine h.congr (Table.ext_find? fun key => ?_)
  rw [hv, View.lock, Table.find?_insert]
  split
  · rename_i heq
    rw [heq, Rules.accounting.row hf hid, hid]
  · rfl

theorem Locked.start_source (h : o.Locked v source destination) :
    v.start o.fromId = source.balance.units := by
  simp [View.start, h.source]

theorem Locked.start_destination (h : o.Locked v source destination) :
    v.start o.toId = destination.balance.units := by
  simp [View.start, h.destination]

/-- Both accounts are staged, each with an entry on it that makes up the difference. -/
theorem Locked.settled {a a' : Account} {e₁ e₂ : Entry} (h : o.Locked v source destination)
    (haccounts : v.staged.accounts = (Table.empty.insert o.fromId a).insert o.toId a')
    (hentries : v.staged.entries = [e₁, e₂])
    (h₁ : e₁.accountId = o.fromId ∧ a.balance.units = source.balance.units + e₁.amount.units)
    (h₂ : e₂.accountId = o.toId ∧ a'.balance.units = destination.balance.units + e₂.amount.units) :
    v.Settled := by
  intro id
  have hne := o.distinct
  by_cases hfrom : id = o.fromId
  · subst hfrom
    simp [View.balance, h.start_source, UnitOfWork.movements, UnitOfWork.entriesOn, haccounts,
      hentries, h₁, h₂, hne, hne.symm]
  · by_cases hto : id = o.toId
    · subst hto
      simp [View.balance, h.start_destination, UnitOfWork.movements, UnitOfWork.entriesOn,
        haccounts, hentries, h₁, h₂, hne]
    · have hfrom' : o.fromId ≠ id := fun heq => hfrom heq.symm
      have hto' : o.toId ≠ id := fun heq => hto heq.symm
      simp [View.balance, UnitOfWork.movements, UnitOfWork.entriesOn, haccounts, hentries, h₁, h₂,
        hfrom, hto, hfrom', hto']

theorem Stand.sees {id : AccountId} (h : o.Stand l.books source destination)
    (hid : id = o.fromId ∨ id = o.toId) : v.sees? l id ≠ none := by
  intro hnone
  rw [View.sees?, UnitOfWork.visible?, Option.or_eq_none_iff] at hnone
  rcases hid with rfl | rfl
  · rw [h.source] at hnone
    cases hnone.2
  · rw [h.destination] at hnone
    cases hnone.2

/-- For an order whose accounts stand in the books the reference only looks at these. -/
theorem serial_of_stand (h : r.Asks o) {b : Books} (hs : o.Stand b source destination)
    (k : Stamps) :
    r.serial k b =
      if source.currency ≠ o.currency then
        (.error (.currencyMismatch o.fromId o.currency source.currency), b)
      else if destination.currency ≠ o.currency then
        (.error (.currencyMismatch o.toId o.currency destination.currency), b)
      else if hfunds : source.balance.units < r.amount.units then
        (.error (.insufficientFunds o.fromId source.balance o.amount), b)
      else if hroom : 9223372036854775807 < destination.balance.units + r.amount.units then
        (.error (.invalidRequest s!"credit would overflow balance of account {o.toId}"), b)
      else
        let receipt := r.receipt k source destination
          (by have := o.amount_pos; rw [h.amount]; omega) hfunds hroom
        (.ok receipt, receipt.post b) := by
  rw [TransferRequest.serial_of_asks h, hs.source, hs.destination]

/-! ## The parts of an attempt -/

/-- The rows of both accounts are locked one after the other. If an account is missing, the other
one is there or has the greater identifier. -/
theorem locking_meets (hK : o.assured.Lenient K) {first second : Int}
    {next : Account → Account → Work TransferError Receipt}
    {post : List Books → View → Except TransferError Receipt → Prop} (hne : first ≠ second)
    (hfirst : ∀ b seen v, b.accounts.find? first = none →
      post (b :: seen) v (.error (.accountNotFound first)))
    (hsecond : ∀ b seen v a, b.accounts.find? first = some a → b.accounts.find? second = none →
      post (b :: seen) v (.error (.accountNotFound second)))
    (hnext : ∀ b seen v a a', b.accounts.find? first = some a → b.accounts.find? second = some a' →
      a.id = first → a'.id = second → v.staged = UnitOfWork.fresh →
      v.locked.find? first = some (some a) → v.locked.find? second = some (some a') →
      (∀ id : Int, id ≠ first → id ≠ second → v.locked.find? id = none) →
      (next a a').Meets K post (b :: seen) v) :
    (locking first second next).Meets K post seen View.fresh := by
  have hsees : ∀ (l : Ledger) (v : View) (id : Int), v.staged = UnitOfWork.fresh →
      v.sees? l id = l.books.accounts.find? id := by
    intro l v id hv
    simp [View.sees?, UnitOfWork.visible?, hv, UnitOfWork.fresh]
  show (Work.ask (.getForUpdate first) >>= _).Meets _ _ _ _
  refine .ask (hK.calls _ _ ⟨trivial, False.elim⟩) fun l u p r v hf ha => ?_
  rcases View.answers_getForUpdate ha with ⟨hnone, rfl⟩ | ⟨a, hsome, rfl, rfl⟩
  · rw [hsees l _ first rfl] at hnone
    exact hfirst l.books seen v hnone
  rw [hsees l _ first rfl] at hsome
  have hid := (Rules.accounting.sound (accounting_finds hK hf)).committed first a hsome
  have hlocked : (View.fresh.lock l first).locked.find? first = some (some a) := by
    simp [View.lock, hsome]
  refine .ask (hK.calls _ _ ⟨trivial, False.elim⟩) fun l' u p r v hf ha => ?_
  have hstill := Rules.accounting.row (accounting_finds hK hf) hlocked
  rcases View.answers_getForUpdate ha with ⟨hnone, rfl⟩ | ⟨a', hsome', rfl, rfl⟩
  · rw [hsees l' _ second rfl] at hnone
    exact hsecond l'.books _ v a hstill hnone
  rw [hsees l' _ second rfl] at hsome'
  have hid' := (Rules.accounting.sound (accounting_finds hK hf)).committed second a' hsome'
  refine hnext l'.books _ _ a a' hstill hsome' hid.1 hid'.1 rfl ?_ ?_ fun id hne₁ hne₂ => ?_
  · simp [View.lock, hne, hsome]
  · simp [View.lock, hsome']
  · simp [View.lock, hne₁, hne₂, View.fresh]

/-- A call on one of the two accounts fails only where the store has been told to fail. -/
theorem givesUp_of_failed {id : AccountId} {e : StoreError} {point : FailPoint} (hr : K.relies l)
    (hs : o.Stand l.books source destination) (hid : id = o.fromId ∨ id = o.toId)
    (he : l.injected? point = some e ∨ (v.sees? l id = none ∧ e = .accountNotFound id)) :
    GivesUp K r seen (ofStoreError e) := by
  rcases he with hinjected | ⟨hnone, -⟩
  · exact Or.inr ⟨l, point, e, hr, hinjected, rfl⟩
  · exact absurd hnone (hs.sees hid)

/-- A change of a balance that is in range fails only where the store has been told to fail. -/
theorem givesUp_of_unchanged {id : AccountId} {e : StoreError} {a : Account} {delta : Amount}
    (hr : K.relies l) (hsees : v.sees? l id = some a) (hrange : a.balance.add? delta ≠ none)
    (he : l.injected? .addBalance = some e ∨ (v.sees? l id = none ∧ e = .accountNotFound id) ∨
      ∃ a, v.sees? l id = some a ∧ a.balance.add? delta = none) :
    GivesUp K r seen (ofStoreError e) := by
  rcases he with hinjected | ⟨hnone, -⟩ | ⟨a', ha', hnone⟩
  · exact Or.inr ⟨l, .addBalance, e, hr, hinjected, rfl⟩
  · rw [hsees] at hnone
    cases hnone
  · rw [hsees] at ha'
    cases ha'
    exact absurd hnone hrange

/-- Nothing but the balance has been taken from the source and put on the destination. -/
theorem receipt_eq (h : r.Asks o) {debited credited : Amount} {e₁ e₂ : Entry} {t : Transfer}
    (hdebited : source.balance.add? o.amount.neg = some debited)
    (hcredited : destination.balance.add? o.amount = some credited)
    (he₁ : e₁.accountId = o.fromId ∧ e₁.amount = o.amount.neg)
    (he₂ : e₂.accountId = o.toId ∧ e₂.amount = o.amount)
    (ht : t.fromId = o.fromId ∧ t.toId = o.toId ∧ t.amount = o.amount)
    (hamount : ¬ r.amount.units ≤ 0) (hfunds : ¬ source.balance.units < r.amount.units)
    (hroom : ¬ 9223372036854775807 < destination.balance.units + r.amount.units) :
    r.receipt ⟨t.id, t.createdAt, e₁.id, e₁.createdAt, e₂.id, e₂.createdAt⟩ source destination
        hamount hfunds hroom =
      { transfer := t, fromEntry := e₁, toEntry := e₂
        fromAccount := { source with balance := debited }
        toAccount := { destination with balance := credited } } := by
  obtain ⟨id₁, account₁, amount₁, at₁⟩ := e₁
  obtain ⟨id₂, account₂, amount₂, at₂⟩ := e₂
  obtain ⟨id, fromId, toId, amount, at₀⟩ := t
  obtain ⟨rfl, rfl⟩ := he₁
  obtain ⟨rfl, rfl⟩ := he₂
  obtain ⟨rfl, rfl, rfl⟩ := ht
  have hneg := Amount.neg_units o.amount_pos
  rw [Amount.add?_eq_some_iff] at hdebited hcredited
  simp only [TransferRequest.receipt, h.fromId, h.toId, Receipt.mk.injEq, Transfer.mk.injEq,
    Entry.mk.injEq, Account.mk.injEq, true_and, and_true]
  have hunits : r.amount.units = o.amount.units := by rw [h.amount]
  refine ⟨h.amount, Amount.ext ?_, h.amount, Amount.ext ?_, Amount.ext ?_⟩
  · show -r.amount.units = _
    rw [hneg, hunits]
  · show source.balance.units - r.amount.units = _
    omega
  · show destination.balance.units + r.amount.units = _
    omega

/-- What has been checked of the order holds of the request. -/
theorem Passes.covered (hp : o.Passes source destination) (h : r.Asks o) :
    ¬ source.balance.units < r.amount.units := by
  rw [h.amount]
  exact Int.not_lt.mpr hp.funds

theorem Passes.fits (hp : o.Passes source destination) (h : r.Asks o) :
    ¬ 9223372036854775807 < destination.balance.units + r.amount.units := by
  rw [h.amount]
  exact Int.not_lt.mpr hp.room

/-- Balances that have been checked stay in range. -/
theorem Passes.add? (hp : o.Passes source destination) :
    source.balance.add? o.amount.neg ≠ none ∧ destination.balance.add? o.amount ≠ none := by
  have hpos := o.amount_pos
  have hneg := Amount.neg_units hpos
  have hupper := source.balance.upper
  have hlower := destination.balance.lower
  have hfunds := hp.funds
  have hroom := hp.room
  constructor
  · intro hnone
    have := Amount.add?_eq_none_iff.mp hnone
    omega
  · intro hnone
    have := Amount.add?_eq_none_iff.mp hnone
    omega

/-- Both balances have been changed, and nothing else has been written. -/
structure Changed (o : TransferOrder) (v : View) (source destination : Account)
    (debited credited : Amount) : Prop where
  locked : o.Locked v source destination
  staged : v.staged = { UnitOfWork.fresh with
    accounts := (Table.empty.insert o.fromId { source with balance := debited }).insert o.toId
      { destination with balance := credited } }
  debit : source.balance.add? o.amount.neg = some debited
  credit : destination.balance.add? o.amount = some credited

/-- The entries and the transfer fail only where the store has been told to fail; otherwise the
attempt has written what the reference writes. -/
theorem recording_meets (hK : o.assured.Lenient K) {debited credited : Amount}
    (h : r.Asks o) (hpasses : o.Passes source destination)
    (hc : o.Changed v source destination debited credited) :
    (o.recording { source with balance := debited }
        { destination with balance := credited }).Meets K (Attempted K r o) seen v := by
  have hfunds := hpasses.covered h
  have hroom := hpasses.fits h
  have hpos := o.amount_pos
  have hunits : r.amount.units = o.amount.units := by rw [h.amount]
  have hneg := Amount.neg_units hpos
  obtain ⟨hl, hstaged, hdebited, hcredited⟩ := hc
  have hdebited' := Amount.add?_eq_some_iff.mp hdebited
  have hcredited' := Amount.add?_eq_some_iff.mp hcredited
  have hsource := hl.start_source
  have hnothing : ∀ id, v.staged.movements id = [] := by
    intro id
    simp [UnitOfWork.movements, UnitOfWork.entriesOn, hstaged, UnitOfWork.fresh]
  -- The debit is an entry that the source can bear, since its balance covers the amount.
  refine .ask (hK.calls _ _ ⟨⟨by simp [hl.source], fun _ => ?_⟩,
    fun _ => ⟨.debitEntry, source, destination, hl, hpasses⟩⟩) fun l u p r' v₁ hf ha => ?_
  · rw [hnothing, hsource, hneg]
    have := source.balance.upper
    simp only [List.sum_nil]
    omega
  rcases View.answers_appendEntry ha with ⟨e, rfl, he⟩ | ⟨e₁, he₁, hamount₁, rfl, rfl⟩
  · exact givesUp_of_failed hf.relied (hl.stand (accounting_finds hK hf)) (Or.inl rfl) he
  have hl₁ : o.Locked (v.stageEntry e₁) source destination := hl.congr rfl
  -- The credit is one that the destination has room for; the debit is not on its account.
  refine .ask (hK.calls _ _ ⟨⟨by simp [hl₁.destination], fun hstart => ?_⟩,
    fun _ => ⟨.creditEntry, source, destination, hl₁, hpasses⟩⟩) fun l u p r' v₂ hf ha => ?_
  · have hmovements : (v.stageEntry e₁).staged.movements o.toId = [] := by
      simp [UnitOfWork.movements, UnitOfWork.entriesOn, View.stageEntry, hstaged,
        UnitOfWork.fresh, he₁, o.distinct]
    rw [hl₁.start_destination] at hstart
    rw [hmovements, hl₁.start_destination]
    simp only [List.sum_nil]
    omega
  rcases View.answers_appendEntry ha with ⟨e, rfl, he⟩ | ⟨e₂, he₂, hamount₂, rfl, rfl⟩
  · exact givesUp_of_failed hf.relied (hl₁.stand (accounting_finds hK hf)) (Or.inr rfl) he
  have hl₂ : o.Locked ((v.stageEntry e₁).stageEntry e₂) source destination := hl.congr rfl
  refine .ask (hK.calls _ _ ⟨trivial, fun _ => ⟨.transfer, source, destination, hl₂, hpasses⟩⟩)
    fun l u p r' v₃ hf ha => ?_
  rcases View.answers_appendTransfer ha with ⟨e, rfl, he⟩ | ⟨t, hfrom, hto, hamount, rfl, rfl⟩
  · rcases he with hinjected | ⟨id, hid, hmissing, -⟩
    · exact Or.inr ⟨l, .appendTransfer, e, hf.relied, hinjected, rfl⟩
    · exact absurd hmissing ((hl₂.stand (accounting_finds hK hf)).sees hid)
  have hl₃ : o.Locked (((v.stageEntry e₁).stageEntry e₂).stageTransfer t) source destination :=
    hl.congr rfl
  have haccounts : (((v.stageEntry e₁).stageEntry e₂).stageTransfer t).staged.accounts =
      (Table.empty.insert o.fromId { source with balance := debited }).insert o.toId
        { destination with balance := credited } := by
    simp only [View.stageTransfer, View.stageEntry, hstaged, UnitOfWork.fresh]
  have hentries : (((v.stageEntry e₁).stageEntry e₂).stageTransfer t).staged.entries =
      [e₁, e₂] := by
    simp [View.stageTransfer, View.stageEntry, hstaged, UnitOfWork.fresh]
  have htransfers : (((v.stageEntry e₁).stageEntry e₂).stageTransfer t).staged.transfers =
      [t] := by
    simp [View.stageTransfer, View.stageEntry, hstaged, UnitOfWork.fresh]
  refine ⟨hl₃.settled haccounts hentries ⟨he₁, ?_⟩ ⟨he₂, ?_⟩, source, destination, hl₃,
    fun b hb => ?_, ⟨hfrom, hto⟩, haccounts, hentries, htransfers⟩
  · rw [hamount₁]
    exact hdebited'
  · rw [hamount₂]
    exact hcredited'
  · have hreceipt := receipt_eq h hdebited hcredited ⟨he₁, hamount₁⟩ ⟨he₂, hamount₂⟩
      ⟨hfrom, hto, hamount⟩ (by omega) hfunds hroom
    refine ⟨⟨t.id, t.createdAt, e₁.id, e₁.createdAt, e₂.id, e₂.createdAt⟩, ?_, rfl, rfl, rfl⟩
    rw [serial_of_stand h hb, if_neg (not_not_intro hpasses.currencies.1),
      if_neg (not_not_intro hpasses.currencies.2), dif_neg hfunds, dif_neg hroom, ← hreceipt]

/-- The writes fail only where the store has been told to fail: both rows are locked, so the balances
that are changed are those that have been checked. -/
theorem writing_meets (hK : o.assured.Lenient K) (h : r.Asks o)
    (hpasses : o.Passes source destination)
    (hl : o.Locked v source destination) (hv : v.staged = UnitOfWork.fresh) :
    o.writing.Meets K (Attempted K r o) seen v := by
  have hne : o.toId ≠ o.fromId := o.distinct.symm
  obtain ⟨hdebit, hcredit⟩ := hpasses.add?
  refine .ask (hK.calls _ _ ⟨trivial, fun _ => ⟨.debit (by simp [hv, UnitOfWork.fresh]), source,
    destination, hl, hpasses⟩⟩) fun l u p a v₁ hf ha => ?_
  have hfound : v.sees? l o.fromId = some source := by
    rw [View.sees?, UnitOfWork.visible?, hv, (hl.stand (accounting_finds hK hf)).source]
    rfl
  rcases View.answers_addBalance ha with
    ⟨e, rfl, he⟩ | ⟨a, debited, hsees, hdebited, rfl, hlock, hstaged⟩
  · exact givesUp_of_unchanged hf.relied hfound hdebit he
  rw [hfound] at hsees
  cases hsees
  rw [hv] at hstaged
  have hl₁ := hl.relock (accounting_finds hK hf) hl.source hlock
  refine .ask (hK.calls _ _ ⟨trivial, fun _ => ⟨.credit (by simp [hstaged, hne, UnitOfWork.fresh]),
    source, destination, hl₁, hpasses⟩⟩) fun l u p a v₂ hf ha => ?_
  have hfound : v₁.sees? l o.toId = some destination := by
    rw [View.sees?, UnitOfWork.visible?, hstaged, (hl₁.stand (accounting_finds hK hf)).destination,
      Table.find?_insert, if_neg hne]
    rfl
  rcases View.answers_addBalance ha with
    ⟨e, rfl, he⟩ | ⟨a, credited, hsees, hcredited, rfl, hlock, hstaged₂⟩
  · exact givesUp_of_unchanged hf.relied hfound hcredit he
  rw [hfound] at hsees
  cases hsees
  rw [hstaged] at hstaged₂
  exact recording_meets hK h hpasses
    ⟨hl₁.relock (accounting_finds hK hf) hl₁.destination hlock, hstaged₂, hdebited, hcredited⟩

/-- Each check of an attempt gives up as the reference does, and after the last one the attempt can
be carried out. -/
theorem moving_meets (hK : o.assured.Lenient K) (h : r.Asks o) {b : Books}
    (hb : o.Stand b source destination)
    (hids : source.id = o.fromId ∧ destination.id = o.toId)
    (hl : o.Locked v source destination) (hv : v.staged = UnitOfWork.fresh) :
    (o.moving source destination).Meets K (Attempted K r o) (b :: seen) v := by
  have hserial := serial_of_stand h hb
  refine .require (fun hsource => ?_) fun hmismatch => Or.inl ⟨b, List.mem_cons_self, fun k => ?_⟩
  case refine_2 => rw [hserial, if_pos hmismatch, hids.1]
  refine .require (fun hdestination => ?_) fun hmismatch => Or.inl ⟨b, List.mem_cons_self, fun k => ?_⟩
  case refine_2 => rw [hserial, if_neg (not_not_intro hsource), if_pos hmismatch, hids.2]
  refine .require (fun hcover => ?_) fun hshort => Or.inl ⟨b, List.mem_cons_self, fun k => ?_⟩
  case refine_2 =>
    have hshort : source.balance.units < r.amount.units := by
      rw [h.amount]
      exact Int.not_le.mp hshort
    rw [hserial, if_neg (not_not_intro hsource), if_neg (not_not_intro hdestination),
      dif_pos hshort]
  have hfunds : ¬ source.balance.units < r.amount.units := by
    rw [h.amount]
    exact Int.not_lt.mpr hcover
  have hunits : r.amount.units = o.amount.units := by rw [h.amount]
  refine .require (fun hfits => ?_) fun hfull => Or.inl ⟨b, List.mem_cons_self, fun k => ?_⟩
  case refine_2 =>
    have hfull := Amount.add?_eq_none_iff.mp (Option.not_isSome_iff_eq_none.mp hfull)
    have hlower := destination.balance.lower
    have hpos := o.amount_pos
    have hroom : 9223372036854775807 < destination.balance.units + r.amount.units := by omega
    rw [hserial, if_neg (not_not_intro hsource), if_neg (not_not_intro hdestination),
      dif_neg hfunds, dif_pos hroom]
  obtain ⟨credited, hcredited⟩ := Option.isSome_iff_exists.mp hfits
  have hroom : destination.balance.units + o.amount.units ≤ 9223372036854775807 :=
    Amount.add?_eq_some_iff.mp hcredited ▸ credited.upper
  exact writing_meets hK h ⟨⟨hsource, hdestination⟩, hcover, hroom⟩ hl hv

theorem attempt_meets (hK : o.assured.Lenient K) (h : r.Asks o) :
    o.attempt.Meets K (Attempted K r o) seen View.fresh := by
  rw [attempt_eq]
  split
  · rename_i hle
    refine locking_meets hK o.distinct
      (fun b seen v hnone => Or.inl ⟨b, List.mem_cons_self, fun k => ?_⟩)
      (fun b seen v a hsome hnone => Or.inl ⟨b, List.mem_cons_self, fun k => ?_⟩)
      fun b seen v a a' hsome hsome' hid hid' hv hlocked hlocked' hothers => ?_
    · rw [TransferRequest.serial_of_asks h, hnone]
      cases b.accounts.find? o.toId with
      | none => rw [Int.min_eq_left hle]
      | some a => rfl
    · rw [TransferRequest.serial_of_asks h, hsome, hnone]
    · exact moving_meets hK h ⟨hsome, hsome'⟩ ⟨hid, hid'⟩ ⟨hlocked, hlocked', hothers⟩ hv
  · rename_i hlt
    refine locking_meets hK o.distinct.symm
      (fun b seen v hnone => Or.inl ⟨b, List.mem_cons_self, fun k => ?_⟩)
      (fun b seen v a hsome hnone => Or.inl ⟨b, List.mem_cons_self, fun k => ?_⟩)
      fun b seen v a a' hsome hsome' hid hid' hv hlocked hlocked' hothers => ?_
    · rw [TransferRequest.serial_of_asks h, hnone]
      cases b.accounts.find? o.fromId with
      | none => rw [Int.min_eq_right (Int.le_of_lt (Int.not_le.mp hlt))]
      | some a => rfl
    · rw [TransferRequest.serial_of_asks h, hsome, hnone]
    · exact moving_meets hK h ⟨hsome', hsome⟩ ⟨hid', hid⟩
        ⟨hlocked', hlocked, fun id hfrom hto => hothers id hto hfrom⟩ hv

end TransferOrder
end FundsLedger
