import FundsLedger.Proofs.Ledger.View

/-!
The answers to the calls of which operations are made, in terms of what a task can see. A call fails
because an account is not there, because the owner already has an account in the currency, or
through a fault of the store; otherwise it has done what it is for.
-/

namespace FundsLedger

/-- The failure says nothing about any account: the store itself is at fault. -/
def StoreError.IsFault (e : StoreError) : Prop := ∃ text, e = .internal text

/-- The call neither needs a row nor stages anything. -/
def Call.Reads : Call → Prop
  | getAccount _ | listByOwner .. | getEntry _ | listEntries .. | entrySum _ | getTransfer _
  | listTransfers .. => True
  | createAccount .. | getForUpdate _ | addBalance .. | appendEntry .. | appendTransfer .. => False

/-- The call writes something. -/
def Call.IsWrite : Call → Prop
  | createAccount .. | addBalance .. | appendEntry .. | appendTransfer .. => True
  | _ => False

theorem Call.row?_of_reads {c : Call} (hc : c.Reads) : c.row? = none := by
  cases c <;> simp only [Call.Reads] at hc <;> rfl

/-- A call that only reads gives out no identifier and stages nothing. -/
theorem Ledger.perform_reads {c : Call} (l : Ledger) (w : UnitOfWork) (hc : c.Reads) :
    (l.perform w c).drawn = l.drawn ∧ (l.perform w c).unit = w := by
  cases c <;> simp only [Call.Reads] at hc
  case getAccount id => simp only [perform]; split <;> exact ⟨rfl, rfl⟩
  case entrySum id => simp only [perform]; split <;> exact ⟨rfl, rfl⟩
  all_goals exact ⟨rfl, rfl⟩

namespace View

open Ledger

variable {v v' : View} {l : Ledger} {id : AccountId}

/-- The account as the task sees it. -/
def sees? (v : View) (l : Ledger) (id : AccountId) : Option Account :=
  v.staged.visible? l.books id

/-- The view after a call that needs a row and stages nothing. -/
def lock (v : View) (l : Ledger) (id : AccountId) : View :=
  { v with locked := v.locked.insert id (l.books.accounts.find? id) }

/-- The view after an account has been staged. -/
def stageAccount (v : View) (a : Account) : View :=
  { v with staged := { v.staged with accounts := v.staged.accounts.insert a.id a } }

/-- The view after an entry has been staged. -/
def stageEntry (v : View) (e : Entry) : View :=
  { v with staged := { v.staged with entries := v.staged.entries ++ [e] } }

/-- The view after a transfer has been staged. -/
def stageTransfer (v : View) (t : Transfer) : View :=
  { v with staged := { v.staged with transfers := v.staged.transfers ++ [t] } }

theorem injected?_isFault {point : FailPoint} {e : StoreError}
    (h : l.injected? point = some e) : e.IsFault := by
  unfold injected? at h
  split at h
  · cases h
    exact ⟨_, rfl⟩
  · cases h

theorem answers_getForUpdate {r : (Call.getForUpdate id).Result}
    (h : v.Answers l (.getForUpdate id) r v') :
    (v.sees? l id = none ∧ r = .error (.accountNotFound id)) ∨
      ∃ a, v.sees? l id = some a ∧ r = .ok a ∧ v' = v.lock l id := by
  cases h with
  | refused refusal =>
    simp only [refusal?] at refusal
    split at refusal
    · rename_i hnone
      cases refusal
      exact Or.inl ⟨Option.isNone_iff_eq_none.mp hnone, rfl⟩
    · cases refusal
  | performed =>
    cases hv : v.sees? l id with
    | none => exact Or.inl ⟨rfl, by rw [sees?] at hv; simp only [perform, hv]⟩
    | some a =>
      rw [sees?] at hv
      refine Or.inr ⟨a, rfl, ?_, ?_⟩
      · simp only [perform, hv]
      · simp only [after, lock, lockedAfter, Call.row?, perform, hv]

theorem answers_addBalance {delta : Amount} {r : (Call.addBalance id delta).Result}
    (h : v.Answers l (.addBalance id delta) r v') :
    (∃ e, r = .error e ∧ (l.injected? .addBalance = some e ∨
        (v.sees? l id = none ∧ e = .accountNotFound id) ∨
        ∃ a, v.sees? l id = some a ∧ a.balance.add? delta = none)) ∨
      ∃ a sum, v.sees? l id = some a ∧ a.balance.add? delta = some sum ∧
        r = .ok { a with balance := sum } ∧ v'.locked = (v.lock l id).locked ∧
        v'.staged =
          { v.staged with accounts := v.staged.accounts.insert id { a with balance := sum } } := by
  cases h with
  | refused refusal =>
    simp only [refusal?] at refusal
    refine Or.inl ⟨_, rfl, ?_⟩
    rcases Option.or_eq_some_iff.mp refusal with hinjected | ⟨-, hnone⟩
    · exact Or.inl hinjected
    · split at hnone
      · rename_i hv
        cases hnone
        exact Or.inr (Or.inl ⟨Option.isNone_iff_eq_none.mp hv, rfl⟩)
      · cases hnone
  | performed =>
    cases hv : v.sees? l id with
    | none =>
      refine Or.inl ⟨.accountNotFound id, ?_, Or.inr (Or.inl ⟨rfl, rfl⟩)⟩
      rw [sees?] at hv
      simp only [perform, hv]
    | some a =>
      rw [sees?] at hv
      cases hsum : a.balance.add? delta with
      | none =>
        refine Or.inl ⟨.internal s!"balance overflow on account {id}", ?_,
          Or.inr (Or.inr ⟨a, rfl, hsum⟩)⟩
        simp only [perform, hv, hsum]
      | some sum =>
        refine Or.inr ⟨a, sum, rfl, hsum, ?_, ?_, ?_⟩
        · simp only [perform, hv, hsum]
        · rfl
        · simp only [after, perform, hv, hsum]

theorem answers_appendEntry {amount : Amount} {r : (Call.appendEntry id amount).Result}
    (h : v.Answers l (.appendEntry id amount) r v') :
    (∃ e, r = .error e ∧ (l.injected? .appendEntry = some e ∨
        (v.sees? l id = none ∧ e = .accountNotFound id))) ∨
      ∃ e : Entry, e.accountId = id ∧ e.amount = amount ∧ r = .ok e ∧ v' = v.stageEntry e := by
  cases h with
  | refused refusal => cases refusal
  | performed =>
    cases hinjected : l.injected? .appendEntry with
    | some e =>
      refine Or.inl ⟨e, ?_, Or.inl rfl⟩
      simp only [perform, hinjected]
    | none =>
      cases hv : v.sees? l id with
      | none =>
        refine Or.inl ⟨.accountNotFound id, ?_, Or.inr ⟨rfl, rfl⟩⟩
        rw [sees?] at hv
        simp only [perform, hinjected, hv]
      | some a =>
        rw [sees?] at hv
        generalize hid : idAfter l.drawn.entries = entryId
        refine Or.inr ⟨⟨entryId, id, amount, l.clock⟩, rfl, rfl, ?_, ?_⟩
        · simp only [perform, hinjected, hv, hid]
        · simp only [after, stageEntry, lockedAfter, Call.row?, perform, hinjected, hv, hid]

theorem answers_appendTransfer {fromId toId : AccountId} {amount : Amount}
    {r : (Call.appendTransfer fromId toId amount).Result}
    (h : v.Answers l (.appendTransfer fromId toId amount) r v') :
    (∃ e, r = .error e ∧ (l.injected? .appendTransfer = some e ∨
        ∃ id, (id = fromId ∨ id = toId) ∧ v.sees? l id = none ∧ e = .accountNotFound id)) ∨
      ∃ t : Transfer, t.fromId = fromId ∧ t.toId = toId ∧ t.amount = amount ∧ r = .ok t ∧
        v' = v.stageTransfer t := by
  cases h with
  | refused refusal => cases refusal
  | performed =>
    cases hinjected : l.injected? .appendTransfer with
    | some e =>
      refine Or.inl ⟨e, ?_, Or.inl rfl⟩
      simp only [perform, hinjected]
    | none =>
      cases hmissing : [fromId, toId].find? fun id => (v.staged.visible? l.books id).isNone with
      | some id =>
        refine Or.inl ⟨.accountNotFound id, ?_, Or.inr ⟨id, ?_, ?_, rfl⟩⟩
        · simp only [perform, hinjected, hmissing]
        · simpa using List.mem_of_find?_eq_some hmissing
        · simpa [sees?] using List.find?_some hmissing
      | none =>
        generalize hid : idAfter l.drawn.transfers = transferId
        refine Or.inr ⟨⟨transferId, fromId, toId, amount, l.clock⟩, rfl, rfl, rfl, ?_, ?_⟩
        · simp only [perform, hinjected, hmissing, hid]
        · simp only [after, stageTransfer, lockedAfter, Call.row?, perform, hinjected, hmissing,
            hid]

theorem answers_createAccount {owner : String} {currency : Currency} {balance : Amount}
    {r : (Call.createAccount owner currency balance).Result}
    (h : v.Answers l (.createAccount owner currency balance) r v') :
    (r = .error (.duplicateAccount owner currency.code) ∧
        ∃ a : Account, a.owner = owner ∧ a.currency = currency ∧
          v.staged.isDuplicate l.books a = true) ∨
      ∃ a : Account, (a.owner = owner ∧ a.currency = currency ∧ a.balance = balance) ∧
        r = .ok a ∧ v' = v.stageAccount a := by
  cases h with
  | refused refusal => cases refusal
  | performed =>
    generalize hid : idAfter l.drawn.accounts = accountId
    cases hduplicate :
      v.staged.isDuplicate l.books ⟨accountId, owner, balance, currency, l.clock⟩ with
    | true =>
      refine Or.inl ⟨?_, _, rfl, rfl, hduplicate⟩
      simp only [perform, hid, hduplicate, if_true]
    | false =>
      refine Or.inr ⟨⟨accountId, owner, balance, currency, l.clock⟩, ⟨rfl, rfl, rfl⟩, ?_, ?_⟩
      · simp [perform, hid, hduplicate]
      · simp [after, stageAccount, lockedAfter, Call.row?, perform, hid, hduplicate]

theorem answers_entrySum {r : (Call.entrySum id).Result} (h : v.Answers l (.entrySum id) r v') :
    (v.staged.entrySum? l.books id = none ∧ ∃ e, r = .error e ∧ e.IsFault) ∨
      ∃ sum, v.staged.entrySum? l.books id = some sum ∧ r = .ok sum ∧ v' = v := by
  cases h with
  | refused refusal => cases refusal
  | performed =>
    cases hsum : v.staged.entrySum? l.books id with
    | none =>
      refine Or.inl ⟨rfl, .internal s!"entry sum overflow on account {id}", ?_, ⟨_, rfl⟩⟩
      simp only [perform, hsum]
    | some sum =>
      refine Or.inr ⟨sum, rfl, ?_, ?_⟩
      · simp only [perform, hsum]
      · simp only [after, lockedAfter, Call.row?, perform, hsum]

theorem answers_listEntries {page : Page} {r : (Call.listEntries id page).Result}
    (h : v.Answers l (.listEntries id page) r v') :
    r = .ok (page.window (v.staged.entriesOf l.books id)) := by
  cases h with
  | refused refusal => cases refusal
  | performed => rfl

theorem answers_listTransfers {fromId toId : AccountId} {page : Page}
    {r : (Call.listTransfers fromId toId page).Result}
    (h : v.Answers l (.listTransfers fromId toId page) r v') :
    r = .ok (page.window (v.staged.transfersBetween l.books fromId toId)) := by
  cases h with
  | refused refusal => cases refusal
  | performed => rfl

/-- A call that only reads leaves the view as it is. -/
theorem answers_reads {c : Call} {r : c.Result} (hc : c.Reads) (h : v.Answers l c r v') :
    v' = v := by
  cases h with
  | refused refusal => rfl
  | performed =>
    rw [after, lockedAfter, Call.row?_of_reads hc, (l.perform_reads v.staged hc).2]

end View
end FundsLedger
