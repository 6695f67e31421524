import FundsLedger.Books
import FundsLedger.Proofs.Table
import FundsLedger.Transfer.Execution

/-!
The sequential reference for a transfer: one function of the request and of the committed books, in
which nothing is locked, nothing is staged and nobody else is at work. It is written out in exact
integers and does not use the checks of the engine. Identifiers and times of the rows that a
transfer writes are up to the store, so the reference takes them as an argument.
-/

namespace FundsLedger

/-- The identifiers and times that a store gives to the rows of a transfer. -/
structure Stamps where
  transfer : TransferId
  transferredAt : Timestamp
  debit : EntryId
  debitedAt : Timestamp
  credit : EntryId
  creditedAt : Timestamp

/-- The identifiers are those of no row in the books, and of no two rows. -/
structure Stamps.NewTo (k : Stamps) (b : Books) : Prop where
  transfer : b.transfers.find? k.transfer = none
  debit : b.entries.find? k.debit = none
  credit : b.entries.find? k.credit = none
  distinct : k.debit ≠ k.credit

/-- The books after the rows of a receipt have been written into them. -/
def Receipt.post (r : Receipt) (b : Books) : Books where
  accounts := (b.accounts.insert r.transfer.fromId r.fromAccount).insert r.transfer.toId r.toAccount
  entries := (b.entries.insert r.fromEntry.id r.fromEntry).insert r.toEntry.id r.toEntry
  transfers := b.transfers.insert r.transfer.id r.transfer

namespace TransferRequest

variable {r : TransferRequest} {o : TransferOrder} {k : Stamps} {b : Books}
variable {source destination : Account}

/-- The receipt of a transfer that is carried out. -/
def receipt (r : TransferRequest) (k : Stamps) (source destination : Account)
    (hamount : ¬ r.amount.units ≤ 0) (hfunds : ¬ source.balance.units < r.amount.units)
    (hroom : ¬ 9223372036854775807 < destination.balance.units + r.amount.units) : Receipt :=
  have hsource := source.balance.upper
  have hdestination := destination.balance.lower
  have hupper := r.amount.upper
  let debit : Amount := ⟨-r.amount.units, by omega, by omega⟩
  { transfer := ⟨k.transfer, r.fromId, r.toId, r.amount, k.transferredAt⟩
    fromEntry := ⟨k.debit, r.fromId, debit, k.debitedAt⟩
    toEntry := ⟨k.credit, r.toId, r.amount, k.creditedAt⟩
    fromAccount :=
      { source with balance := ⟨source.balance.units - r.amount.units, by omega, by omega⟩ }
    toAccount :=
      { destination with
        balance := ⟨destination.balance.units + r.amount.units, by omega, by omega⟩ } }

/-- The sequential reference: the answer to a request, and the books afterwards. -/
def serial (r : TransferRequest) (k : Stamps) (b : Books) :
    Except TransferError Receipt × Books :=
  if r.fromId < 1 ∨ r.toId < 1 then (.error (.invalidRequest "account ids must be positive"), b)
  else if r.fromId = r.toId then
    (.error (.invalidRequest "source and destination accounts must differ"), b)
  else if hamount : r.amount.units ≤ 0 then
    (.error (.invalidRequest s!"amount must be positive, got {r.amount.units}"), b)
  else if hcode : IsCurrencyCode r.currency then
    match b.accounts.find? r.fromId, b.accounts.find? r.toId with
    | none, none => (.error (.accountNotFound (min r.fromId r.toId)), b)
    | none, some _ => (.error (.accountNotFound r.fromId), b)
    | some _, none => (.error (.accountNotFound r.toId), b)
    | some source, some destination =>
      if source.currency.code ≠ r.currency then
        (.error (.currencyMismatch r.fromId ⟨r.currency, hcode⟩ source.currency), b)
      else if destination.currency.code ≠ r.currency then
        (.error (.currencyMismatch r.toId ⟨r.currency, hcode⟩ destination.currency), b)
      else if hfunds : source.balance.units < r.amount.units then
        (.error (.insufficientFunds r.fromId source.balance r.amount), b)
      else if hroom : 9223372036854775807 < destination.balance.units + r.amount.units then
        (.error (.invalidRequest s!"credit would overflow balance of account {r.toId}"), b)
      else
        let receipt := r.receipt k source destination hamount hfunds hroom
        (.ok receipt, receipt.post b)
  else
    (.error (.invalidRequest
      s!"Invalid currency code '{r.currency}' (expected 3 uppercase letters)"), b)

/-- When the reference carries a request out, two different accounts in one currency are there, and
the receipt says what becomes of them. -/
theorem serial_eq_ok {receipt : Receipt} {after : Books}
    (h : r.serial k b = (.ok receipt, after)) :
    r.fromId ≠ r.toId ∧ ∃ source destination hamount hfunds hroom,
      b.accounts.find? r.fromId = some source ∧ b.accounts.find? r.toId = some destination ∧
      source.currency = destination.currency ∧
      receipt = r.receipt k source destination hamount hfunds hroom ∧ after = receipt.post b := by
  unfold serial at h
  split at h
  · cases h
  split at h
  · cases h
  rename_i hne
  split at h
  · cases h
  rename_i hamount
  split at h
  · split at h
    · cases h
    · cases h
    · cases h
    · rename_i source destination hsource hdestination
      split at h
      · cases h
      rename_i hfrom
      split at h
      · cases h
      rename_i hto
      split at h
      · cases h
      rename_i hfunds
      split at h
      · cases h
      rename_i hroom
      cases h
      -- Both currencies have the code that the request names.
      have hcode := (Classical.not_not.mp hfrom).trans (Classical.not_not.mp hto).symm
      exact ⟨hne, source, destination, hamount, hfunds, hroom, hsource, hdestination,
        Currency.code_inj.mp hcode, rfl, rfl⟩
  · cases h

/-! ## Where the reference agrees with the checks of the engine -/

/-- What it takes for a request to be an order. -/
structure Asks (r : TransferRequest) (o : TransferOrder) : Prop where
  fromId : r.fromId = o.fromId
  toId : r.toId = o.toId
  amount : r.amount = o.amount
  currency : r.currency = o.currency.code

theorem asks_of_validate (h : r.validate = .ok o) : r.Asks o := by
  unfold validate at h
  split at h
  · split at h
    · split at h
      · split at h
        · rename_i c hc
          cases h
          exact ⟨rfl, rfl, rfl, (Currency.parse_eq_ok_iff.mp hc).symm⟩
        · cases h
      · cases h
    · cases h
  · cases h

/-- A request that is not an order is refused whatever the books are. -/
theorem serial_of_validate_error {e : TransferError} (h : r.validate = .error e) (k : Stamps)
    (b : Books) : r.serial k b = (.error e, b) := by
  unfold validate at h
  split at h
  · rename_i hids
    have hids : ¬ (r.fromId < 1 ∨ r.toId < 1) := by
      rintro (hlt | hlt)
      · exact Int.not_le.mpr hlt hids.1
      · exact Int.not_le.mpr hlt hids.2
    split at h
    · rename_i hne
      split at h
      · rename_i hpos
        -- Only the currency is left to be wrong.
        have hamount : ¬ r.amount.units ≤ 0 := by omega
        split at h
        · cases h
        · rename_i e' he
          cases h
          obtain ⟨hcode, rfl⟩ := Currency.parse_eq_error_iff.mp he
          rw [serial, if_neg hids, if_neg hne, dif_neg hamount, dif_neg hcode]
          rfl
      · rename_i hpos
        cases h
        have hamount : r.amount.units ≤ 0 := by omega
        rw [serial, if_neg hids, if_neg hne, dif_pos hamount]
    · rename_i heq
      cases h
      have heq : r.fromId = r.toId := Classical.not_not.mp heq
      rw [serial, if_neg hids, if_pos heq]
  · rename_i hids
    cases h
    have hids : r.fromId < 1 ∨ r.toId < 1 := by
      rcases Int.lt_or_le r.fromId 1 with hlt | hle
      · exact Or.inl hlt
      · rcases Int.lt_or_le r.toId 1 with hlt | hle'
        · exact Or.inr hlt
        · exact absurd ⟨hle, hle'⟩ hids
    rw [serial, if_pos hids]

/-- For an order the reference only looks at the two accounts. -/
theorem serial_of_asks (h : r.Asks o) (k : Stamps) (b : Books) :
    r.serial k b =
      match b.accounts.find? o.fromId, b.accounts.find? o.toId with
      | none, none => (.error (.accountNotFound (min o.fromId o.toId)), b)
      | none, some _ => (.error (.accountNotFound o.fromId), b)
      | some _, none => (.error (.accountNotFound o.toId), b)
      | some source, some destination =>
        if source.currency ≠ o.currency then
          (.error (.currencyMismatch o.fromId o.currency source.currency), b)
        else if destination.currency ≠ o.currency then
          (.error (.currencyMismatch o.toId o.currency destination.currency), b)
        else if hfunds : source.balance.units < r.amount.units then
          (.error (.insufficientFunds o.fromId source.balance o.amount), b)
        else if hroom : 9223372036854775807 < destination.balance.units + r.amount.units then
          (.error (.invalidRequest s!"credit would overflow balance of account {o.toId}"), b)
        else
          let receipt := r.receipt k source destination
            (by have := o.amount_pos; rw [h.amount]; omega) hfunds hroom
          (.ok receipt, receipt.post b) := by
  have hids : ¬ (r.fromId < 1 ∨ r.toId < 1) := by
    rw [h.fromId, h.toId]
    rintro (hlt | hlt)
    · exact Int.not_le.mpr hlt o.fromId_pos
    · exact Int.not_le.mpr hlt o.toId_pos
  have hne : ¬ r.fromId = r.toId := by
    rw [h.fromId, h.toId]
    exact o.distinct
  have hamount : ¬ r.amount.units ≤ 0 := by
    have := o.amount_pos
    rw [h.amount]
    omega
  have hcode : IsCurrencyCode r.currency := by
    rw [h.currency]
    exact o.currency.wellFormed
  -- A currency is its code, so comparing codes and comparing currencies come to the same.
  have hcurrency : (⟨r.currency, hcode⟩ : Currency) = o.currency := by
    cases hc : o.currency with
    | mk code wellFormed =>
      have := h.currency
      rw [hc] at this
      simp only [this]
  have hsame : ∀ c : Currency, c.code = r.currency ↔ c = o.currency := by
    intro c
    rw [← hcurrency]
    cases c
    simp
  rw [serial, if_neg hids, if_neg hne, dif_neg hamount, dif_pos hcode]
  simp only [← h.fromId, ← h.toId, ← h.amount, hcurrency, ne_eq, hsame]

end TransferRequest
end FundsLedger
