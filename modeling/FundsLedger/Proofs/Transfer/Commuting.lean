import FundsLedger.Proofs.Transfer.Attempt

/-!
Transfers that commute. The sequential reference looks at the two accounts of a request and changes
nothing but these, so of two requests for different accounts neither can tell which of them was
first: both get the same answers in either order, and leave the same accounts.
-/

namespace FundsLedger

/-- Two receipts are the same but for identifiers and times. -/
structure Receipt.Matches (a b : Receipt) : Prop where
  fromId : a.transfer.fromId = b.transfer.fromId
  toId : a.transfer.toId = b.transfer.toId
  amount : a.transfer.amount = b.transfer.amount
  debit : a.fromEntry.accountId = b.fromEntry.accountId ∧ a.fromEntry.amount = b.fromEntry.amount
  credit : a.toEntry.accountId = b.toEntry.accountId ∧ a.toEntry.amount = b.toEntry.amount
  fromAccount : a.fromAccount = b.fromAccount
  toAccount : a.toAccount = b.toAccount

/-- Two answers are the same but for the identifiers and times of what has been written. -/
def Agree : Except TransferError Receipt → Except TransferError Receipt → Prop
  | .ok receipt, .ok receipt' => receipt.Matches receipt'
  | .error e, .error e' => e = e'
  | _, _ => False

/-- The accounts after a call with this answer. -/
def accountsAfter : Except TransferError Receipt → Table Account → Table Account
  | .ok receipt, t =>
    (t.insert receipt.transfer.fromId receipt.fromAccount).insert receipt.transfer.toId
      receipt.toAccount
  | .error _, t => t

theorem Agree.accountsAfter {a a' : Except TransferError Receipt} (h : Agree a a') :
    accountsAfter a = accountsAfter a' := by
  funext t
  cases a with
  | error e =>
    cases a' with
    | error e' => rfl
    | ok receipt' => exact h.elim
  | ok receipt =>
    cases a' with
    | error e' => exact h.elim
    | ok receipt' =>
      simp only [FundsLedger.accountsAfter, h.fromId, h.toId, h.fromAccount, h.toAccount]

namespace TransferRequest

variable {r r' : TransferRequest} {b b' : Books}

/-- The two requests have no account in common. -/
structure Apart (r r' : TransferRequest) : Prop where
  fromFrom : r.fromId ≠ r'.fromId
  fromTo : r.fromId ≠ r'.toId
  toFrom : r.toId ≠ r'.fromId
  toTo : r.toId ≠ r'.toId

/-- The answer of the reference depends on the two accounts of the request alone. -/
theorem serial_agrees (hfrom : b.accounts.find? r.fromId = b'.accounts.find? r.fromId)
    (hto : b.accounts.find? r.toId = b'.accounts.find? r.toId) (k k' : Stamps) :
    Agree (r.serial k b).1 (r.serial k' b').1 := by
  unfold serial
  rw [hfrom, hto]
  -- The checks are the same on both sides, so they are passed or failed together.
  split
  · rfl
  split
  · rfl
  split
  · rfl
  split
  · cases b'.accounts.find? r.fromId with
    | none => cases b'.accounts.find? r.toId <;> rfl
    | some source =>
      cases b'.accounts.find? r.toId with
      | none => rfl
      | some destination =>
        dsimp only
        split
        · rfl
        split
        · rfl
        split
        · rfl
        split
        · rfl
        · exact ⟨rfl, rfl, rfl, ⟨rfl, rfl⟩, ⟨rfl, rfl⟩, rfl, rfl⟩
  · rfl

/-- A refusal is an answer to the request and leaves the books as they are. -/
theorem serial_eq_error {k : Stamps} {e : TransferError} {after : Books}
    (h : r.serial k b = (.error e, after)) : e.IsVerdict ∧ after = b := by
  unfold serial at h
  -- Every branch but the last one refuses.
  repeat' split at h
  all_goals cases h
  all_goals exact ⟨trivial, rfl⟩

/-- What becomes of the accounts is told by the answer. -/
theorem serial_accounts (k : Stamps) (b : Books) :
    (r.serial k b).2.accounts = accountsAfter (r.serial k b).1 b.accounts := by
  cases hserial : r.serial k b with
  | mk answer after =>
    cases answer with
    | error e =>
      rw [(serial_eq_error hserial).2]
      rfl
    | ok receipt =>
      obtain ⟨-, source, destination, hamount, hfunds, hroom, -, -, -, rfl, rfl⟩ :=
        serial_eq_ok hserial
      rfl

/-- The answer writes to the two accounts of the request. -/
theorem serial_writes {k : Stamps} {receipt : Receipt} (h : (r.serial k b).1 = .ok receipt) :
    receipt.transfer.fromId = r.fromId ∧ receipt.transfer.toId = r.toId := by
  have hserial : r.serial k b = (.ok receipt, (r.serial k b).2) := by rw [← h]
  obtain ⟨-, source, destination, hamount, hfunds, hroom, -, -, -, rfl, -⟩ := serial_eq_ok hserial
  exact ⟨rfl, rfl⟩

theorem serial_find?_of_ne {id : Int} (hfrom : id ≠ r.fromId) (hto : id ≠ r.toId) (k : Stamps)
    (b : Books) : (r.serial k b).2.accounts.find? id = b.accounts.find? id := by
  rw [serial_accounts]
  cases hanswer : (r.serial k b).1 with
  | error e => rfl
  | ok receipt =>
    obtain ⟨hfrom', hto'⟩ := serial_writes hanswer
    rw [accountsAfter, Table.find?_insert, Table.find?_insert, hfrom', hto', if_neg hto,
      if_neg hfrom]

/-- The accounts after two calls do not depend on their order, if the calls write to different
accounts. -/
theorem Apart.accountsAfter_comm (h : r.Apart r') {k k' : Stamps} (t : Table Account) :
    accountsAfter (r'.serial k' b').1 (accountsAfter (r.serial k b).1 t) =
      accountsAfter (r.serial k b).1 (accountsAfter (r'.serial k' b').1 t) := by
  cases hanswer : (r.serial k b).1 with
  | error e => rfl
  | ok receipt =>
    cases hanswer' : (r'.serial k' b').1 with
    | error e => rfl
    | ok receipt' =>
      obtain ⟨hfrom, hto⟩ := serial_writes hanswer
      obtain ⟨hfrom', hto'⟩ := serial_writes hanswer'
      simp only [accountsAfter, hfrom, hto, hfrom', hto']
      rw [Table.insert_comm _ h.toFrom, Table.insert_comm _ h.toTo,
        Table.insert_comm _ h.fromFrom, Table.insert_comm _ h.fromTo]

/-- Of two requests for different accounts either may come first: the answers are the same, and so
are the accounts in the end. -/
theorem Apart.serial_comm (h : r.Apart r') (k₁ k₂ k₁' k₂' : Stamps) (b : Books) :
    Agree (r.serial k₁ b).1 (r.serial k₂ (r'.serial k₁' b).2).1 ∧
      Agree (r'.serial k₂' (r.serial k₁ b).2).1 (r'.serial k₁' b).1 ∧
      (r'.serial k₂' (r.serial k₁ b).2).2.accounts =
        (r.serial k₂ (r'.serial k₁' b).2).2.accounts := by
  have hfirst : Agree (r.serial k₁ b).1 (r.serial k₂ (r'.serial k₁' b).2).1 :=
    serial_agrees (serial_find?_of_ne h.fromFrom h.fromTo k₁' b).symm
      (serial_find?_of_ne h.toFrom h.toTo k₁' b).symm k₁ k₂
  have hsecond : Agree (r'.serial k₂' (r.serial k₁ b).2).1 (r'.serial k₁' b).1 :=
    serial_agrees (serial_find?_of_ne h.fromFrom.symm h.toFrom.symm k₁ b)
      (serial_find?_of_ne h.fromTo.symm h.toTo.symm k₁ b) k₂' k₁'
  refine ⟨hfirst, hsecond, ?_⟩
  rw [serial_accounts k₂' (r.serial k₁ b).2, serial_accounts k₁ b,
    serial_accounts k₂ (r'.serial k₁' b).2, serial_accounts k₁' b, hsecond.accountsAfter,
    ← hfirst.accountsAfter]
  exact h.accountsAfter_comm b.accounts

end TransferRequest
end FundsLedger
