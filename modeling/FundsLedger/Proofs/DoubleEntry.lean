import FundsLedger.Proofs.Commits
import FundsLedger.Proofs.Transfer.ExactlyOnce

/-!
Double entry. Nothing in the books says which entries belong together, so it is said here of the
entries as a whole: they are the opening deposits and, for each transfer, what it takes from one
account and gives to another one. Openings and transfers keep books like that, each in one step;
and since the two halves of a transfer are in one currency and cancel out, the balances in a
currency add up to what has been deposited in it.
-/

namespace FundsLedger

namespace Table

variable {α : Type} {t : Table α} {key : Int} {old : α}

/-- The rows without their order. -/
def bag (t : Table α) : Multiset α := t.values

theorem bag_insert_of_new (row : α) (h : t.find? key = none) :
    (t.insert key row).bag = row ::ₘ t.bag :=
  Multiset.coe_eq_coe.mpr (values_insert_of_new row h)

theorem bag_insert_of_find? (row : α) (h : t.find? key = some old) :
    ∃ rest, t.bag = old ::ₘ rest ∧ (t.insert key row).bag = row ::ₘ rest := by
  obtain ⟨xs, ys, hvalues, hinsert⟩ := values_insert_of_find? row h
  refine ⟨xs ++ ys, ?_, ?_⟩
  · rw [bag, hvalues]
    exact Multiset.coe_eq_coe.mpr List.perm_middle
  · rw [bag, hinsert]
    exact Multiset.coe_eq_coe.mpr List.perm_middle

end Table

/-- An account that has been opened, with the currency and the deposit that were asked for. -/
structure Opening where
  account : AccountId
  currency : String
  deposit : Amount
deriving DecidableEq

/-- The account of an entry and its amount. -/
def Entry.posting (e : Entry) : AccountId × Int := (e.accountId, e.amount.units)

/-- What an opening posts: the deposit, if there is one. -/
def Opening.postings (o : Opening) : Multiset (AccountId × Int) :=
  if o.deposit.units = 0 then 0 else {(o.account, o.deposit.units)}

/-- What a transfer posts: the amount is taken from one account and given to the other. -/
def Transfer.postings (t : Transfer) : Multiset (AccountId × Int) :=
  {(t.fromId, -t.amount.units), (t.toId, t.amount.units)}

/-- The sum of the balances in one currency. -/
def held (c : Currency) (accounts : Multiset Account) : Int :=
  ((accounts.filter (·.currency = c)).map (·.balance.units)).sum

/-- The sum of the opening deposits in one currency. -/
def deposited (c : Currency) (opened : Multiset Opening) : Int :=
  ((opened.filter (·.currency = c.code)).map (·.deposit.units)).sum

/-- The transfer moves a positive amount between two different accounts in one currency. -/
structure Transfer.Sound (t : Transfer) (b : Books) : Prop where
  positive : 0 < t.amount.units
  distinct : t.fromId ≠ t.toId
  accounts : ∃ source destination, b.accounts.find? t.fromId = some source ∧
    b.accounts.find? t.toId = some destination ∧ source.currency = destination.currency

/-- The books are in double entry after these openings. -/
structure Books.DoubleEntry (b : Books) (opened : Multiset Opening) : Prop where
  postings : b.entries.bag.map Entry.posting =
    opened.bind Opening.postings + b.transfers.bag.bind Transfer.postings
  transfers : ∀ t ∈ b.transfers.bag, t.Sound b
  accounts : opened.map (·.account) = b.accounts.keys
  currencies : ∀ o ∈ opened, ∃ a, b.accounts.find? o.account = some a ∧ a.currency.code = o.currency
  conserved : ∀ c, held c b.accounts.bag = deposited c opened

variable {b b' : Books} {c : Currency} {a : Account} {o : Opening} {opened : Multiset Opening}

/-! ## One row more -/

@[simp] theorem held_cons (c : Currency) (a : Account) (accounts : Multiset Account) :
    held c (a ::ₘ accounts) =
      (if a.currency = c then a.balance.units else 0) + held c accounts := by
  unfold held
  by_cases hc : a.currency = c <;> simp [hc]

@[simp] theorem deposited_cons (c : Currency) (o : Opening) (opened : Multiset Opening) :
    deposited c (o ::ₘ opened) =
      (if o.currency = c.code then o.deposit.units else 0) + deposited c opened := by
  unfold deposited
  by_cases hc : o.currency = c.code <;> simp [hc]

/-- A balance that changes changes the sum of the balances in its currency. -/
theorem held_insert {t : Table Account} {id : AccountId} {a' : Account}
    (h : t.find? id = some a) (hsame : a'.currency = a.currency) :
    held c (t.insert id a').bag =
      held c t.bag + if a.currency = c then a'.balance.units - a.balance.units else 0 := by
  obtain ⟨rest, hbag, hinsert⟩ := Table.bag_insert_of_find? a' h
  rw [hbag, hinsert, held_cons, held_cons, hsame]
  split <;> omega

theorem Transfer.Sound.keptIn {t : Transfer} (h : t.Sound b) (hkept : b.KeptIn b') :
    t.Sound b' := by
  obtain ⟨source, destination, hsource, hdestination, hcurrency⟩ := h.accounts
  obtain ⟨source', hsource', hsame⟩ := hkept _ _ hsource
  obtain ⟨destination', hdestination', hsame'⟩ := hkept _ _ hdestination
  refine ⟨h.positive, h.distinct, source', destination', hsource', hdestination', ?_⟩
  rw [hsame.currency, hsame'.currency, hcurrency]

namespace Books.DoubleEntry

theorem empty : Books.empty.DoubleEntry 0 where
  postings := rfl
  transfers t ht := by cases ht
  accounts := rfl
  currencies o ho := by simp at ho
  conserved c := rfl

theorem currencies_of_keptIn (h : b.DoubleEntry opened) (hkept : b.KeptIn b') (ho : o ∈ opened) :
    ∃ a, b'.accounts.find? o.account = some a ∧ a.currency.code = o.currency := by
  obtain ⟨a, ha, hcode⟩ := h.currencies o ho
  obtain ⟨a', ha', hsame⟩ := hkept _ _ ha
  exact ⟨a', ha', by rw [hsame.currency, hcode]⟩

/-- An opening posts its deposit. -/
theorem opening {owner currency : String} {deposit : Amount} (h : b.DoubleEntry opened)
    (ho : Opened owner currency deposit a b b') :
    b'.DoubleEntry (⟨a.id, currency, deposit⟩ ::ₘ opened) := by
  have hkept : b.KeptIn b' := by
    intro id a₁ ha₁
    refine ⟨a₁, ?_, .refl a₁⟩
    have hne : id ≠ a.id := by
      rintro rfl
      rw [ho.new] at ha₁
      cases ha₁
    rw [ho.accounts, Table.find?_insert, if_neg hne, ha₁]
  have hfound : b'.accounts.find? a.id = some a := by
    rw [ho.accounts, Table.find?_insert, if_pos rfl]
  constructor
  case postings =>
    rw [Multiset.cons_bind, ho.transfers, Opening.postings]
    by_cases hzero : deposit.units = 0
    · rw [if_pos hzero, zero_add, ho.unfunded hzero]
      exact h.postings
    · obtain ⟨e, hnew, haccount, hamount, hentries⟩ := ho.funded hzero
      rw [if_neg hzero, hentries, Table.bag_insert_of_new e hnew, Multiset.map_cons, h.postings,
        Entry.posting, haccount, hamount, add_assoc, Multiset.singleton_add]
  case transfers =>
    intro t ht
    rw [ho.transfers] at ht
    exact (h.transfers t ht).keptIn hkept
  case accounts =>
    rw [Multiset.map_cons, h.accounts, ho.accounts]
    exact (Multiset.coe_eq_coe.mpr (Table.keys_insert_of_new a ho.new)).symm
  case currencies =>
    intro o hmem
    rcases Multiset.mem_cons.mp hmem with rfl | hmem
    · exact ⟨a, hfound, ho.currency⟩
    · exact h.currencies_of_keptIn hkept hmem
  case conserved =>
    intro c
    rw [ho.accounts, Table.bag_insert_of_new a ho.new, held_cons, deposited_cons, h.conserved,
      ho.balance, ← ho.currency]
    simp only [Currency.code_inj]

end Books.DoubleEntry

namespace TransferRequest.Posted

variable {r : TransferRequest} {receipt : Receipt}

/-- Both accounts stay, each with another balance. -/
theorem keptIn (h : r.Posted receipt b b') : b.KeptIn b' := by
  obtain ⟨source, hsource, hsame, -⟩ := h.source
  obtain ⟨destination, hdestination, hsame', -⟩ := h.destination
  intro id a ha
  rw [h.accounts, Table.find?_insert, Table.find?_insert]
  by_cases hto : id = r.toId
  · subst hto
    rw [hdestination] at ha
    cases ha
    exact ⟨receipt.toAccount, if_pos rfl, hsame'⟩
  · rw [if_neg hto]
    by_cases hfrom : id = r.fromId
    · subst hfrom
      rw [hsource] at ha
      cases ha
      exact ⟨receipt.fromAccount, if_pos rfl, hsame⟩
    · rw [if_neg hfrom]
      exact ⟨a, ha, .refl a⟩

/-- The two entries are what the transfer posts. -/
theorem entries_bag (h : r.Posted receipt b b') :
    b'.entries.bag.map Entry.posting =
      receipt.transfer.postings + b.entries.bag.map Entry.posting := by
  obtain ⟨hfrom, hto, hne⟩ := h.newEntries
  have hto' : (b.entries.insert receipt.fromEntry.id receipt.fromEntry).find? receipt.toEntry.id =
      none := by
    rw [Table.find?_insert, if_neg hne.symm, hto]
  have hpostings : receipt.transfer.postings =
      receipt.fromEntry.posting ::ₘ {receipt.toEntry.posting} := by
    rw [Transfer.postings, Entry.posting, Entry.posting, h.debit.1, h.debit.2, h.credit.1,
      h.credit.2, h.moves.1, h.moves.2.1, h.moves.2.2]
    rfl
  rw [h.entries, Table.bag_insert_of_new _ hto', Table.bag_insert_of_new _ hfrom,
    Multiset.map_cons, Multiset.map_cons, hpostings, Multiset.cons_add, Multiset.singleton_add,
    Multiset.cons_swap]

theorem transfers_bag (h : r.Posted receipt b b') :
    b'.transfers.bag = receipt.transfer ::ₘ b.transfers.bag := by
  rw [h.transfers, Table.bag_insert_of_new _ h.newTransfer]

end TransferRequest.Posted

namespace Books.DoubleEntry

/-- A transfer posts two entries that cancel out. -/
theorem transfer {r : TransferRequest} {k : Stamps} {receipt : Receipt} (h : b.DoubleEntry opened)
    (hserial : r.serial k b = (.ok receipt, b')) (hnew : k.NewTo b) : b'.DoubleEntry opened := by
  obtain ⟨hne, source, destination, hamount, -, -, hsource, hdestination, hcurrency, -, rfl⟩ :=
    TransferRequest.serial_eq_ok hserial
  have hposted := TransferRequest.posted_of_serial hserial hnew
  have hkept := hposted.keptIn
  obtain ⟨source', hfound, hsame, hdebited⟩ := hposted.source
  cases hsource.symm.trans hfound
  obtain ⟨destination', hfound, hsame', hcredited⟩ := hposted.destination
  cases hdestination.symm.trans hfound
  have hstill : (b.accounts.insert r.fromId receipt.fromAccount).find? r.toId =
      some destination := by
    rw [Table.find?_insert, if_neg (Ne.symm hne), hdestination]
  constructor
  case postings =>
    rw [hposted.entries_bag, hposted.transfers_bag, Multiset.cons_bind, h.postings,
      add_left_comm]
  case transfers =>
    intro t ht
    rw [hposted.transfers_bag, Multiset.mem_cons] at ht
    rcases ht with rfl | ht
    · obtain ⟨hfrom, hto, hmoved⟩ := hposted.moves
      have hsound : receipt.transfer.Sound b := by
        refine ⟨?_, ?_, source, destination, ?_, ?_, hcurrency⟩
        · rw [hmoved]
          omega
        · rw [hfrom, hto]
          exact hne
        · rw [hfrom, hsource]
        · rw [hto, hdestination]
      exact hsound.keptIn hkept
    · exact (h.transfers t ht).keptIn hkept
  case accounts =>
    rw [hposted.accounts, Table.keys_insert_of_find? _ hstill,
      Table.keys_insert_of_find? _ hsource, h.accounts]
  case currencies =>
    intro o ho
    exact h.currencies_of_keptIn hkept ho
  case conserved =>
    intro c
    rw [hposted.accounts, held_insert hstill hsame'.currency, held_insert hsource hsame.currency,
      h.conserved, hdebited, hcredited, hcurrency]
    split <;> omega

end Books.DoubleEntry
end FundsLedger
