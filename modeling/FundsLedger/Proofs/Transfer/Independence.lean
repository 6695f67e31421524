import FundsLedger.Proofs.DoubleEntry
import FundsLedger.Proofs.Transfer.Alone
import FundsLedger.Proofs.Transfer.Payments

/-!
The order of payments does not matter. What a payment adds to the books depends on its request
alone, so two runs that make the same payments, each in its own order and with its own conflicts and
failures, end with the same accounts and with new rows that differ in identifiers and times at most.
Of two requests that have no account in common not even the answers depend on the order.
-/

namespace FundsLedger

variable {b b' b₁ b₂ : Books} {r : TransferRequest} {receipt : Receipt}
variable {requests requests' : List TransferRequest}

/-! ## What a payment adds -/

/-- The movement of money that a transfer records. -/
def Transfer.movement (t : Transfer) : Movement := ⟨t.fromId, t.toId, t.amount⟩

/-- What a request posts if it succeeds. -/
def TransferRequest.postings (r : TransferRequest) : Multiset (AccountId × Int) :=
  {(r.fromId, -r.amount.units), (r.toId, r.amount.units)}

/-- By how much a request changes the balance of an account if it succeeds. -/
def TransferRequest.shift (r : TransferRequest) (id : AccountId) : Int :=
  if id = r.toId then r.amount.units else if id = r.fromId then -r.amount.units else 0

/-- The rows of the second table that are not in the first one. -/
def Table.added {α : Type} [DecidableEq α] (t t' : Table α) : Multiset α := t'.bag - t.bag

/-- Both books have come from the same ones and have the same accounts, and their new rows are the
same but for identifiers and times. -/
structure Books.AgreeSince (b b₁ b₂ : Books) : Prop where
  accounts : b₁.accounts = b₂.accounts
  entries : (b.entries.added b₁.entries).map Entry.posting =
    (b.entries.added b₂.entries).map Entry.posting
  transfers : (b.transfers.added b₁.transfers).map Transfer.movement =
    (b.transfers.added b₂.transfers).map Transfer.movement

theorem Table.map_added {α β : Type} [DecidableEq α] {t t' : Table α} (h : t.bag ≤ t'.bag)
    (f : α → β) : (t.added t').map f + t.bag.map f = t'.bag.map f := by
  rw [← Multiset.map_add, added, tsub_add_cancel_of_le h]

namespace TransferRequest.Posted

theorem balanceOf (h : r.Posted receipt b b') (id : AccountId) :
    b'.balanceOf id = r.shift id + b.balanceOf id := by
  obtain ⟨source, hsource, -, hdebited⟩ := h.source
  obtain ⟨destination, hdestination, -, hcredited⟩ := h.destination
  unfold Books.balanceOf shift
  rw [h.accounts, Table.find?_insert, Table.find?_insert]
  by_cases hto : id = r.toId
  · subst hto
    simp only [if_true, hdestination, hcredited]
    omega
  · by_cases hfrom : id = r.fromId
    · subst hfrom
      simp only [if_neg hto, if_true, hsource, hdebited]
      omega
    · simp only [if_neg hto, if_neg hfrom]
      omega

theorem absent (h : r.Posted receipt b b') {id : AccountId} (hid : b.accounts.find? id = none) :
    b'.accounts.find? id = none := by
  obtain ⟨source, hsource, -⟩ := h.source
  obtain ⟨destination, hdestination, -⟩ := h.destination
  have hto : id ≠ r.toId := by
    rintro rfl
    rw [hid] at hdestination
    cases hdestination
  have hfrom : id ≠ r.fromId := by
    rintro rfl
    rw [hid] at hsource
    cases hsource
  rw [h.accounts, Table.find?_insert, Table.find?_insert, if_neg hto, if_neg hfrom, hid]

theorem postings (h : r.Posted receipt b b') :
    b'.entries.bag.map Entry.posting = r.postings + b.entries.bag.map Entry.posting := by
  obtain ⟨hfrom, hto, hamount⟩ := h.moves
  rw [h.entries_bag, Transfer.postings, hfrom, hto, hamount]
  rfl

theorem movements (h : r.Posted receipt b b') :
    b'.transfers.bag.map Transfer.movement =
      {r.movement} + b.transfers.bag.map Transfer.movement := by
  obtain ⟨hfrom, hto, hamount⟩ := h.moves
  rw [h.transfers_bag, Multiset.map_cons, Transfer.movement, hfrom, hto, hamount,
    Multiset.singleton_add]
  rfl

theorem entries_le (h : r.Posted receipt b b') : b.entries.bag ≤ b'.entries.bag := by
  obtain ⟨hfrom, hto, hne⟩ := h.newEntries
  have hto' : (b.entries.insert receipt.fromEntry.id receipt.fromEntry).find? receipt.toEntry.id =
      none := by
    rw [Table.find?_insert, if_neg hne.symm, hto]
  rw [h.entries, Table.bag_insert_of_new _ hto', Table.bag_insert_of_new _ hfrom]
  exact (Multiset.le_cons_self _ _).trans (Multiset.le_cons_self _ _)

theorem transfers_le (h : r.Posted receipt b b') : b.transfers.bag ≤ b'.transfers.bag := by
  rw [h.transfers_bag]
  exact Multiset.le_cons_self _ _

end TransferRequest.Posted

/-! ## What payments add up to -/

namespace Books.Carries

/-- What every payment adds, according to its request, adds up over payments. -/
theorem sum {M : Type} [AddCommMonoid M] {f : Books → M} {g : TransferRequest → M}
    (h : b.Carries requests b')
    (hposted : ∀ r receipt b b', r.Posted receipt b b' → f b' = g r + f b) :
    f b' = (requests.map g).sum + f b := by
  induction h with
  | nothing => rw [List.map_nil, List.sum_nil, zero_add]
  | posted carries posts ih =>
    rw [hposted _ _ _ _ posts, ih, List.map_cons, List.sum_cons, add_assoc]

theorem entries_le (h : b.Carries requests b') : b.entries.bag ≤ b'.entries.bag := by
  induction h with
  | nothing => exact le_refl _
  | posted carries posts ih => exact ih.trans posts.entries_le

theorem transfers_le (h : b.Carries requests b') : b.transfers.bag ≤ b'.transfers.bag := by
  induction h with
  | nothing => exact le_refl _
  | posted carries posts ih => exact ih.trans posts.transfers_le

theorem keptIn (h : b.Carries requests b') : b.KeptIn b' := by
  induction h with
  | nothing => exact fun id a ha => ⟨a, ha, .refl a⟩
  | posted carries posts ih =>
    intro id a ha
    obtain ⟨a', ha', hsame⟩ := ih id a ha
    obtain ⟨a'', ha'', hsame'⟩ := posts.keptIn id a' ha'
    exact ⟨a'', ha'', hsame'.trans hsame⟩

theorem absent (h : b.Carries requests b') {id : AccountId} (hid : b.accounts.find? id = none) :
    b'.accounts.find? id = none := by
  induction h with
  | nothing => exact hid
  | posted carries posts ih => exact posts.absent ih

/-- The same payments in any order lead to the same balances. -/
theorem balanceOf_eq (h : b.Carries requests b₁) (h' : b.Carries requests' b₂)
    (hperm : requests.Perm requests') (id : AccountId) : b₁.balanceOf id = b₂.balanceOf id := by
  have hsum := h.sum (f := (·.balanceOf id)) fun _ _ _ _ hposted => hposted.balanceOf id
  have hsum' := h'.sum (f := (·.balanceOf id)) fun _ _ _ _ hposted => hposted.balanceOf id
  rw [hsum, hsum', (hperm.map _).sum_eq]

/-- The same payments in any order lead to the same accounts: nothing but balances changes. -/
theorem accounts_eq (h : b.Carries requests b₁) (h' : b.Carries requests' b₂)
    (hperm : requests.Perm requests') : b₁.accounts = b₂.accounts := by
  refine Table.ext_find? fun id => ?_
  cases hid : b.accounts.find? id with
  | none => rw [h.absent hid, h'.absent hid]
  | some a =>
    obtain ⟨a₁, ha₁, hsame₁⟩ := h.keptIn id a hid
    obtain ⟨a₂, ha₂, hsame₂⟩ := h'.keptIn id a hid
    have hbalance := h.balanceOf_eq h' hperm id
    rw [balanceOf_of_find? ha₁, balanceOf_of_find? ha₂] at hbalance
    rw [ha₁, ha₂, (hsame₁.trans hsame₂.symm).eq hbalance]

/-- The same payments in any order agree in all that they add. -/
theorem agreeSince (h : b.Carries requests b₁) (h' : b.Carries requests' b₂)
    (hperm : requests.Perm requests') : b.AgreeSince b₁ b₂ where
  accounts := h.accounts_eq h' hperm
  entries := by
    have hsum := h.sum fun _ _ _ _ hposted => hposted.postings
    have hsum' := h'.sum fun _ _ _ _ hposted => hposted.postings
    rw [← Table.map_added h.entries_le] at hsum
    rw [← Table.map_added h'.entries_le] at hsum'
    rw [add_right_cancel hsum, add_right_cancel hsum', (hperm.map _).sum_eq]
  transfers := by
    have hsum := h.sum fun _ _ _ _ hposted => hposted.movements
    have hsum' := h'.sum fun _ _ _ _ hposted => hposted.movements
    rw [← Table.map_added h.transfers_le] at hsum
    rw [← Table.map_added h'.transfers_le] at hsum'
    rw [add_right_cancel hsum, add_right_cancel hsum', (hperm.map _).sum_eq]

end Books.Carries

namespace Service

variable {s s' : Service} {actions actions' : List Action} {r' : TransferRequest}
variable {limit limit' : Limit}

/-- Two runs that make the same payments and write nothing else agree. -/
theorem Reachable.agreeSince (hs : s.Reachable) (hs' : s'.Reachable)
    (hbooks : s.ledger.books = s'.ledger.books) (honly : s.OnlyPays actions)
    (honly' : s'.OnlyPays actions') (hpaid : s.paidRequests actions = s'.paidRequests actions')
    (hr : (s.run actions).ledger.drawn.InRange) (hr' : (s'.run actions').ledger.drawn.InRange) :
    s.ledger.books.AgreeSince (s.run actions).ledger.books (s'.run actions').ledger.books := by
  obtain ⟨requests, hrequests, hcarries⟩ := hs.carries honly hr
  obtain ⟨requests', hrequests', hcarries'⟩ := hs'.carries honly' hr'
  rw [← hbooks] at hcarries'
  refine hcarries.agreeSince hcarries' (Multiset.coe_eq_coe.mp ?_)
  rw [hrequests, hrequests', hpaid]

/-- Two requests that have no account in common, one made after the other: what becomes of each and
of the accounts is the same in either order. -/
theorem Reachable.pay_comm (hs : s.Reachable) (hapart : r.Apart r')
    (hcalm : s.ledger.Calm (fun id => r.Concerns id ∨ r'.Concerns id) none)
    (hr : ((s.pay r limit).1.pay r' limit').1.ledger.drawn.InRange)
    (hr' : ((s.pay r' limit').1.pay r limit).1.ledger.drawn.InRange) :
    ∃ answer answer' late late',
      (s.pay r limit).2 = some (.answered (.receipt answer)) ∧
      ((s.pay r limit).1.pay r' limit').2 = some (.answered (.receipt late')) ∧
      (s.pay r' limit').2 = some (.answered (.receipt answer')) ∧
      ((s.pay r' limit').1.pay r limit).2 = some (.answered (.receipt late)) ∧
      Agree answer late ∧ Agree late' answer' ∧
      ((s.pay r limit).1.pay r' limit').1.ledger.books.accounts =
        ((s.pay r' limit').1.pay r limit).1.ledger.books.accounts := by
  have hlawful := hs.lawful
  have hfirst := hr.of_upTo ((hlawful.pay r limit).pay_upTo r' limit')
  have hfirst' := hr'.of_upTo ((hlawful.pay r' limit').pay_upTo r limit)
  obtain ⟨answer, k₁, hanswer, hserial₁, hcalm₁⟩ := pay_alone hlawful hcalm (fun _ => Or.inl) hfirst
  obtain ⟨late', k₂', hlate', hserial₂', -⟩ :=
    pay_alone (hlawful.pay r limit) hcalm₁ (fun _ => Or.inr) hr
  obtain ⟨answer', k₁', hanswer', hserial₁', hcalm₁'⟩ :=
    pay_alone hlawful hcalm (fun _ => Or.inr) hfirst'
  obtain ⟨late, k₂, hlate, hserial₂, -⟩ :=
    pay_alone (hlawful.pay r' limit') hcalm₁' (fun _ => Or.inl) hr'
  obtain ⟨hagree, hagree', haccounts⟩ := hapart.serial_comm k₁ k₂ k₁' k₂' s.ledger.books
  rw [hserial₁, hserial₁'] at hagree hagree' haccounts
  rw [hserial₂, hserial₂'] at haccounts
  rw [hserial₂] at hagree
  rw [hserial₂'] at hagree'
  exact ⟨answer, answer', late, late', hanswer, hlate', hanswer', hlate, hagree, hagree',
    haccounts⟩

/-- The order of payments does not matter. Runs from the same books that make the same payments and
write nothing else, whatever fails, waits or is tried again in them, lead to the same accounts, and
to the same new entries and transfers but for identifiers and times. And two requests without a
common account, made one after the other while nobody else asks for their accounts and the store
does not fail, are answered alike in either order, with the same failure or with receipts that
differ in identifiers and times at most, and leave the same accounts. -/
theorem payments_order_independent :
    (∀ {s s' : Service} {actions actions' : List Action}, s.Reachable → s'.Reachable →
      s.ledger.books = s'.ledger.books → s.OnlyPays actions → s'.OnlyPays actions' →
      s.paidRequests actions = s'.paidRequests actions' →
      (s.run actions).ledger.drawn.InRange → (s'.run actions').ledger.drawn.InRange →
      s.ledger.books.AgreeSince (s.run actions).ledger.books (s'.run actions').ledger.books) ∧
    ∀ {s : Service} (r r' : TransferRequest) (limit limit' : Limit), s.Reachable → r.Apart r' →
      s.ledger.Calm (fun id => r.Concerns id ∨ r'.Concerns id) none →
      ((s.pay r limit).1.pay r' limit').1.ledger.drawn.InRange →
      ((s.pay r' limit').1.pay r limit).1.ledger.drawn.InRange →
      ∃ answer answer' late late',
        (s.pay r limit).2 = some (.answered (.receipt answer)) ∧
        ((s.pay r limit).1.pay r' limit').2 = some (.answered (.receipt late')) ∧
        (s.pay r' limit').2 = some (.answered (.receipt answer')) ∧
        ((s.pay r' limit').1.pay r limit).2 = some (.answered (.receipt late)) ∧
        Agree answer late ∧ Agree late' answer' ∧
        ((s.pay r limit).1.pay r' limit').1.ledger.books.accounts =
          ((s.pay r' limit').1.pay r limit).1.ledger.books.accounts :=
  ⟨Reachable.agreeSince, fun _ _ _ _ hs hapart hcalm hr hr' => hs.pay_comm hapart hcalm hr hr'⟩

/-- Two more owners open accounts, one with 50 cents and the other one with 10. -/
def moreOpenings : List Action :=
  .submit (.openAccount "carol" "USD" (cents 50)) :: turns 3 7 ++
    .submit (.openAccount "dave" "USD" (cents 10)) :: turns 4 7

/-- A service in which four accounts are open. -/
def crowd : Service := sample.run moreOpenings

/-- The second owner is to pay the first one 50 cents, which takes the payment to have come in. -/
def refund : TransferRequest := ⟨2, 1, cents 50, "USD"⟩

/-- The third owner is to pay the fourth one 25 cents. -/
def gift : TransferRequest := ⟨3, 4, cents 25, "USD"⟩

/-- The payment, and the refund after it. -/
def inTurn : List Action :=
  .submit (.transfer payment .usual) :: turns 5 12 ++
    .submit (.transfer refund .usual) :: turns 6 12

/-- The refund, which is refused for want of funds; then the refund once more and the payment, whose
turns are mixed, so that the refund has to wait for the payment. -/
def mixed : List Action :=
  .submit (.transfer refund .usual) :: turns 5 10 ++
    .submit (.transfer refund .usual) :: .submit (.transfer payment .usual) ::
      (turns 6 1 ++ turns 7 5 ++ turns 6 2 ++ turns 7 7 ++ turns 6 12)

set_option maxRecDepth 8000 in
/-- The payment and the refund are made in both runs, which agree, and a gift between two others may
be made before the payment or after it. -/
theorem refund_order_independent :
    crowd.paidRequests inTurn = {payment, refund} ∧ crowd.paidRequests mixed = {payment, refund} ∧
    crowd.ledger.books.AgreeSince (crowd.run inTurn).ledger.books (crowd.run mixed).ledger.books ∧
    ((crowd.pay payment .usual).1.pay gift .usual).1.ledger.books.accounts =
      ((crowd.pay gift .usual).1.pay payment .usual).1.ledger.books.accounts := by
  obtain ⟨hruns, hpairs⟩ := payments_order_independent
  have hreachable : crowd.Reachable := Reachable.run ⟨_, _, rfl⟩ moreOpenings
  have hinTurn : crowd.paidRequests inTurn = {payment, refund} := by decide
  have hmixed : crowd.paidRequests mixed = {payment, refund} := by decide
  refine ⟨hinTurn, hmixed, ?_, ?_⟩
  · exact hruns hreachable hreachable rfl (by decide) (by decide) (hinTurn.trans hmixed.symm)
      (by decide) (by decide)
  · have hrequests : crowd.ledger.requests = [] := rfl
    obtain ⟨-, -, -, -, -, -, -, -, -, -, haccounts⟩ := hpairs payment gift .usual .usual
      hreachable ⟨by decide, by decide, by decide, by decide⟩
      ⟨rfl, rfl, fun q hq _ => by rw [hrequests] at hq; cases hq⟩ (by decide +kernel)
      (by decide +kernel)
    exact haccounts

end Service
end FundsLedger
