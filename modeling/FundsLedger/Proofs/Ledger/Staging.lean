import FundsLedger.Proofs.Ledger.Moves

/-!
What calls stage. A call spends identifiers and changes the staged rows in one of five ways, or
leaves them as they are; a failed call leaves them as they are. The identifiers are counted from 1
for as long as the counters stay in range.
-/

namespace FundsLedger

/-! ## Counters -/

/-- No identifier has been given out twice so far: the counters have not run past the greatest
one. -/
structure Drawn.InRange (d : Drawn) : Prop where
  accounts : d.accounts ≤ 9223372036854775807
  entries : d.entries ≤ 9223372036854775807
  transfers : d.transfers ≤ 9223372036854775807

instance (d : Drawn) : Decidable d.InRange :=
  decidable_of_iff (d.accounts ≤ 9223372036854775807 ∧ d.entries ≤ 9223372036854775807 ∧
    d.transfers ≤ 9223372036854775807)
    ⟨fun h => ⟨h.1, h.2.1, h.2.2⟩, fun h => ⟨h.accounts, h.entries, h.transfers⟩⟩

/-- The counters have gone on from `d` to `d'`. -/
structure Drawn.UpTo (d d' : Drawn) : Prop where
  accounts : d.accounts ≤ d'.accounts
  entries : d.entries ≤ d'.entries
  transfers : d.transfers ≤ d'.transfers

theorem Drawn.UpTo.refl (d : Drawn) : d.UpTo d := ⟨Nat.le_refl _, Nat.le_refl _, Nat.le_refl _⟩

theorem Drawn.UpTo.trans {d d' d'' : Drawn} (h : d.UpTo d') (h' : d'.UpTo d'') : d.UpTo d'' :=
  ⟨Nat.le_trans h.accounts h'.accounts, Nat.le_trans h.entries h'.entries,
    Nat.le_trans h.transfers h'.transfers⟩

theorem Drawn.InRange.of_upTo {d d' : Drawn} (h : d'.InRange) (hup : d.UpTo d') : d.InRange :=
  ⟨Nat.le_trans hup.accounts h.accounts, Nat.le_trans hup.entries h.entries,
    Nat.le_trans hup.transfers h.transfers⟩

/-- In range the next identifier is the next number. -/
theorem idAfter_eq {drawn : Nat} (h : drawn + 1 ≤ 9223372036854775807) :
    idAfter drawn = drawn + 1 := by
  apply wrap64_of_holds
  simp only [Word.Holds, Word.int64]
  omega

namespace Ledger

variable {l l' asked : Ledger} {u : UnitId} {w : UnitOfWork} {c : Call}

/-! ## Calls -/

/-- What a call leaves of the counters and of its unit of work, by kind. -/
inductive Staging (l : Ledger) (w : UnitOfWork) : Call → Drawn → UnitOfWork → Prop
  | nothing (c : Call) : Staging l w c l.drawn w
  | spent (owner : String) (currency : Currency) (balance : Amount) :
      Staging l w (.createAccount owner currency balance)
        { l.drawn with accounts := l.drawn.accounts + 1 } w
  | account (a : Account) (id : a.id = idAfter l.drawn.accounts)
      (unique : w.isDuplicate l.books a = false) :
      Staging l w (.createAccount a.owner a.currency a.balance)
        { l.drawn with accounts := l.drawn.accounts + 1 }
        { w with accounts := w.accounts.insert a.id a }
  | balance (id : AccountId) (delta : Amount) (a : Account) (sum : Amount)
      (visible : w.visible? l.books id = some a) (adds : a.balance.add? delta = some sum) :
      Staging l w (.addBalance id delta) l.drawn
        { w with accounts := w.accounts.insert id { a with balance := sum } }
  | entry (e : Entry) (id : e.id = idAfter l.drawn.entries)
      (visible : (w.visible? l.books e.accountId).isSome) :
      Staging l w (.appendEntry e.accountId e.amount)
        { l.drawn with entries := l.drawn.entries + 1 } { w with entries := w.entries ++ [e] }
  | transfer (t : Transfer) (id : t.id = idAfter l.drawn.transfers)
      (source : (w.visible? l.books t.fromId).isSome)
      (destination : (w.visible? l.books t.toId).isSome) :
      Staging l w (.appendTransfer t.fromId t.toId t.amount)
        { l.drawn with transfers := l.drawn.transfers + 1 }
        { w with transfers := w.transfers ++ [t] }

theorem perform_staging (l : Ledger) (w : UnitOfWork) (c : Call) :
    l.Staging w c (l.perform w c).drawn (l.perform w c).unit := by
  cases c with
  | createAccount owner currency balance =>
    simp only [perform]
    generalize hid : idAfter l.drawn.accounts = id
    split
    · exact .spent owner currency balance
    · rename_i hunique
      exact .account ⟨id, owner, balance, currency, l.clock⟩ hid.symm (by simpa using hunique)
  | getAccount id => simp only [perform]; split <;> exact .nothing _
  | getForUpdate id => simp only [perform]; split <;> exact .nothing _
  | addBalance id delta =>
    simp only [perform]
    split
    · exact .nothing _
    · rename_i a ha
      split
      · exact .nothing _
      · rename_i sum hsum
        exact .balance id delta a sum ha hsum
  | listByOwner owner page => exact .nothing _
  | appendEntry accountId amount =>
    simp only [perform]
    generalize hid : idAfter l.drawn.entries = id
    split
    · exact .nothing _
    · split
      · exact .nothing _
      · rename_i a ha
        exact .entry ⟨id, accountId, amount, l.clock⟩ hid.symm (by simp [ha])
  | getEntry id => exact .nothing _
  | listEntries accountId page => exact .nothing _
  | entrySum accountId => simp only [perform]; split <;> exact .nothing _
  | appendTransfer fromId toId amount =>
    simp only [perform]
    generalize hid : idAfter l.drawn.transfers = id
    split
    · exact .nothing _
    · split
      · exact .nothing _
      -- Neither of the two accounts is missing.
      · rename_i hboth
        simp only [List.find?_eq_none, List.mem_cons, List.not_mem_nil, or_false, forall_eq_or_imp,
          forall_eq, Bool.not_eq_true, Option.isNone_eq_false_iff] at hboth
        exact .transfer ⟨id, fromId, toId, amount, l.clock⟩ hid.symm hboth.1 hboth.2
  | getTransfer id => exact .nothing _
  | listTransfers fromId toId page => exact .nothing _

theorem Staging.upTo {d : Drawn} {w' : UnitOfWork} (h : l.Staging w c d w') : l.drawn.UpTo d := by
  cases h with
  | nothing | balance => exact .refl _
  | spent | account | entry | transfer => constructor <;> simp

/-- Only what a ledger has committed and counted matters to a call. -/
theorem perform_congr (hbooks : l'.books = l.books) (hdrawn : l'.drawn = l.drawn)
    (hclock : l'.clock = l.clock) (hfail : l'.failPoint = l.failPoint) :
    l'.perform w c = l.perform w c := by
  cases c <;> simp only [perform, injected?, hbooks, hdrawn, hclock, hfail]

theorem Grants.perform (h : l.Grants u w c asked) : asked.perform w c = l.perform w c :=
  perform_congr h.books h.drawn h.clock h.failPoint

/-- A call that ends leaves its unit of work as it has been carried out, and the others alone. -/
theorem Grants.unit_finish (h : l.Grants u w c asked) (u' : UnitId) :
    (asked.finish u w c).1.unit u' =
      if u' = u then { (l.perform w c).unit with pending := none } else l.unit u' := by
  refine unit_insert ?_ u'
  rw [← h.units, ← h.perform]
  rfl

theorem Grants.drawn_finish (h : l.Grants u w c asked) :
    (asked.finish u w c).1.drawn = (l.perform w c).drawn := by
  rw [← h.perform]
  rfl

/-- No move takes an identifier back. -/
theorem Makes.upTo {m : Move} (h : l.Makes m l') : l.drawn.UpTo l'.drawn := by
  cases h with
  | rest books drawn begins commits units requests =>
    rw [drawn]
    exact .refl _
  | @performed u c w asked isOpen ready granted =>
    have h := (perform_staging l w c).upTo
    rw [← granted.perform] at h
    exact h
  | queued isOpen idle row known taken =>
    rw [request_drawn]
    exact .refl _
  | withdrawn isOpen pending =>
    rw [withdraw_of_pending isOpen pending]
    exact .refl _
  | opened | closed | published => exact .refl _

end Ledger
end FundsLedger
