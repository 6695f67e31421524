import FundsLedger.Proofs.Ledger.Runs

/-!
The audit trail. Committed entries and transfers stay as they are, and of a committed account only
the balance changes: a commit writes rows under identifiers of its own, or rows that it has locked.
Every committed entry and transfer is on accounts that are committed too, although a unit of work
may append to an account that only it has staged: the two are committed together.
-/

namespace FundsLedger

namespace Books

variable {b b' b'' : Books}

/-- What is in the first books is in the second ones: entries and transfers as they were, accounts
with another balance at most. -/
structure GrowsInto (b b' : Books) : Prop where
  entries : ∀ id e, b.entries.find? id = some e → b'.entries.find? id = some e
  transfers : ∀ id t, b.transfers.find? id = some t → b'.transfers.find? id = some t
  accounts : b.KeptIn b'

theorem GrowsInto.refl (b : Books) : b.GrowsInto b :=
  ⟨fun _ _ h => h, fun _ _ h => h, fun _ a h => ⟨a, h, .refl a⟩⟩

theorem GrowsInto.trans (h : b.GrowsInto b') (h' : b'.GrowsInto b'') : b.GrowsInto b'' where
  entries id e he := h'.entries id e (h.entries id e he)
  transfers id t ht := h'.transfers id t (h.transfers id t ht)
  accounts id a ha := by
    obtain ⟨a', ha', hsame⟩ := h.accounts id a ha
    obtain ⟨a'', ha'', hsame'⟩ := h'.accounts id a' ha'
    exact ⟨a'', ha'', hsame'.trans hsame⟩

/-- Entries and transfers are on accounts that are in the books. -/
structure Referential (b : Books) : Prop where
  entries : ∀ id e, b.entries.find? id = some e → (b.accounts.find? e.accountId).isSome
  transfers : ∀ id t, b.transfers.find? id = some t →
    (b.accounts.find? t.fromId).isSome ∧ (b.accounts.find? t.toId).isSome

end Books

namespace Ledger

variable {l l' : Ledger} {u : UnitId} {w : UnitOfWork} {m : Move}

/-! ## Nothing is overwritten -/

/-- A row of a committed account is written by a unit of work that holds it, and with another
balance at most. -/
theorem Sound.keptIn_publish (h : l.Sound) (hw : l.units.find? u = some w) :
    l.books.KeptIn (w.publish l.books) := by
  intro id a ha
  rw [UnitOfWork.publish, Table.find?_overlay]
  cases hs : w.accounts.find? id with
  | none => exact ⟨a, by simp [ha], .refl a⟩
  | some a' =>
    rw [← unit_of_find? hw] at hs
    rcases h.owned u id a' hs with hnew | hcovers
    · rw [hnew.uncommitted] at ha
      cases ha
    · obtain ⟨a'', hbook, hsame⟩ := hcovers.committed
      rw [ha] at hbook
      cases hbook
      exact ⟨a', rfl, hsame⟩

theorem Makes.growsInto (h : l.Sound) (hm : l.Makes m l') : l.books.GrowsInto l'.books := by
  have stay : l'.books = l.books → l.books.GrowsInto l'.books := fun heq => by
    rw [heq]
    exact .refl l.books
  cases hm.effect with
  | performed isOpen granted => exact stay granted.books
  | quiet books drawn units => exact stay books
  | @published u w isOpen unique =>
    have hunit := unit_of_find? isOpen
    refine ⟨fun id e he => ?_, fun id t ht => ?_, h.keptIn_publish isOpen⟩
    · have hkept := h.entries.kept (u := u) he
      rwa [hunit] at hkept
    · have hkept := h.transfers.kept (u := u) ht
      rwa [hunit] at hkept

/-- Induction on the run: each step grows the books that the steps before it have left. -/
theorem Lawful.growsInto_run (h : l.Lawful) {actions : List Action}
    (hr : (l.run actions).drawn.InRange) : l.books.GrowsInto (l.run actions).books := by
  induction actions generalizing l with
  | nil => exact .refl l.books
  | cons a rest ih =>
    obtain ⟨m, hm, -⟩ := l.step_makes a
    have hrange : l.drawn.InRange := hr.of_upTo (l.upTo_run (a :: rest))
    exact (hm.growsInto (h.sound hrange)).trans (ih (h.step a) hr)

/-! ## Nothing dangles -/

/-- All that is committed is on committed accounts, and all that is staged is on accounts that its
unit of work sees. -/
structure Referential (l : Ledger) : Prop where
  books : l.books.Referential
  entries : ∀ u e, e ∈ (l.unit u).entries →
    ((l.unit u).visible? l.books e.accountId).isSome
  transfers : ∀ u t, t ∈ (l.unit u).transfers →
    ((l.unit u).visible? l.books t.fromId).isSome ∧ ((l.unit u).visible? l.books t.toId).isSome

namespace Referential

theorem empty : Ledger.empty.Referential where
  books := ⟨fun id e he => by simp [Ledger.empty, Books.empty] at he,
    fun id t ht => by simp [Ledger.empty, Books.empty] at ht⟩
  entries u e he := by simp [unit, Ledger.empty, UnitOfWork.fresh] at he
  transfers u t ht := by simp [unit, Ledger.empty, UnitOfWork.fresh] at ht

/-- Dropping what units of work have staged does no harm. -/
theorem shrink (h : l.Referential) (hbooks : l'.books = l.books)
    (hunits : ∀ u, l.Retains m l' u ∨ l.Blanks l' u) : l'.Referential where
  books := by
    rw [hbooks]
    exact h.books
  entries u e he := by
    rcases hunits u with hretains | hblanks
    · rw [hretains.entries] at he
      rw [visible?_isSome_iff, hretains.accounts, hbooks, ← visible?_isSome_iff]
      exact h.entries u e he
    · rw [hblanks.unit] at he
      cases he
  transfers u t ht := by
    rcases hunits u with hretains | hblanks
    · rw [hretains.transfers] at ht
      simp only [visible?_isSome_iff, hretains.accounts, hbooks]
      simpa only [visible?_isSome_iff] using h.transfers u t ht
    · rw [hblanks.unit] at ht
      cases ht

/-- Staging hides no account, and what is appended is on an account that was visible. -/
theorem finish {c : Call} {asked : Ledger} (h : l.Referential) (isOpen : l.units.find? u = some w)
    (granted : l.Grants u w c asked) : (asked.finish u w c).1.Referential := by
  have hw := unit_of_find? isOpen
  have hstaging := perform_staging l w c
  have hvisible : ∀ id, (w.visible? l.books id).isSome →
      ((l.perform w c).unit.visible? l.books id).isSome := fun _ =>
    Sound.visible_of_staging hstaging
  have hbooks : (asked.finish u w c).1.books = l.books := granted.books
  constructor
  case books =>
    rw [hbooks]
    exact h.books
  case entries =>
    intro u' e he
    rw [granted.unit_finish] at he ⊢
    rw [hbooks]
    split
    · rename_i heq
      rw [if_pos heq] at he
      refine hvisible e.accountId ?_
      have hold : e ∈ w.entries → (w.visible? l.books e.accountId).isSome := by
        rw [← hw]
        exact h.entries u e
      generalize (l.perform w c).drawn = d, (l.perform w c).unit = w' at hstaging he
      cases hstaging with
      | nothing | spent | account | balance | transfer => exact hold he
      | entry e' hid hseen =>
        rcases List.mem_append.mp he with he | he
        · exact hold he
        · rw [List.mem_singleton.mp he]
          exact hseen
    · rename_i hne
      rw [if_neg hne] at he
      exact h.entries u' e he
  case transfers =>
    intro u' t ht
    rw [granted.unit_finish] at ht ⊢
    rw [hbooks]
    split
    · rename_i heq
      rw [if_pos heq] at ht
      refine And.imp (hvisible t.fromId) (hvisible t.toId) ?_
      have hold : t ∈ w.transfers →
          (w.visible? l.books t.fromId).isSome ∧ (w.visible? l.books t.toId).isSome := by
        rw [← hw]
        exact h.transfers u t
      generalize (l.perform w c).drawn = d, (l.perform w c).unit = w' at hstaging ht
      cases hstaging with
      | nothing | spent | account | balance | entry => exact hold ht
      | transfer t' hid hsource hdestination =>
        rcases List.mem_append.mp ht with ht | ht
        · exact hold ht
        · rw [List.mem_singleton.mp ht]
          exact ⟨hsource, hdestination⟩
    · rename_i hne
      rw [if_neg hne] at ht
      exact h.transfers u' t ht

/-- Entries, transfers and the accounts that they are on are committed in one step. -/
theorem publish (h : l.Referential) (isOpen : l.units.find? u = some w)
    (hbooks : l'.books = w.publish l.books) (hunits : l'.units = l.units.erase u) :
    l'.Referential := by
  have hw := unit_of_find? isOpen
  have hfind : ∀ id, (w.publish l.books).accounts.find? id = w.visible? l.books id :=
    fun id => Table.find?_overlay _ _ _
  have hcommitted : ∀ id, (l.books.accounts.find? id).isSome →
      ((w.publish l.books).accounts.find? id).isSome := by
    intro id hid
    rw [hfind, visible?_isSome_iff]
    exact Or.inr hid
  have hothers : ∀ v : UnitOfWork, ∀ id, (v.visible? l.books id).isSome →
      (v.visible? (w.publish l.books) id).isSome := by
    intro v id hid
    rw [visible?_isSome_iff] at hid ⊢
    exact hid.imp_right (hcommitted id)
  constructor
  case books =>
    rw [hbooks]
    constructor
    · intro id e he
      rcases Table.mem_of_find?_foldl_insertById Entry.id he with hstaged | hold
      · rw [hfind, ← hw]
        exact h.entries u e (by rwa [hw])
      · exact hcommitted _ (h.books.entries id e hold)
    · intro id t ht
      rcases Table.mem_of_find?_foldl_insertById Transfer.id ht with hstaged | hold
      · rw [hfind, hfind, ← hw]
        exact h.transfers u t (by rwa [hw])
      · exact And.imp (hcommitted _) (hcommitted _) (h.books.transfers id t hold)
  case entries =>
    intro u' e he
    rw [unit_erase hunits] at he ⊢
    rw [hbooks]
    split
    · rename_i heq
      rw [if_pos heq] at he
      cases he
    · rename_i hne
      rw [if_neg hne] at he
      exact hothers _ _ (h.entries u' e he)
  case transfers =>
    intro u' t ht
    rw [unit_erase hunits] at ht ⊢
    rw [hbooks]
    split
    · rename_i heq
      rw [if_pos heq] at ht
      cases ht
    · rename_i hne
      rw [if_neg hne] at ht
      exact And.imp (hothers _ _) (hothers _ _) (h.transfers u' t ht)

theorem makes (h : l.Referential) (hm : l.Makes m l') : l'.Referential := by
  cases hm.effect with
  | performed isOpen granted => exact h.finish isOpen granted
  | published isOpen unique => exact h.publish isOpen rfl rfl
  | quiet books drawn units => exact h.shrink books units

theorem run (h : l.Referential) (actions : List Action) : (l.run actions).Referential := by
  induction actions generalizing l with
  | nil => exact h
  | cons a rest ih =>
    obtain ⟨m, hm, -⟩ := l.step_makes a
    exact ih (h.makes hm)

end Referential

theorem Reachable.referential (h : l.Reachable) : l.Referential := by
  obtain ⟨actions, rfl⟩ := h
  exact Referential.empty.run actions

/-- The audit trail is append-only: whatever units of work do and however they interleave, what is
committed stays, with another balance of an account at most, and committed entries and transfers are
on committed accounts. -/
theorem audit_trail (h : l.Reachable) (actions : List Action)
    (hr : (l.run actions).drawn.InRange) :
    l.books.GrowsInto (l.run actions).books ∧ (l.run actions).books.Referential :=
  ⟨h.lawful.growsInto_run hr, (h.referential.run actions).books⟩

/-- The first unit of work opens two accounts and appends an entry and a transfer to them before
they are committed; the second one has opened a third account, and is still open. -/
def founded : List Action :=
  [.begin, .begin, .call 1 (.createAccount "ann" franc (cents 250)),
    .call 2 (.createAccount "bob" franc (cents 90)), .call 1 (.createAccount "cid" franc .zero),
    .call 1 (.appendEntry 1 (cents 250)), .call 1 (.appendTransfer 1 3 (cents 40)), .commit 1]

/-- Then the second unit of work adds to a committed balance, appends an entry to the account that
is still its own, and commits. -/
def resumed : List Action :=
  [.call 2 (.addBalance 1 (cents 7)), .call 2 (.appendEntry 2 (cents 90)), .commit 2]

theorem founded_trail :
    (empty.run founded).Reachable ∧ ((empty.run founded).run resumed).drawn.InRange ∧
    ∃ e e', (empty.run founded).books.entries.find? 1 = some e ∧
      ((empty.run founded).run resumed).books.entries.find? 1 = some e ∧
      ((empty.run founded).run resumed).books.entries.find? 2 = some e' ∧
      (((empty.run founded).run resumed).books.accounts.find? e'.accountId).isSome := by
  have hreach : (empty.run founded).Reachable := ⟨founded, rfl⟩
  have hr : ((empty.run founded).run resumed).drawn.InRange := by decide
  obtain ⟨hgrows, hreferential⟩ := audit_trail hreach resumed hr
  have hfirst : ((empty.run founded).books.entries.find? 1).isSome := by decide
  have hsecond : (((empty.run founded).run resumed).books.entries.find? 2).isSome := by decide
  obtain ⟨e, he⟩ := Option.isSome_iff_exists.mp hfirst
  obtain ⟨e', he'⟩ := Option.isSome_iff_exists.mp hsecond
  exact ⟨hreach, hr, e, e', he, hgrows.entries 1 e he, he', hreferential.entries 2 e' he'⟩

end Ledger
end FundsLedger
