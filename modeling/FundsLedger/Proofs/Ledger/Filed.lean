import FundsLedger.Proofs.Ledger.Numbered
import FundsLedger.Proofs.Ledger.Rereading
import FundsLedger.Proofs.Ledger.Runs

/-!
Rows under their own identifiers. Whatever the counters do, every committed row stands under its own
identifier, so the listings of the books are in ascending order without repetition.
-/

namespace FundsLedger

namespace Table.Keyed

variable {α : Type} {t s : Table α} {id : α → Int}

theorem empty : (Table.empty : Table α).Keyed id := by
  intro key r hr
  simp at hr

theorem insert {key : Int} {row : α} (h : t.Keyed id) (hrow : id row = key) :
    (t.insert key row).Keyed id := by
  intro key' r hr
  rw [find?_insert] at hr
  split at hr
  · rename_i heq
    cases hr
    rw [hrow, heq]
  · exact h key' r hr

theorem overlay (h : t.Keyed id) (hs : s.Keyed id) : (t.overlay s).Keyed id := by
  intro key r hr
  rw [find?_overlay] at hr
  rcases Option.or_eq_some_iff.mp hr with hr | ⟨-, hr⟩
  · exact hs key r hr
  · exact h key r hr

theorem foldl_insertById (h : t.Keyed id) (rows : List α) :
    (rows.foldl (fun t r => t.insert (id r) r) t).Keyed id := by
  induction rows generalizing t with
  | nil => exact h
  | cons r rest ih => exact ih (h.insert rfl)

end Table.Keyed

/-- Every committed row stands under its own identifier. -/
structure Books.Filed (b : Books) : Prop where
  accounts : b.accounts.Keyed Account.id
  entries : b.entries.Keyed Entry.id
  transfers : b.transfers.Keyed Transfer.id

namespace Ledger

/-- Every committed row and every staged account stands under its own identifier. -/
structure Filed (l : Ledger) : Prop where
  books : l.books.Filed
  staged : ∀ u, (l.unit u).accounts.Keyed Account.id

namespace Filed

variable {l l' : Ledger} {u : UnitId} {w w' : UnitOfWork} {c : Call} {d : Drawn}

theorem empty : Ledger.empty.Filed where
  books := ⟨.empty, .empty, .empty⟩
  staged _ := .empty

/-- An account that is created stands under its new identifier, and one that is changed keeps its
own. -/
theorem staging (h : l.books.Filed) (hw : w.accounts.Keyed Account.id)
    (hs : l.Staging w c d w') : w'.accounts.Keyed Account.id := by
  cases hs with
  | nothing | spent | entry | transfer => exact hw
  | account a id unique => exact hw.insert rfl
  | balance id delta a sum visible adds =>
    apply hw.insert
    rcases Option.or_eq_some_iff.mp visible with hstaged | ⟨-, hcommitted⟩
    · exact hw id a hstaged
    · exact h.accounts id a hcommitted

theorem publish (h : l.Filed) (isOpen : l.units.find? u = some w) :
    (w.publish l.books).Filed := by
  have hw := h.staged u
  rw [unit_of_find? isOpen] at hw
  constructor
  case accounts => exact h.books.accounts.overlay hw
  case entries => exact h.books.entries.foldl_insertById w.entries
  case transfers => exact h.books.transfers.foldl_insertById w.transfers

theorem makes {m : Move} (h : l.Filed) (hm : l.Makes m l') : l'.Filed := by
  cases hm.effect with
  | @performed u c w asked isOpen granted =>
    refine ⟨granted.books ▸ h.books, fun u' => ?_⟩
    rw [granted.unit_finish]
    split
    · have hw := h.staged u
      rw [unit_of_find? isOpen] at hw
      show (l.perform w c).unit.accounts.Keyed Account.id
      exact staging h.books hw (l.perform_staging w c)
    · exact h.staged u'
  | @published u w isOpen unique =>
    refine ⟨h.publish isOpen, fun u' => ?_⟩
    rw [unit_erase (l := l) rfl]
    split
    · exact .empty
    · exact h.staged u'
  | quiet books drawn units =>
    refine ⟨books ▸ h.books, fun u => ?_⟩
    rcases units u with hretains | hblanks
    · rw [hretains.accounts]
      exact h.staged u
    · rw [hblanks.unit]
      exact .empty

theorem run (h : l.Filed) (actions : List Action) : (l.run actions).Filed :=
  run_induction (fun _ _ _ hm h => h.makes hm) h actions

end Filed
end Ledger
end FundsLedger
