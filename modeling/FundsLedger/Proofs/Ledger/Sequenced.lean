import FundsLedger.Proofs.Ledger.Lawful

/-!
Ledgers in sequence. Identifiers are drawn before a commit, so in general a row with a lower one can
be committed after a row with a higher one. On one account that cannot happen if everybody draws the
identifier while holding the row of the account: whatever is staged on an account comes after all
that is committed there. The history of an account then grows at its end only.
-/

namespace FundsLedger

/-- The entry is on the account. -/
def Entry.Touches (e : Entry) (row : AccountId) : Prop := e.accountId = row

/-- The transfer is out of the account or into it. -/
def Transfer.Touches (t : Transfer) (row : AccountId) : Prop := t.fromId = row ∨ t.toId = row

instance (e : Entry) (row : AccountId) : Decidable (e.Touches row) :=
  inferInstanceAs (Decidable (_ = _))

instance (t : Transfer) (row : AccountId) : Decidable (t.Touches row) :=
  inferInstanceAs (Decidable (_ ∨ _))

/-- The call appends a row to the history of the account. -/
def Call.AppendsTo : Call → AccountId → Prop
  | appendEntry id _, row => id = row
  | appendTransfer fromId toId _, row => fromId = row ∨ toId = row
  | _, _ => False

/-- The history of every account stands in ascending order. -/
structure Books.Chronological (b : Books) : Prop where
  entries : ∀ a, (b.entriesOf a).Pairwise (·.id < ·.id)
  transfers : ∀ a, (b.transfersBetween a a).Pairwise (·.id < ·.id)

/-- The history of every account in the first books is the beginning of that in the second ones. -/
structure Books.Continues (b b' : Books) : Prop where
  entries : ∀ a, b.entriesOf a <+: b'.entriesOf a
  transfers : ∀ a, b.transfersBetween a a <+: b'.transfersBetween a a

theorem Books.Continues.refl (b : Books) : b.Continues b :=
  ⟨fun _ => List.prefix_rfl, fun _ => List.prefix_rfl⟩

theorem Books.Continues.trans {b b' b'' : Books} (h : b.Continues b') (h' : b'.Continues b'') :
    b.Continues b'' :=
  ⟨fun a => (h.entries a).trans (h'.entries a), fun a => (h.transfers a).trans (h'.transfers a)⟩

namespace Ledger

variable {α : Type} {id : α → Int} {touches : α → Int → Prop} {drawn : Nat} {committed : Table α}
variable {staged staged' : UnitId → List α} {l l' : Ledger} {u u' : UnitId} {w : UnitOfWork}
variable {m : Move} {r : α}

/-! ## One kind of rows -/

/-- Rows of one kind are in sequence on every account: those that a unit of work has staged are on
accounts whose rows it holds, and come after all that is committed there. -/
structure InSequence (l : Ledger) (id : α → Int) (touches : α → Int → Prop) (committed : Table α)
    (staged : UnitId → List α) : Prop where
  secured : ∀ u r row, r ∈ staged u → touches r row → l.Holds u row
  later : ∀ u r key r' row, r ∈ staged u → committed.find? key = some r' → touches r row →
    touches r' row → id r' < id r

namespace InSequence

/-- A unit of work loses all that it has staged, or it keeps the rows that it holds. -/
theorem shrink (h : l.InSequence id touches committed staged)
    (hsub : ∀ u, staged' u = [] ∨
      (staged' u = staged u ∧ ∀ row, l.Holds u row → l'.Holds u row)) :
    l'.InSequence id touches committed staged' := by
  have hmem : ∀ u r, r ∈ staged' u → r ∈ staged u ∧ ∀ row, l.Holds u row → l'.Holds u row := by
    intro u r hr
    rcases hsub u with hnil | ⟨hsame, hholds⟩
    · rw [hnil] at hr
      cases hr
    · rw [hsame] at hr
      exact ⟨hr, hholds⟩
  refine ⟨fun u r row hr ht => ?_, fun u r key r' row hr hr' ht ht' => ?_⟩
  · obtain ⟨hr, hholds⟩ := hmem u r hr
    exact hholds row (h.secured u r row hr ht)
  · exact h.later u r key r' row (hmem u r hr).1 hr' ht ht'

/-- A new row is on accounts whose rows are held, and it has a new identifier. -/
theorem append (h : l.InSequence id touches committed staged)
    (hn : Numbered id drawn committed staged) (hid : drawn < id r)
    (hlocked : ∀ row, touches r row → l.Holds u row)
    (hself : staged' u = staged u ++ [r]) (hother : ∀ u', u' ≠ u → staged' u' = staged u')
    (hholds : ∀ u row, l.Holds u row → l'.Holds u row) :
    l'.InSequence id touches committed staged' := by
  have hmem : ∀ u' q, q ∈ staged' u' → q ∈ staged u' ∨ (u' = u ∧ q = r) := by
    intro u' q hq
    by_cases hne : u' = u
    · subst hne
      rw [hself, List.mem_append, List.mem_singleton] at hq
      exact hq.imp_right fun heq => ⟨rfl, heq⟩
    · rw [hother u' hne] at hq
      exact Or.inl hq
  refine ⟨fun u' q row hq ht => ?_, fun u' q key q' row hq hq' ht ht' => ?_⟩
  · rcases hmem u' q hq with hq | ⟨rfl, rfl⟩
    · exact hholds u' row (h.secured u' q row hq ht)
    · exact hholds u' row (hlocked row ht)
  · rcases hmem u' q hq with hq | ⟨-, rfl⟩
    · exact h.later u' q key q' row hq hq' ht ht'
    · obtain ⟨hkey, -, hle⟩ := hn.keyed key q' hq'
      rw [hkey]
      exact Int.lt_of_le_of_lt hle hid

/-- Rows on one account are staged by one unit of work only, so what others publish does not come
after them. -/
theorem publish (h : l.InSequence id touches committed staged) (hself : staged' u = [])
    (hother : ∀ u', u' ≠ u → staged' u' = staged u')
    (hholds : ∀ u', u' ≠ u → ∀ row, l.Holds u' row → l'.Holds u' row) :
    l'.InSequence id touches ((staged u).foldl (fun t r => t.insert (id r) r) committed) staged' := by
  have hmem : ∀ u' r, r ∈ staged' u' → u' ≠ u ∧ r ∈ staged u' := by
    intro u' r hr
    by_cases hne : u' = u
    · rw [hne, hself] at hr
      cases hr
    · rw [hother u' hne] at hr
      exact ⟨hne, hr⟩
  refine ⟨fun u' r row hr ht => ?_, fun u' r key r' row hr hr' ht ht' => ?_⟩
  · obtain ⟨hne, hr⟩ := hmem u' r hr
    exact hholds u' hne row (h.secured u' r row hr ht)
  · obtain ⟨hne, hr⟩ := hmem u' r hr
    rcases Table.mem_of_find?_foldl_insertById id hr' with hstaged | hcommitted
    · exact absurd ((h.secured u' r row hr ht).unique (h.secured u r' row hstaged ht')) hne
    · exact h.later u' r key r' row hr hcommitted ht ht'

/-- What is published on an account follows what is committed there. -/
theorem continues (h : l.InSequence id touches committed staged)
    (hn : Numbered id drawn committed staged) (row : Int) [DecidablePred (touches · row)] :
    committed.values.filter (touches · row) <+:
      ((staged u).foldl (fun t r => t.insert (id r) r) committed).values.filter (touches · row) := by
  refine ⟨(staged u).filter (touches · row), (hn.filter_publish _ fun r hr r' hr' ht ht' => ?_).symm⟩
  rw [decide_eq_true_eq] at ht ht'
  obtain ⟨key, hkey⟩ := Table.mem_values_iff.mp hr'
  exact h.later u r key r' row hr hkey ht ht'

end InSequence

/-! ## Entries and transfers -/

/-- Both kinds of rows are in sequence. -/
structure Sequenced (l : Ledger) : Prop where
  entries : l.InSequence Entry.id Entry.Touches l.books.entries fun u => (l.unit u).entries
  transfers : l.InSequence Transfer.id Transfer.Touches l.books.transfers fun u =>
    (l.unit u).transfers

/-- The move appends rows only to accounts whose rows the unit of work holds. Nobody gives up a
call. -/
def InOrder (l : Ledger) : Move → Prop
  | .performed u c => ∀ row, c.AppendsTo row → l.Holds u row
  | .withdrawn _ => False
  | _ => True

theorem Sound.chronological (h : l.Sound) : l.books.Chronological :=
  ⟨fun _ => h.entries.table_keyed.values_ascending.filter _,
    fun _ => h.transfers.table_keyed.values_ascending.filter _⟩

namespace Sequenced

theorem empty : Ledger.empty.Sequenced where
  entries := ⟨fun u r row hr => by simp [unit, Ledger.empty, UnitOfWork.fresh] at hr,
    fun u r key r' row hr => by simp [unit, Ledger.empty, UnitOfWork.fresh] at hr⟩
  transfers := ⟨fun u r row hr => by simp [unit, Ledger.empty, UnitOfWork.fresh] at hr,
    fun u r key r' row hr => by simp [unit, Ledger.empty, UnitOfWork.fresh] at hr⟩

theorem quiet (h : l.Sequenced) (hbooks : l'.books = l.books)
    (hunits : ∀ u, l.Retains m l' u ∨ l.Blanks l' u) (hm : ∀ u, m ≠ .withdrawn u) :
    l'.Sequenced := by
  constructor
  · rw [hbooks]
    refine h.entries.shrink fun u => ?_
    rcases hunits u with hretains | hblanks
    · exact Or.inr ⟨hretains.entries, hretains.holds hm⟩
    · exact Or.inl (by rw [hblanks.unit]; rfl)
  · rw [hbooks]
    refine h.transfers.shrink fun u => ?_
    rcases hunits u with hretains | hblanks
    · exact Or.inr ⟨hretains.transfers, hretains.holds hm⟩
    · exact Or.inl (by rw [hblanks.unit]; rfl)

/-- A call appends one row at most, and to accounts whose rows are held. -/
theorem finish {c : Call} {asked : Ledger} (h : l.Sequenced) (hs : l.Sound)
    (isOpen : l.units.find? u = some w) (granted : l.Grants u w c asked)
    (hm : l.InOrder (.performed u c)) (hr : (asked.finish u w c).1.drawn.InRange) :
    (asked.finish u w c).1.Sequenced := by
  obtain ⟨more, hmore⟩ := granted.requests
  have hw := unit_of_find? isOpen
  have hholds : ∀ u' row, l.Holds u' row → (asked.finish u w c).1.Holds u' row :=
    fun u' row hholds => hholds.append hmore
  have hself : ((asked.finish u w c).1.unit u).entries = (l.perform w c).unit.entries ∧
      ((asked.finish u w c).1.unit u).transfers = (l.perform w c).unit.transfers := by
    rw [granted.unit_finish, if_pos rfl]
    exact ⟨rfl, rfl⟩
  have hother : ∀ u', u' ≠ u → (asked.finish u w c).1.unit u' = l.unit u' := fun u' hne => by
    rw [granted.unit_finish, if_neg hne]
  have hbooks : (asked.finish u w c).1.books = l.books := granted.books
  rw [granted.drawn_finish] at hr
  have hstaging := perform_staging l w c
  generalize (asked.finish u w c).1 = l', (l.perform w c).drawn = d, (l.perform w c).unit = w' at *
  have hentries (hsame : w'.entries = w.entries) :
      l'.InSequence Entry.id Entry.Touches l'.books.entries fun u => (l'.unit u).entries := by
    rw [hbooks]
    refine h.entries.shrink fun u' => Or.inr ⟨?_, hholds u'⟩
    by_cases hne : u' = u
    · rw [hne, hself.1, hsame, hw]
    · rw [hother u' hne]
  have htransfers (hsame : w'.transfers = w.transfers) :
      l'.InSequence Transfer.id Transfer.Touches l'.books.transfers fun u =>
        (l'.unit u).transfers := by
    rw [hbooks]
    refine h.transfers.shrink fun u' => Or.inr ⟨?_, hholds u'⟩
    by_cases hne : u' = u
    · rw [hne, hself.2, hsame, hw]
    · rw [hother u' hne]
  cases hstaging with
  | nothing | spent | account | balance => exact ⟨hentries rfl, htransfers rfl⟩
  | entry e hid hvisible =>
    refine ⟨?_, htransfers rfl⟩
    rw [hbooks]
    refine h.entries.append hs.entries ?_ ?_ (by rw [hself.1, hw])
      (fun u' hne => by rw [hother u' hne]) hholds
    · rw [hid, idAfter_eq hr.entries]
      exact Int.lt_succ _
    · exact hm
  | transfer t hid hsource hdestination =>
    refine ⟨hentries rfl, ?_⟩
    rw [hbooks]
    refine h.transfers.append hs.transfers ?_ ?_ (by rw [hself.2, hw])
      (fun u' hne => by rw [hother u' hne]) hholds
    · rw [hid, idAfter_eq hr.transfers]
      exact Int.lt_succ _
    · exact hm

/-- A commit publishes what comes after all that is committed on its accounts. -/
theorem publish (h : l.Sequenced) (isOpen : l.units.find? u = some w)
    (hbooks : l'.books = w.publish l.books) (hunits : l'.units = l.units.erase u)
    (hholds : ∀ u', u' ≠ u → ∀ row, l.Holds u' row → l'.Holds u' row) : l'.Sequenced := by
  have hw := unit_of_find? isOpen
  have hself : l'.unit u = UnitOfWork.fresh := by rw [unit_erase hunits, if_pos rfl]
  have hother : ∀ u', u' ≠ u → l'.unit u' = l.unit u' := fun u' hne => by
    rw [unit_erase hunits, if_neg hne]
  rw [← hw] at hbooks
  constructor
  · rw [hbooks]
    exact h.entries.publish (by rw [hself]; rfl) (fun u' hne => by rw [hother u' hne]) hholds
  · rw [hbooks]
    exact h.transfers.publish (by rw [hself]; rfl) (fun u' hne => by rw [hother u' hne]) hholds

/-- Every move that appends in order keeps a ledger in sequence. -/
theorem makes (h : l.Sequenced) (hs : l.Sound) (hm : l.Makes m l') (ho : l.InOrder m)
    (hr : l'.drawn.InRange) : l'.Sequenced := by
  cases hm.effect with
  | performed isOpen granted => exact h.finish hs isOpen granted ho hr
  | quiet books drawn units =>
    refine h.quiet books units ?_
    rintro u rfl
    exact ho
  | published isOpen unique =>
    exact h.publish isOpen rfl rfl fun u' hne row hholds => hholds.close hne

/-- The histories of all accounts grow at their ends. -/
theorem continues (h : l.Sequenced) (hs : l.Sound) (hm : l.Makes m l') :
    l.books.Continues l'.books := by
  have stay : l'.books = l.books → l.books.Continues l'.books := fun heq => by
    rw [heq]
    exact .refl l.books
  cases hm.effect with
  | performed isOpen granted => exact stay granted.books
  | quiet books drawn units => exact stay books
  | @published u w isOpen unique =>
    have hw := unit_of_find? isOpen
    constructor
    · intro a
      have hentries := h.entries.continues hs.entries (u := u) a
      rw [hw] at hentries
      exact hentries
    · intro a
      have htransfers := h.transfers.continues hs.transfers (u := u) a
      rw [hw] at htransfers
      exact htransfers

end Sequenced
end Ledger
end FundsLedger
