import FundsLedger.Proofs.Ledger.Lawful
import FundsLedger.Proofs.Movements

/-!
Reconciled ledgers: every balance is the sum of the entries on the account, and along these entries
the balance has always been what a balance can be. The order of the entries is that of their
identifiers, and those are drawn under the lock on the row; so what a unit of work has staged on a
row comes after all that is committed there, and the invariant says so.
-/

namespace FundsLedger

namespace Ledger

variable {l l' : Ledger} {u u' : UnitId} {id : Int} {w : UnitOfWork} {e e' : Entry} {m : Move}

/-- The invariant of a ledger on which everybody keeps the rules of accounting. -/
structure Reconciled (l : Ledger) : Prop where
  balanced : ∀ id, l.books.balanceOf id = (l.books.movements id).sum
  bounded : ∀ id, InBand 0 (l.books.movements id)
  staged : ∀ u id, InBand (l.books.balanceOf id) ((l.unit u).movements id)
  secured : ∀ u e, e ∈ (l.unit u).entries → l.Holds u e.accountId
  later : ∀ u e id e', e ∈ (l.unit u).entries → e' ∈ l.books.entriesOf id → e.accountId = id →
    e'.id < e.id

/-- The move keeps the rules: an entry is appended only under the lock on its row and only if the
balance stays in its band, and a commit changes every balance by its entries. Nobody gives up a
call. -/
def Guarded (l : Ledger) : Move → Prop
  | .performed u (.appendEntry id amount) =>
    l.Holds u id ∧
      0 ≤ l.books.balanceOf id + ((l.unit u).movements id).sum + amount.units ∧
      l.books.balanceOf id + ((l.unit u).movements id).sum + amount.units ≤ 9223372036854775807
  | .published u =>
    ∀ id, ((l.unit u).publish l.books).balanceOf id =
      l.books.balanceOf id + ((l.unit u).movements id).sum
  | .withdrawn _ => False
  | _ => True

theorem Sound.keyed (h : l.Sound) : l.books.Keyed := fun key e he => (h.entries.keyed key e he).1

/-- What a unit of work publishes on an account follows what has been committed there. -/
theorem Sound.entriesOf_publish (h : l.Sound) (hw : l.units.find? u = some w) (id : AccountId)
    (hlater : ∀ e e', e ∈ w.entriesOn id → e' ∈ l.books.entriesOf id → e'.id < e.id) :
    (w.publish l.books).entriesOf id = l.books.entriesOf id ++ w.entriesOn id := by
  have hw' := unit_of_find? hw
  have hlisted := h.entries.filter_publish (u := u) (·.accountId = id)
  rw [hw'] at hlisted
  refine hlisted fun e he e' he' hon hon' => hlater e e' ?_ ?_
  · exact List.mem_filter.mpr ⟨he, hon⟩
  · exact List.mem_filter.mpr ⟨he', hon'⟩

/-- A call leaves the staged entries as they are, or it is one that appends an entry. -/
theorem Staging.appends {c : Call} {d : Drawn} {w' : UnitOfWork} (h : l.Staging w c d w') :
    w'.entries = w.entries ∨
      ∃ e : Entry, c = .appendEntry e.accountId e.amount ∧ w'.entries = w.entries ++ [e] ∧
        e.id = idAfter l.drawn.entries ∧ d.entries = l.drawn.entries + 1 := by
  cases h with
  | nothing | spent | account | balance | transfer => exact Or.inl rfl
  | entry e hid hvisible => exact Or.inr ⟨e, rfl, rfl, hid, rfl⟩

namespace Reconciled

theorem empty : Ledger.empty.Reconciled := by
  have hmovements : ∀ id, Ledger.empty.books.movements id = [] := fun _ => rfl
  have hbalance : ∀ id, Ledger.empty.books.balanceOf id = 0 := fun _ => rfl
  have hunit : ∀ u, Ledger.empty.unit u = UnitOfWork.fresh := fun _ => rfl
  constructor
  case balanced =>
    intro id
    rw [hbalance, hmovements]
    rfl
  case bounded =>
    intro id
    rw [hmovements]
    exact .nil (by decide) (by decide)
  case staged =>
    intro u id
    rw [hbalance, hunit]
    exact .nil (by decide) (by decide)
  case secured =>
    intro u e he
    rw [hunit] at he
    cases he
  case later =>
    intro u e id e' he
    rw [hunit] at he
    cases he

/-- A committed balance is what a balance can be. -/
theorem range (h : l.Reconciled) (id : AccountId) :
    0 ≤ l.books.balanceOf id ∧ l.books.balanceOf id ≤ 9223372036854775807 := by
  rw [h.balanced id]
  simpa using (h.bounded id).total

/-- A move that leaves the books alone and of every unit of work all entries or none. -/
theorem shrink (h : l.Reconciled) (hbooks : l'.books = l.books)
    (hunits : ∀ u, (l'.unit u).entries = [] ∨
      ((l'.unit u).entries = (l.unit u).entries ∧ ∀ row, l.Holds u row → l'.Holds u row)) :
    l'.Reconciled := by
  have hmem : ∀ u e, e ∈ (l'.unit u).entries →
      e ∈ (l.unit u).entries ∧ ∀ row, l.Holds u row → l'.Holds u row := by
    intro u e he
    rcases hunits u with hnil | ⟨hsame, hholds⟩
    · rw [hnil] at he
      cases he
    · rw [hsame] at he
      exact ⟨he, hholds⟩
  constructor
  case balanced =>
    rw [hbooks]
    exact h.balanced
  case bounded =>
    rw [hbooks]
    exact h.bounded
  case staged =>
    intro u id
    rw [hbooks]
    rcases hunits u with hnil | ⟨hsame, -⟩
    · have hmovements : (l'.unit u).movements id = [] := by
        simp [UnitOfWork.movements, UnitOfWork.entriesOn, hnil]
      rw [hmovements]
      exact .nil (h.range id).1 (h.range id).2
    · have hmovements : (l'.unit u).movements id = (l.unit u).movements id := by
        simp [UnitOfWork.movements, UnitOfWork.entriesOn, hsame]
      rw [hmovements]
      exact h.staged u id
  case secured =>
    intro u e he
    obtain ⟨he, hholds⟩ := hmem u e he
    exact hholds _ (h.secured u e he)
  case later =>
    intro u e id e' he he' hid
    rw [hbooks] at he'
    exact h.later u e id e' (hmem u e he).1 he' hid

/-- A unit of work appends an entry to a row that it holds, and the balance stays in its band. -/
theorem append (h : l.Reconciled) (hs : l.Sound) (hbooks : l'.books = l.books)
    (hholds : ∀ u row, l.Holds u row → l'.Holds u row)
    (hself : (l'.unit u).entries = (l.unit u).entries ++ [e])
    (hother : ∀ u', u' ≠ u → (l'.unit u').entries = (l.unit u').entries)
    (hid : l.drawn.entries < e.id)
    (hg : l.Guarded (.performed u (.appendEntry e.accountId e.amount))) : l'.Reconciled := by
  obtain ⟨hlocked, hlow, hhigh⟩ := hg
  have hmem : ∀ u' e', e' ∈ (l'.unit u').entries →
      e' ∈ (l.unit u').entries ∨ (u' = u ∧ e' = e) := by
    intro u' e' he'
    by_cases hne : u' = u
    · rw [hne, hself] at he'
      rcases List.mem_append.mp he' with he' | he'
      · rw [hne]
        exact Or.inl he'
      · exact Or.inr ⟨hne, List.mem_singleton.mp he'⟩
    · rw [hother u' hne] at he'
      exact Or.inl he'
  constructor
  case balanced =>
    rw [hbooks]
    exact h.balanced
  case bounded =>
    rw [hbooks]
    exact h.bounded
  case staged =>
    intro u' id
    rw [hbooks]
    by_cases hne : u' = u
    · subst hne
      by_cases haccount : e.accountId = id
      · have hmovements :
            (l'.unit u').movements id = (l.unit u').movements id ++ [e.amount.units] := by
          simp [UnitOfWork.movements, UnitOfWork.entriesOn, hself, haccount]
        rw [hmovements]
        rw [haccount] at hlow hhigh
        exact (h.staged u' id).concat hlow hhigh
      · have hmovements : (l'.unit u').movements id = (l.unit u').movements id := by
          simp [UnitOfWork.movements, UnitOfWork.entriesOn, hself, haccount]
        rw [hmovements]
        exact h.staged u' id
    · have hmovements : (l'.unit u').movements id = (l.unit u').movements id := by
        simp [UnitOfWork.movements, UnitOfWork.entriesOn, hother u' hne]
      rw [hmovements]
      exact h.staged u' id
  case secured =>
    intro u' e' he'
    rcases hmem u' e' he' with he' | ⟨rfl, rfl⟩
    · exact hholds _ _ (h.secured u' e' he')
    · exact hholds _ _ hlocked
  case later =>
    intro u' e₁ id e₂ he₁ he₂ haccount
    rw [hbooks] at he₂
    rcases hmem u' e₁ he₁ with he₁ | ⟨-, rfl⟩
    · exact h.later u' e₁ id e₂ he₁ he₂ haccount
    · -- The new identifier is larger than all that have been drawn.
      have hdrawn := (hs.entries.keyed e₂.id e₂ ((Books.mem_entriesOf hs.keyed).mp he₂).1).2.2
      exact Int.lt_of_le_of_lt hdrawn hid

/-- Two units of work have not both staged entries on one account. -/
theorem apart (h : l.Reconciled) (hne : u' ≠ u) (he : e ∈ (l.unit u).entriesOn id)
    (he' : e' ∈ (l.unit u').entriesOn id) : False := by
  rw [UnitOfWork.mem_entriesOn] at he he'
  have hholds := h.secured u e he.1
  have hholds' := h.secured u' e' he'.1
  rw [he.2] at hholds
  rw [he'.2] at hholds'
  exact hne (hholds'.unique hholds)

/-- A unit of work commits entries that make up the changes of the balances. -/
theorem publish (h : l.Reconciled) (hs : l.Sound) (hw : l.units.find? u = some w)
    (hsettled : ∀ id, (w.publish l.books).balanceOf id =
      l.books.balanceOf id + (w.movements id).sum)
    (hbooks : l'.books = w.publish l.books) (hunits : l'.units = l.units.erase u)
    (hholds : ∀ u', u' ≠ u → ∀ row, l.Holds u' row → l'.Holds u' row) : l'.Reconciled := by
  have hw' := unit_of_find? hw
  have hentries : ∀ id, l'.books.entriesOf id = l.books.entriesOf id ++ w.entriesOn id := by
    intro id
    rw [hbooks]
    refine hs.entriesOf_publish hw id fun e e' he he' => ?_
    rw [UnitOfWork.mem_entriesOn] at he
    exact h.later u e id e' (by rw [hw']; exact he.1) he' he.2
  have hmovements : ∀ id, l'.books.movements id = l.books.movements id ++ w.movements id := by
    intro id
    rw [Books.movements, hentries, List.map_append]
    rfl
  have hbounded : ∀ id, InBand 0 (l'.books.movements id) := by
    intro id
    rw [hmovements]
    refine (h.bounded id).append ?_
    have hstaged := h.staged u id
    rwa [hw', h.balanced id, ← Int.zero_add (l.books.movements id).sum] at hstaged
  have hbalanced : ∀ id, l'.books.balanceOf id = (l'.books.movements id).sum := by
    intro id
    rw [hmovements, List.sum_append, hbooks, hsettled, h.balanced]
  have hmem : ∀ u' e, e ∈ (l'.unit u').entries → u' ≠ u ∧ e ∈ (l.unit u').entries := by
    intro u' e he
    rw [unit_erase hunits] at he
    split at he
    · cases he
    · rename_i hne
      exact ⟨hne, he⟩
  have hnothing : ∀ id, InBand (l'.books.balanceOf id) [] := by
    intro id
    have htotal := (hbounded id).total
    rw [Int.zero_add, ← hbalanced] at htotal
    exact .nil htotal.1 htotal.2
  constructor
  case balanced =>
    exact hbalanced
  case bounded =>
    exact hbounded
  case staged =>
    intro u' id
    rw [unit_erase hunits]
    split
    · exact hnothing id
    · rename_i hne
      cases hon : (l.unit u').entriesOn id with
      | nil =>
        rw [UnitOfWork.movements, hon]
        exact hnothing id
      | cons e rest =>
        -- Whoever has staged entries here holds the row, so nothing has been committed on it.
        have hnone : w.entriesOn id = [] := by
          cases hon' : w.entriesOn id with
          | nil => rfl
          | cons e' rest' =>
            have he' : e' ∈ (l.unit u).entriesOn id := by
              rw [hw', hon']
              exact List.mem_cons_self
            exact (h.apart hne he' (by rw [hon]; exact List.mem_cons_self)).elim
        have hsame : l'.books.balanceOf id = l.books.balanceOf id := by
          rw [hbooks, hsettled, UnitOfWork.movements, hnone]
          simp
        rw [hsame]
        exact h.staged u' id
  case secured =>
    intro u' e he
    obtain ⟨hne, he⟩ := hmem u' e he
    exact hholds u' hne _ (h.secured u' e he)
  case later =>
    intro u' e id e' he he' hid
    obtain ⟨hne, he⟩ := hmem u' e he
    rw [hentries] at he'
    rcases List.mem_append.mp he' with he' | he'
    · exact h.later u' e id e' he he' hid
    · rw [← hw'] at he'
      exact (h.apart hne he' (UnitOfWork.mem_entriesOn.mpr ⟨he, hid⟩)).elim

/-- A call that ends leaves the ledger reconciled: of all calls only one stages entries. -/
theorem finish {c : Call} {asked : Ledger} (h : l.Reconciled) (hs : l.Sound)
    (isOpen : l.units.find? u = some w) (granted : l.Grants u w c asked)
    (hg : l.Guarded (.performed u c)) (hr : (asked.finish u w c).1.drawn.InRange) :
    (asked.finish u w c).1.Reconciled := by
  obtain ⟨more, hmore⟩ := granted.requests
  have hw := unit_of_find? isOpen
  rw [granted.drawn_finish] at hr
  have hself : (unit (asked.finish u w c).1 u).entries = (l.perform w c).unit.entries := by
    rw [granted.unit_finish, if_pos rfl]
  have hother : ∀ u', u' ≠ u →
      (unit (asked.finish u w c).1 u').entries = (l.unit u').entries := by
    intro u' hne
    rw [granted.unit_finish, if_neg hne]
  rcases (perform_staging l w c).appends with hsame | ⟨e, rfl, happended, hid, hcount⟩
  · refine h.shrink granted.books fun u' => Or.inr ⟨?_, fun row hholds => hholds.append hmore⟩
    by_cases hne : u' = u
    · rw [hne, hself, hsame, hw]
    · exact hother u' hne
  · have hbound := hr.entries
    rw [hcount] at hbound
    rw [idAfter_eq hbound] at hid
    refine h.append hs granted.books (fun u' row hholds => hholds.append hmore) ?_ hother ?_ hg
    · rw [hself, happended, hw]
    · rw [hid]
      exact Int.lt_succ _

/-- Every move that keeps the rules of accounting keeps a ledger reconciled. -/
theorem makes (h : l.Reconciled) (hs : l.Sound) (hm : l.Makes m l') (hg : l.Guarded m)
    (hr : l'.drawn.InRange) : l'.Reconciled := by
  have hkept : ∀ u, m ≠ .withdrawn u := by
    rintro u rfl
    exact hg
  cases hm.effect with
  | performed isOpen granted => exact h.finish hs isOpen granted hg hr
  | @published u w isOpen unique =>
    refine h.publish hs isOpen ?_ rfl rfl fun u' hne row hholds => hholds.close hne
    intro id
    have := hg id
    rwa [unit_of_find? isOpen] at this
  | quiet books drawn units =>
    refine h.shrink books fun u => ?_
    rcases units u with hretains | hblanks
    · exact Or.inr ⟨hretains.entries, hretains.holds hkept⟩
    · rw [hblanks.unit]
      exact Or.inl rfl

end Reconciled
end Ledger
end FundsLedger
