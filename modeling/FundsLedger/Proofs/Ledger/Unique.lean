import FundsLedger.Proofs.Ledger.Journal
import FundsLedger.Proofs.Ledger.Trail

/-!
An owner has one account in a currency. The check is made twice, against different views: when an
account is created, against what is committed and what its unit of work has staged, and once more at
the commit, against what is committed by then. An account in between keeps a place that somebody
else may take; the invariants say who has staged an account for which place, and that whoever takes
it first has committed after that.
-/

namespace FundsLedger

/-- The place of an account: no two accounts may have the same one. -/
def Account.place (a : Account) : String × Currency := (a.owner, a.currency)

theorem Account.Same.place {a a' : Account} (h : a.Same a') : a.place = a'.place :=
  Prod.ext h.owner h.currency

/-- Committed accounts differ in their places. -/
def Books.OneEach (b : Books) : Prop :=
  ∀ id a id' a', b.accounts.find? id = some a → b.accounts.find? id' = some a' →
    a.place = a'.place → id = id'

/-- An account is committed in the place. -/
def Books.Taken (b : Books) (place : String × Currency) : Prop :=
  ∃ id a, b.accounts.find? id = some a ∧ a.place = place

/-- The places for which calls have opened accounts. -/
def placesOf (calls : List Answered) : List (String × Currency) := calls.filterMap (·.place?)

/-- The unit of work has opened an account for the place, and another one that has opened one for it
too has committed since. -/
def Overtaken (j : List Occurrence) (u : UnitId) (place : String × Currency) : Prop :=
  ∃ before answer since, j = before ++ .answered u answer :: since ∧ answer.place? = some place ∧
    ∃ u' ∈ committers since, u' ≠ u ∧ place ∈ placesOf (answersOf u' j)

/-- The unit of work has opened an account for the place, and nobody who has committed before that
had one for it. -/
def Claimed (j : List Occurrence) (u : UnitId) (place : String × Currency) : Prop :=
  ∃ before answer since, j = before ++ .answered u answer :: since ∧ answer.place? = some place ∧
    ∀ u' ∈ committers before, place ∉ placesOf (answersOf u' j)

namespace UnitOfWork

variable {w : UnitOfWork} {b : Books} {id : Int} {a : Account}

/-- An account that is not committed yet is staged in the place. -/
def Stakes (w : UnitOfWork) (b : Books) (place : String × Currency) : Prop :=
  ∃ id a, w.accounts.find? id = some a ∧ b.accounts.find? id = none ∧ a.place = place

theorem isDuplicate_iff : w.isDuplicate b a = true ↔
    ∃ id a', (b.accounts.find? id = some a' ∨ w.accounts.find? id = some a') ∧ a'.id ≠ a.id ∧
      a'.place = a.place := by
  simp only [isDuplicate, List.any_eq_true, List.mem_append, Table.mem_values_iff,
    decide_eq_true_eq, Account.place, Prod.mk.injEq]
  constructor
  · rintro ⟨a', ⟨id, ha'⟩ | ⟨id, ha'⟩, hne⟩
    · exact ⟨id, a', Or.inl ha', hne⟩
    · exact ⟨id, a', Or.inr ha', hne⟩
  · rintro ⟨id, a', ha' | ha', hne⟩
    · exact ⟨a', Or.inl ⟨id, ha'⟩, hne⟩
    · exact ⟨a', Or.inr ⟨id, ha'⟩, hne⟩

theorem id_eq_of_unique {a' : Account} (h : w.isDuplicate b a = false)
    (ha' : b.accounts.find? id = some a' ∨ w.accounts.find? id = some a')
    (hplace : a.place = a'.place) : a'.id = a.id := by
  by_contra hne
  have hdup : w.isDuplicate b a = true := isDuplicate_iff.mpr ⟨id, a', ha', hne, hplace.symm⟩
  rw [h] at hdup
  cases hdup

theorem firstDuplicate?_eq_some (h : w.firstDuplicate? b = some a) :
    (∃ id, w.accounts.find? id = some a) ∧ b.accounts.find? a.id = none ∧
      w.isDuplicate b a = true := by
  have htest := List.find?_some h
  simp only [Table.contains, Bool.and_eq_true, Bool.not_eq_true', Option.isSome_eq_false_iff,
    Option.isNone_iff_eq_none] at htest
  exact ⟨Table.mem_values_iff.mp (List.mem_of_find?_eq_some h), htest⟩

theorem isDuplicate_of_firstDuplicate? (h : w.firstDuplicate? b = none)
    (ha : w.accounts.find? id = some a) (hnew : b.accounts.find? a.id = none) :
    w.isDuplicate b a = false := by
  have hnot := List.find?_eq_none.mp h a (Table.mem_values_iff.mpr ⟨id, ha⟩)
  simpa [Table.contains, hnew] using hnot

end UnitOfWork

namespace Ledger

variable {l l' : Ledger} {u u' : UnitId} {w : UnitOfWork} {c : Call} {m : Move} {id : Int}
  {a a' : Account} {place : String × Currency}

/-! ## Committed accounts differ -/

/-- An account that a unit of work sees is committed, balances aside, or it is staged and not
committed. -/
theorem Sound.visible_cases (h : l.Sound) (ha : (l.unit u).visible? l.books id = some a) :
    (∃ a', l.books.accounts.find? id = some a' ∧ a.Same a') ∨
    ((l.unit u).accounts.find? id = some a ∧ l.books.accounts.find? id = none) := by
  rcases visible?_eq_some ha with hs | ⟨-, hb⟩
  · rcases h.owned u id a hs with hnew | hcovers
    · exact Or.inr ⟨hs, hnew.uncommitted⟩
    · exact Or.inl hcovers.committed
  · exact Or.inl ⟨a, hb, .refl a⟩

/-- No two accounts in the books have one place, and no two new ones that are staged together. -/
structure Distinct (l : Ledger) : Prop where
  books : l.books.OneEach
  staged : ∀ u id a id' a', (l.unit u).accounts.find? id = some a →
    (l.unit u).accounts.find? id' = some a' → l.books.accounts.find? id = none →
    l.books.accounts.find? id' = none → a.place = a'.place → id = id'

namespace Distinct

theorem empty : Ledger.empty.Distinct where
  books id a id' a' ha := by simp [Ledger.empty, Books.empty] at ha
  staged u id a id' a' ha := by simp [unit, Ledger.empty, UnitOfWork.fresh] at ha

theorem quiet (h : l.Distinct) (hbooks : l'.books = l.books)
    (hunits : ∀ u, l.Retains m l' u ∨ l.Blanks l' u) : l'.Distinct where
  books := by
    rw [hbooks]
    exact h.books
  staged u id a id' a' ha ha' := by
    rcases hunits u with hretains | hblanks
    · rw [hretains.accounts] at ha ha'
      rw [hbooks]
      exact h.staged u id a id' a' ha ha'
    · simp [hblanks.unit, UnitOfWork.fresh] at ha

/-- A new account is compared with all that its unit of work has staged. -/
theorem finish {asked : Ledger} (h : l.Distinct) (hs : l.Sound)
    (isOpen : l.units.find? u = some w) (granted : l.Grants u w c asked) :
    (asked.finish u w c).1.Distinct := by
  have hw := unit_of_find? isOpen
  have hbooks : (asked.finish u w c).1.books = l.books := granted.books
  refine ⟨by rw [hbooks]; exact h.books, fun u' id a id' a' ha ha' hnew hnew' hplace => ?_⟩
  rw [granted.unit_finish] at ha ha'
  rw [hbooks] at hnew hnew'
  split at ha
  case isFalse hne =>
    rw [if_neg hne] at ha'
    exact h.staged u' id a id' a' ha ha' hnew hnew' hplace
  case isTrue heq =>
    rw [if_pos heq] at ha'
    -- The new account itself is one of the two, or none of them.
    have apart : ∀ {id a id' a'}, w.isDuplicate l.books a = false → a.id = id →
        w.accounts.find? id' = some a' → a.place = a'.place → id = id' := by
      intro id a id' a' hunique hid ha' hplace
      have heq := UnitOfWork.id_eq_of_unique hunique (Or.inr ha') hplace
      rw [← hw] at ha'
      rw [← hid, ← heq, (hs.staged u id' a' ha').1]
    have hstaging := perform_staging l w c
    rcases Sound.staged_cases hstaging ha with
      ⟨b, hb, hsame⟩ | ⟨hid, hself, -, hunique⟩ | ⟨-, -, b, hb, -⟩
    case inr.inr => simp [hb] at hnew
    all_goals
      rcases Sound.staged_cases hstaging ha' with
        ⟨b', hb', hsame'⟩ | ⟨hid', hself', -, hunique'⟩ | ⟨-, -, b', hb', -⟩
    case inl.inl =>
      rw [← hw] at hb hb'
      refine h.staged u id b id' b' hb hb' hnew hnew' ?_
      rw [← hsame.place, hplace, hsame'.place]
    case inl.inr.inl =>
      refine (apart hunique' hself' hb ?_).symm
      rw [← hplace, hsame.place]
    case inr.inl.inl =>
      refine apart hunique hself hb' ?_
      rw [hplace, hsame'.place]
    case inr.inl.inr.inl => rw [hid, hid']
    all_goals simp [hb'] at hnew'

/-- A new account is compared with all that is committed by then. -/
theorem publish (h : l.Distinct) (hs : l.Sound) (isOpen : l.units.find? u = some w)
    (unique : w.firstDuplicate? l.books = none) (hbooks : l'.books = w.publish l.books)
    (hunits : l'.units = l.units.erase u) : l'.Distinct := by
  have hw := unit_of_find? isOpen
  have hfind : ∀ id, l'.books.accounts.find? id = (l.unit u).visible? l.books id := by
    intro id
    rw [hbooks, hw]
    exact Table.find?_overlay _ _ _
  constructor
  case books =>
    intro id a id' a' ha ha' hplace
    rw [hfind] at ha ha'
    have apart : ∀ {id a id' a'}, (l.unit u).accounts.find? id = some a →
        l.books.accounts.find? id = none → l.books.accounts.find? id' = some a' →
        a.place = a'.place → id = id' := by
      intro id a id' a' ha hnew ha' hplace
      have hid := (hs.staged u id a ha).1
      rw [hw] at ha
      have hunique := UnitOfWork.isDuplicate_of_firstDuplicate? unique ha (by rwa [hid])
      have heq := UnitOfWork.id_eq_of_unique hunique (Or.inl ha') hplace
      rw [← hid, ← heq, (hs.committed id' a' ha').1]
    rcases hs.visible_cases ha with ⟨b, hb, hsame⟩ | ⟨hstaged, hnew⟩
    · rcases hs.visible_cases ha' with ⟨b', hb', hsame'⟩ | ⟨hstaged', hnew'⟩
      · exact h.books id b id' b' hb hb' (by rw [← hsame.place, hplace, hsame'.place])
      · exact (apart hstaged' hnew' hb (by rw [← hplace, hsame.place])).symm
    · rcases hs.visible_cases ha' with ⟨b', hb', hsame'⟩ | ⟨hstaged', hnew'⟩
      · exact apart hstaged hnew hb' (by rw [hplace, hsame'.place])
      · exact h.staged u id a id' a' hstaged hstaged' hnew hnew' hplace
  case staged =>
    intro u' id a id' a' ha ha' hnew hnew'
    rw [unit_erase hunits] at ha ha'
    split at ha
    · simp [UnitOfWork.fresh] at ha
    · rename_i hne
      rw [if_neg hne] at ha'
      have old : ∀ {id}, l'.books.accounts.find? id = none →
          l.books.accounts.find? id = none := by
        intro id hnone
        rw [hfind, UnitOfWork.visible?, Option.or_eq_none_iff] at hnone
        exact hnone.2
      exact h.staged u' id a id' a' ha ha' (old hnew) (old hnew')

theorem makes (h : l.Distinct) (hs : l.Sound) (hm : l.Makes m l') : l'.Distinct := by
  cases hm.effect with
  | performed isOpen granted => exact h.finish hs isOpen granted
  | published isOpen unique => exact h.publish hs isOpen unique rfl rfl
  | quiet books drawn units => exact h.quiet books units

theorem run (h : l.Distinct) (hl : l.Lawful) (actions : List Action)
    (hr : (l.run actions).drawn.InRange) : (l.run actions).Distinct := by
  induction actions generalizing l with
  | nil => exact h
  | cons a rest ih =>
    obtain ⟨m, hm, -⟩ := l.step_makes a
    have hrange : l.drawn.InRange := hr.of_upTo (l.upTo_run (a :: rest))
    exact ih (h.makes (hl.sound hrange) hm) (hl.step a) hr

end Distinct
/-! ## Who has which place -/

theorem committers_append (j j' : List Occurrence) :
    committers (j ++ j') = committers j ++ committers j' :=
  List.filterMap_append

theorem mem_placesOf_append {calls calls' : List Answered} :
    place ∈ placesOf (calls ++ calls') ↔ place ∈ placesOf calls ∨ place ∈ placesOf calls' := by
  rw [placesOf, List.filterMap_append, List.mem_append]
  rfl

theorem mem_placesOf_committedCalls {j : List Occurrence} :
    place ∈ placesOf (committedCalls j) ↔
      ∃ u ∈ committers j, place ∈ placesOf (answersOf u j) := by
  simp only [placesOf, committedCalls, List.mem_filterMap, List.mem_flatMap]
  constructor
  · rintro ⟨answer, ⟨u, hu, hanswer⟩, hplace⟩
    exact ⟨u, hu, answer, hanswer, hplace⟩
  · rintro ⟨u, hu, answer, hanswer, hplace⟩
    exact ⟨answer, ⟨u, hu, hanswer⟩, hplace⟩

/-- What is told later does not change who was first. -/
theorem claimed_concat {j : List Occurrence} {o : Occurrence}
    (h : Claimed j u place)
    (hsame : ∀ u' ∈ committers j, answersOf u' (j ++ [o]) = answersOf u' j) :
    Claimed (j ++ [o]) u place := by
  obtain ⟨before, answer, since, hj, hanswer, hfirst⟩ := h
  refine ⟨before, answer, since ++ [o], by rw [hj]; simp, hanswer, fun u' hu' => ?_⟩
  rw [hsame u' (by rw [hj, committers_append]; exact List.mem_append_left _ hu')]
  exact hfirst u' hu'

/-! ## Staking a place -/

/-- A new account is refused exactly if the books or the unit of work have one in its place. -/
theorem Sound.isDuplicate_next_iff (hs : l.Sound) (hw : l.unit u = w)
    (hr : l.drawn.accounts + 1 ≤ 9223372036854775807) (owner : String) (currency : Currency)
    (balance : Amount) :
    w.isDuplicate l.books ⟨idAfter l.drawn.accounts, owner, balance, currency, l.clock⟩ = true ↔
      ∃ a ∈ l.books.accounts.values ++ w.accounts.values, a.place = (owner, currency) := by
  simp only [UnitOfWork.isDuplicate_iff, List.mem_append, Table.mem_values_iff, ← exists_or]
  constructor
  · rintro ⟨id, a, ha, -, hplace⟩
    exact ⟨a, ⟨id, ha⟩, hplace⟩
  · rintro ⟨a, ⟨id, ha⟩, hplace⟩
    refine ⟨id, a, ha, ?_, hplace⟩
    obtain ⟨hid, -, hle⟩ : a.id = id ∧ 1 ≤ id ∧ id ≤ l.drawn.accounts := by
      rcases ha with ha | ha
      · exact hs.committed id a ha
      · rw [← hw] at ha
        exact hs.staged u id a ha
    rw [hid, idAfter_eq hr]
    exact Int.ne_of_lt (Int.lt_add_one_of_le hle)

/-- A call that opens an account stakes a free place, and other calls stake nothing. -/
theorem Sound.stakes_perform (hs : l.Sound) (hw : l.unit u = w)
    (hr : (l.perform w c).drawn.InRange) :
    ((⟨c, (l.perform w c).result⟩ : Answered).place? = some place → ¬ l.books.Taken place) ∧
    ((l.perform w c).unit.Stakes l.books place ↔
      w.Stakes l.books place ∨ (⟨c, (l.perform w c).result⟩ : Answered).place? = some place) := by
  have hposts := l.perform_posts w c
  generalize (⟨c, (l.perform w c).result⟩ : Answered) = answer, (l.perform w c).drawn = d,
    (l.perform w c).unit = w' at hposts hr
  cases hposts with
  | opened owner currency balance unique =>
    have hrange : l.drawn.accounts + 1 ≤ 9223372036854775807 := hr.accounts
    have hfree := hs.next_invisible hrange (u := u)
    have hduplicate := hs.isDuplicate_next_iff hw hrange owner currency balance
    rw [hw, UnitOfWork.visible?, Option.or_eq_none_iff] at hfree
    rw [unique] at hduplicate
    generalize idAfter l.drawn.accounts = next at hfree
    simp only [Answered.place?, Option.some.injEq]
    constructor
    case left =>
      rintro rfl ⟨id, a, ha, hplace⟩
      have hmem := Table.mem_values_iff.mpr ⟨id, ha⟩
      exact absurd (hduplicate.mpr ⟨a, List.mem_append_left _ hmem, hplace⟩) Bool.false_ne_true
    case right =>
      constructor
      · rintro ⟨id, a, ha, hnew, hplace⟩
        rw [Table.find?_insert] at ha
        split at ha
        · cases ha
          exact Or.inr hplace
        · exact Or.inl ⟨id, a, ha, hnew, hplace⟩
      · rintro (⟨id, a, ha, hnew, hplace⟩ | rfl)
        · refine ⟨id, a, ?_, hnew, hplace⟩
          rw [Table.find?_insert, if_neg, ha]
          rintro rfl
          rw [hfree.1] at ha
          cases ha
        · exact ⟨next, _, by rw [Table.find?_insert, if_pos rfl], hfree.2, rfl⟩
  | changed row delta a sum visible adds =>
    refine ⟨fun hplace => (by cases hplace), ?_⟩
    simp only [Answered.place?, reduceCtorEq, or_false]
    constructor
    · rintro ⟨id, x, hx, hnew, hplace⟩
      rw [Table.find?_insert] at hx
      split at hx
      · rename_i heq
        subst heq
        cases hx
        rcases visible?_eq_some visible with hstaged | ⟨-, hbook⟩
        · exact ⟨id, a, hstaged, hnew, hplace⟩
        · rw [hnew] at hbook
          cases hbook
      · exact ⟨id, x, hx, hnew, hplace⟩
    · rintro ⟨id, x, hx, hnew, hplace⟩
      by_cases heq : id = row
      · subst heq
        rw [UnitOfWork.visible?, hx, Option.some_or, Option.some.injEq] at visible
        exact ⟨id, _, by rw [Table.find?_insert, if_pos rfl], hnew, by rw [← hplace, visible]; rfl⟩
      · exact ⟨id, x, by rw [Table.find?_insert, if_neg heq, hx], hnew, hplace⟩
  | other accounts opening delta none =>
    rw [none, UnitOfWork.Stakes, accounts]
    exact ⟨fun hplace => (by cases hplace), by simp [UnitOfWork.Stakes]⟩

/-- A commit takes the places that its unit of work has staked. -/
theorem Sound.taken_publish (hs : l.Sound) (isOpen : l.units.find? u = some w) :
    (w.publish l.books).Taken place ↔ l.books.Taken place ∨ w.Stakes l.books place := by
  have hw := unit_of_find? isOpen
  have hfind : ∀ id, (w.publish l.books).accounts.find? id = w.visible? l.books id :=
    fun id => Table.find?_overlay _ _ _
  constructor
  · rintro ⟨id, a, ha, hplace⟩
    rw [hfind, ← hw] at ha
    rcases hs.visible_cases ha with ⟨a', ha', hsame⟩ | ⟨hstaged, hnew⟩
    · exact Or.inl ⟨id, a', ha', hsame.place ▸ hplace⟩
    · rw [hw] at hstaged
      exact Or.inr ⟨id, a, hstaged, hnew, hplace⟩
  · rintro (⟨id, a, ha, hplace⟩ | ⟨id, a, ha, -, hplace⟩)
    · obtain ⟨a', ha', hsame⟩ := hs.keptIn_publish isOpen id a ha
      exact ⟨id, a', ha', hsame.place.trans hplace⟩
    · exact ⟨id, a, by rw [hfind, UnitOfWork.visible?, ha, Option.some_or], hplace⟩

/-- What others have staged is as new after a commit as it was before. -/
theorem Sound.stakes_publish (hs : l.Sound) (isOpen : l.units.find? u = some w) (hne : u' ≠ u) :
    (l.unit u').Stakes (w.publish l.books) place ↔ (l.unit u').Stakes l.books place := by
  have hw := unit_of_find? isOpen
  refine exists_congr fun id => exists_congr fun a => and_congr_right fun ha => ?_
  have hunstaged := hs.unstaged_of_staged ha hne
  rw [hw] at hunstaged
  have hfind : (w.publish l.books).accounts.find? id = l.books.accounts.find? id := by
    rw [UnitOfWork.publish, Table.find?_overlay, hunstaged, Option.none_or]
  rw [hfind]

/-! ## The journal tells who has which place -/

/-- The places in the books are those for which committed units of work have opened accounts, and
the places that an open unit of work stakes are those for which it has opened accounts, each of them
a place that was free at that time. -/
structure Claims (l : Ledger) (j : List Occurrence) : Prop where
  books : ∀ place, l.books.Taken place ↔ place ∈ placesOf (committedCalls j)
  units : ∀ u, (l.units.find? u).isSome → ∀ place,
    (l.unit u).Stakes l.books place ↔ place ∈ placesOf (answersOf u j)
  claimed : ∀ u, (l.units.find? u).isSome → ∀ place ∈ placesOf (answersOf u j), Claimed j u place

namespace Claims

variable {j : List Occurrence}

theorem empty : Ledger.empty.Claims [] where
  books place := by
    simp [Books.Taken, Ledger.empty, Books.empty, placesOf, committedCalls, committers]
  units u hu := by simp [Ledger.empty] at hu
  claimed u hu := by simp [Ledger.empty] at hu

theorem silent (h : l.Claims j) (hrecorded : l.Recorded j) (hm : l.Makes m l')
    (unperformed : ∀ u c, m ≠ .performed u c) (unpublished : ∀ u, m ≠ .published u) :
    l'.Claims j := by
  obtain ⟨hbooks, hunits⟩ := hm.leaves unperformed unpublished
  refine ⟨by rw [hbooks]; exact h.books, fun u hopen place => ?_, fun u hopen place hplace => ?_⟩
  · rcases hunits u with hretains | hblanks
    · rw [← h.units u (hretains.isOpen hopen), UnitOfWork.Stakes, hretains.accounts, hbooks]
      rfl
    · rw [hblanks.unit, hrecorded.numbered u (hblanks.begun hopen)]
      simp [UnitOfWork.Stakes, UnitOfWork.fresh, placesOf]
  · rcases hunits u with hretains | hblanks
    · exact h.claimed u (hretains.isOpen hopen) place hplace
    · rw [hrecorded.numbered u (hblanks.begun hopen)] at hplace
      cases hplace

theorem answered {answer : Answered} (h : l.Claims j) (hrecorded : l.Recorded j)
    (isOpen : l.units.find? u = some w) (hbooks : l'.books = l.books)
    (hfree : ∀ place, answer.place? = some place → ¬ l.books.Taken place)
    (hself : ∀ place, (l'.unit u).Stakes l.books place ↔
      w.Stakes l.books place ∨ answer.place? = some place)
    (hother : ∀ u', u' ≠ u → l'.units.find? u' = l.units.find? u') :
    l'.Claims (j ++ [.answered u answer]) := by
  have hw := unit_of_find? isOpen
  have hopen : (l.units.find? u).isSome := by rw [isOpen]; rfl
  have hu : u ∉ committers j := hrecorded.uncommitted isOpen
  have hcommitted : ∀ u' ∈ committers j,
      answersOf u' (j ++ [.answered u answer]) = answersOf u' j := by
    intro u' hu'
    rw [answersOf_answered, if_neg fun heq : u = u' => hu (heq ▸ hu'), List.append_nil]
  have hanswers : ∀ u', u' ≠ u → answersOf u' (j ++ [.answered u answer]) = answersOf u' j := by
    intro u' hne
    rw [answersOf_answered, if_neg (Ne.symm hne), List.append_nil]
  have hmem : ∀ place, place ∈ placesOf (answersOf u (j ++ [.answered u answer])) ↔
      place ∈ placesOf (answersOf u j) ∨ answer.place? = some place := by
    intro place
    rw [answersOf_answered, if_pos rfl, mem_placesOf_append]
    simp [placesOf]
  constructor
  case books =>
    intro place
    rw [hbooks, committedCalls_answered hu]
    exact h.books place
  case units =>
    intro u' hu' place
    rw [hbooks]
    by_cases hne : u' = u
    · subst hne
      rw [hself, hmem, ← h.units u' hopen, hw]
    · rw [hother u' hne] at hu'
      have hunit : l'.unit u' = l.unit u' := by rw [unit, hother u' hne]; rfl
      rw [hunit, hanswers u' hne]
      exact h.units u' hu' place
  case claimed =>
    intro u' hu' place hplace
    by_cases hne : u' = u
    · subst hne
      rcases (hmem place).mp hplace with hold | hnew
      · exact claimed_concat (h.claimed u' hopen place hold) hcommitted
      -- The place was free, so that nobody who has committed by now has opened an account for it.
      · refine ⟨j, answer, [], rfl, hnew, fun u'' hu'' hmem'' => hfree place hnew ?_⟩
        rw [hcommitted u'' hu''] at hmem''
        exact (h.books place).mpr (mem_placesOf_committedCalls.mpr ⟨u'', hu'', hmem''⟩)
    · rw [hother u' hne] at hu'
      rw [hanswers u' hne] at hplace
      exact claimed_concat (h.claimed u' hu' place hplace) hcommitted

theorem published (h : l.Claims j) (hs : l.Sound) (isOpen : l.units.find? u = some w)
    (hbooks : l'.books = w.publish l.books) (hunits : l'.units = l.units.erase u) :
    l'.Claims (j ++ [.committed u]) := by
  have hw := unit_of_find? isOpen
  have hopen : (l.units.find? u).isSome := by rw [isOpen]; rfl
  have hother : ∀ u', (l'.units.find? u').isSome →
      u' ≠ u ∧ (l.units.find? u').isSome ∧ l'.unit u' = l.unit u' := by
    intro u' hu'
    rw [hunits, Table.find?_erase] at hu'
    split at hu'
    · cases hu'
    · rename_i hne
      exact ⟨hne, hu', by rw [unit_erase hunits, if_neg hne]⟩
  constructor
  case books =>
    intro place
    rw [hbooks, hs.taken_publish isOpen, committedCalls_committed, mem_placesOf_append, h.books,
      ← h.units u hopen, hw]
  case units =>
    intro u' hu' place
    obtain ⟨hne, hold, hunit⟩ := hother u' hu'
    rw [hunit, hbooks, hs.stakes_publish isOpen hne, answersOf_committed]
    exact h.units u' hold place
  case claimed =>
    intro u' hu' place hplace
    rw [answersOf_committed] at hplace
    exact claimed_concat (h.claimed u' (hother u' hu').2.1 place hplace)
      fun _ _ => answersOf_committed _ _ _

theorem logs {o : Option Occurrence} (h : l.Claims j) (hrecorded : l.Recorded j) (hs : l.Sound)
    (hlogs : l.Logs o l') (hr : l'.drawn.InRange) : l'.Claims (j ++ o.toList) := by
  cases hlogs with
  | @refused u c w e isOpen =>
    refine h.answered hrecorded isOpen rfl (fun place hplace => ?_) (fun place => ?_)
      fun _ _ => rfl
    · rw [Answered.place?_error] at hplace
      cases hplace
    · rw [unit_of_find? isOpen, Answered.place?_error]
      simp
  | @performed u c w asked isOpen ready granted =>
    rw [granted.drawn_finish] at hr
    have hw := unit_of_find? isOpen
    rw [granted.perform]
    refine h.answered hrecorded isOpen granted.books (fun place => (hs.stakes_perform hw hr).1)
      (fun place => ?_) fun u' hne => ?_
    · rw [granted.unit_finish, if_pos rfl]
      exact (hs.stakes_perform hw hr).2
    · simp [finish, granted.units, hne]
  | published isOpen idle unique => exact h.published hs isOpen rfl rfl
  | silent makes unperformed unpublished =>
    rw [Option.toList_none, List.append_nil]
    exact h.silent hrecorded makes unperformed unpublished

theorem run (h : l.Claims j) (hrecorded : l.Recorded j) (hl : l.Lawful) (actions : List Action)
    (hr : (l.run actions).drawn.InRange) : (l.run actions).Claims (j ++ l.journal actions) := by
  induction actions generalizing l j with
  | nil => simpa [journal, Ledger.run] using h
  | cons a rest ih =>
    have hlogs := l.step_logs a
    obtain ⟨m, hm⟩ := hlogs.makes
    have hr' : (l.step a).1.drawn.InRange := hr.of_upTo (upTo_run _ rest)
    have hr₀ : l.drawn.InRange := hr'.of_upTo hm.upTo
    rw [journal, ← List.append_assoc]
    exact ih (h.logs hrecorded (hl.sound hr₀) hlogs hr') (hrecorded.logs hl hlogs hr₀ hr')
      (hl.makes hm) hr

/-- A unit of work is overtaken in the places that it stakes and that are taken by now. -/
theorem overtaken_iff (h : l.Claims j) (hrecorded : l.Recorded j)
    (isOpen : l.units.find? u = some w) :
    Overtaken j u place ↔ w.Stakes l.books place ∧ l.books.Taken place := by
  have hopen : (l.units.find? u).isSome := by rw [isOpen]; rfl
  have hu : u ∉ committers j := hrecorded.uncommitted isOpen
  rw [← unit_of_find? isOpen, h.units u hopen, h.books, mem_placesOf_committedCalls]
  constructor
  · rintro ⟨before, answer, since, hj, hanswer, u', hu', -, hplace⟩
    refine ⟨?_, u', ?_, hplace⟩
    · have hmem : answer ∈ answersOf u j := by
        rw [hj, answersOf, List.filterMap_append]
        simp
      exact List.mem_filterMap.mpr ⟨answer, hmem, hanswer⟩
    · rw [hj, committers_append]
      exact List.mem_append_right _ (by simpa [committers] using hu')
  · rintro ⟨hplace, u', hu', htaken⟩
    obtain ⟨before, answer, since, hj, hanswer, hfirst⟩ := h.claimed u hopen place hplace
    refine ⟨before, answer, since, hj, hanswer, u', ?_, fun heq => hu (heq ▸ hu'), htaken⟩
    have hsplit : u' ∈ committers before ∨ u' ∈ committers since := by
      rw [hj, committers_append, List.mem_append] at hu'
      simpa [committers] using hu'
    exact hsplit.resolve_left fun hbefore => hfirst u' hbefore htaken

end Claims

/-! ## The check at the commit -/

/-- The check at the commit finds an account whose place is taken, if there is one. -/
theorem Sound.firstDuplicate?_iff (hs : l.Sound) (hd : l.Distinct)
    (isOpen : l.units.find? u = some w) :
    (∀ a, w.firstDuplicate? l.books = some a → w.Stakes l.books a.place ∧ l.books.Taken a.place) ∧
    (∀ place, w.Stakes l.books place → l.books.Taken place →
      (w.firstDuplicate? l.books).isSome) := by
  have hw := unit_of_find? isOpen
  constructor
  · intro a hfirst
    obtain ⟨⟨id, ha⟩, hnew, hduplicate⟩ := UnitOfWork.firstDuplicate?_eq_some hfirst
    rw [← hw] at ha
    have hid := (hs.staged u id a ha).1
    rw [hid] at hnew
    refine ⟨⟨id, a, by rwa [hw] at ha, hnew, rfl⟩, ?_⟩
    obtain ⟨id', a', ha', hne, hplace⟩ := UnitOfWork.isDuplicate_iff.mp hduplicate
    rcases ha' with hbook | hstaged
    · exact ⟨id', a', hbook, hplace⟩
    -- No other new account is staged in the place, so the row covers a committed one.
    · rw [← hw] at hstaged
      rcases hs.owned u id' a' hstaged with hcreated | hcovers
      · have heq := hd.staged u id a id' a' ha hstaged hnew hcreated.uncommitted hplace.symm
        rw [(hs.staged u id' a' hstaged).1, hid, heq] at hne
        exact absurd rfl hne
      · obtain ⟨a'', hbook, hsame⟩ := hcovers.committed
        exact ⟨id', a'', hbook, hsame.place ▸ hplace⟩
  · rintro place ⟨id, a, ha, hnew, rfl⟩ ⟨id', a', ha', hplace⟩
    by_contra hnone
    rw [Option.not_isSome_iff_eq_none] at hnone
    have hid := (hs.staged u id a (by rwa [hw])).1
    have hunique := UnitOfWork.isDuplicate_of_firstDuplicate? hnone ha (by rwa [hid])
    have heq := UnitOfWork.id_eq_of_unique hunique (Or.inl ha') hplace.symm
    rw [(hs.committed id' a' ha').1, hid] at heq
    rw [heq, hnew] at ha'
    cases ha'

/-! ## Both checks -/

theorem step_createAccount (isOpen : l.units.find? u = some w) (idle : w.pending = none)
    (owner : String) (currency : Currency) (balance : Amount) :
    l.step (.call u (.createAccount owner currency balance)) =
      ((l.finish u w (.createAccount owner currency balance)).1,
        .answered u ⟨_, (l.perform w (.createAccount owner currency balance)).result⟩) := by
  simp only [step, call?, isOpen, idle, Option.isSome_none, Bool.false_eq_true, if_false, refusal?,
    Call.row?]
  rfl

theorem step_commit (isOpen : l.units.find? u = some w) (idle : w.pending = none) :
    l.step (.commit u) = ((l.commitUnit u w).1, .ended u (l.commitUnit u w).2) := by
  simp [step, commit?, isOpen, idle]

/-- A commit that nobody makes fail fails for an account whose place is taken, if there is one. -/
theorem commitUnit_unhindered (hpoint : l.failPoint ≠ some .commit) (hconflicts : l.conflicts = 0) :
    l.commitUnit u w = match w.firstDuplicate? l.books with
      | some a => (l.close u, .error (.duplicateAccount a.owner a.currency.code))
      | none =>
        ({ l.close u with books := w.publish l.books, commits := l.commits + 1 }, .ok ()) := by
  cases hfirst : w.firstDuplicate? l.books with
  | none => simp [commitUnit, injected?, hpoint, hconflicts, hfirst]
  | some a => simp [commitUnit, injected?, hpoint, hconflicts, hfirst]

/-- An owner has at most one account in a currency, and an account is refused only for that reason:
when it is created, exactly if its place is held by a committed account or by one that the same unit
of work has staged; when it is committed, exactly if its unit of work has been overtaken. -/
theorem owner_currency_unique {actions : List Action} (hl : empty.run actions = l)
    (hr : l.drawn.InRange) :
    l.books.OneEach ∧
    ∀ u w, l.units.find? u = some w → w.pending = none →
      (∀ owner currency balance,
        (l.step (.call u (.createAccount owner currency balance))).1.drawn.InRange →
        ((l.step (.call u (.createAccount owner currency balance))).2 =
            .answered u ⟨.createAccount owner currency balance,
              .error (.duplicateAccount owner currency.code)⟩ ↔
          ∃ a ∈ l.books.accounts.values ++ w.accounts.values, a.place = (owner, currency)) ∧
        ((¬ ∃ a ∈ l.books.accounts.values ++ w.accounts.values, a.place = (owner, currency)) →
          ∃ a, (l.step (.call u (.createAccount owner currency balance))).2 =
            .answered u ⟨.createAccount owner currency balance, .ok a⟩)) ∧
      (l.failPoint ≠ some .commit → l.conflicts = 0 →
        ((∃ owner code,
            (l.step (.commit u)).2 = .ended u (.error (.duplicateAccount owner code))) ↔
          ∃ place, Overtaken (empty.journal actions) u place) ∧
        ∀ owner code, (l.step (.commit u)).2 = .ended u (.error (.duplicateAccount owner code)) →
          (l.step (.commit u)).1.books = l.books ∧ (l.step (.commit u)).1.commits = l.commits ∧
          ∃ currency : Currency, currency.code = code ∧
            Overtaken (empty.journal actions) u (owner, currency)) := by
  have hr₀ : (empty.run actions).drawn.InRange := by rwa [hl]
  have hs := (Lawful.empty.run actions).sound hr₀
  have hd := Distinct.empty.run .empty actions hr₀
  have hrecorded := Recorded.empty.run .empty actions hr₀
  have hclaims := Claims.empty.run .empty .empty actions hr₀
  rw [hl] at hs hd hrecorded hclaims
  rw [List.nil_append] at hrecorded hclaims
  refine ⟨hd.books, fun u w isOpen idle => ⟨fun owner currency balance hr' => ?_,
    fun hpoint hconflicts => ?_⟩⟩
  · rw [step_createAccount isOpen idle] at hr' ⊢
    have hrange : l.drawn.accounts + 1 ≤ 9223372036854775807 := by
      have := hr'.accounts
      simp only [finish, perform] at this
      split at this <;> exact this
    rw [← hs.isDuplicate_next_iff (unit_of_find? isOpen) hrange owner currency balance]
    simp only [perform]
    split
    · rename_i hduplicate
      exact ⟨iff_of_true rfl hduplicate, fun hnot => absurd hduplicate hnot⟩
    · rename_i hunique
      exact ⟨iff_of_false (fun hreply => by cases hreply) hunique, fun _ => ⟨_, rfl⟩⟩
  · have hovertaken : ∀ place, Overtaken (empty.journal actions) u place ↔
        w.Stakes l.books place ∧ l.books.Taken place := fun place =>
      hclaims.overtaken_iff hrecorded isOpen
    obtain ⟨hfound, hexists⟩ := hs.firstDuplicate?_iff hd isOpen
    rw [step_commit isOpen idle, commitUnit_unhindered hpoint hconflicts]
    cases hfirst : w.firstDuplicate? l.books with
    | none =>
      refine ⟨iff_of_false (by rintro ⟨owner, code, ⟨⟩⟩) ?_, by rintro owner code ⟨⟩⟩
      rintro ⟨place, hover⟩
      obtain ⟨hstakes, htaken⟩ := (hovertaken place).mp hover
      have := hexists place hstakes htaken
      rw [hfirst] at this
      cases this
    | some a =>
      have hover := (hovertaken a.place).mpr (hfound a hfirst)
      refine ⟨iff_of_true ⟨_, _, rfl⟩ ⟨a.place, hover⟩, ?_⟩
      rintro owner code ⟨rfl⟩
      exact ⟨rfl, rfl, a.currency, rfl, hover⟩

/-- Two units of work open an account of one owner in one currency, and the first one commits. -/
def rivals : List Action :=
  [.begin, .begin, .call 1 (.createAccount "ann" franc (cents 250)),
    .call 2 (.createAccount "ann" franc .zero), .commit 1]

theorem rivals_unique :
    (empty.run rivals).drawn.InRange ∧ (empty.run rivals).books.OneEach ∧
    ((empty.run rivals).step (.commit 2)).2 = .ended 2 (.error (.duplicateAccount "ann" "CHF")) ∧
    ((empty.run rivals).step (.commit 2)).1.books = (empty.run rivals).books ∧
    ∃ currency : Currency, currency.code = "CHF" ∧
      Overtaken (empty.journal rivals) 2 ("ann", currency) := by
  have hr : (empty.run rivals).drawn.InRange := by decide
  obtain ⟨hone, hunits⟩ := owner_currency_unique rfl hr
  have hopen : ((empty.run rivals).units.find? 2).isSome := by decide
  obtain ⟨w, isOpen⟩ := Option.isSome_iff_exists.mp hopen
  have idle : w.pending = none := by
    have : ((empty.run rivals).units.find? 2).map (·.pending) = some none := by decide
    rw [isOpen] at this
    exact Option.some.inj this
  have hreply : ((empty.run rivals).step (.commit 2)).2 =
      .ended 2 (.error (.duplicateAccount "ann" "CHF")) := by rfl
  obtain ⟨hbooks, -, hovertaken⟩ :=
    ((hunits 2 w isOpen idle).2 (by decide) (by decide)).2 _ _ hreply
  exact ⟨hr, hone, hreply, hbooks, hovertaken⟩

end Ledger
end FundsLedger
