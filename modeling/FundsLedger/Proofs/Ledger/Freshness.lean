import FundsLedger.Proofs.Ledger.Failures
import FundsLedger.Proofs.Ledger.Filed
import FundsLedger.Proofs.Ledger.Unique

/-!
Fresh identifiers. Each kind of rows has a counter, and every call that draws an identifier moves it
on, whether the row comes to anything or not. The identifiers in use are those of committed rows and
of rows that open units of work have staged as new. Each of them has been drawn once, by a unit of
work that is still open or has committed; what others have drawn is gone for good.
-/

namespace FundsLedger

/-! ## Kinds of rows -/

/-- The kinds of rows, each with a counter of its own. -/
inductive RowKind where
  | account
  | entry
  | transfer

namespace RowKind

/-- How many identifiers of the kind have been given out. -/
def drawn (k : RowKind) (d : Drawn) : Nat :=
  match k with
  | account => d.accounts
  | entry => d.entries
  | transfer => d.transfers

/-- Where the counter of the kind stands: the identifier that it gives out next. -/
def next (k : RowKind) (d : Drawn) : Int := idAfter (k.drawn d)

/-- The keys under which rows of the kind are committed. -/
def committed (k : RowKind) (b : Books) : List Int :=
  match k with
  | account => b.accounts.keys
  | entry => b.entries.keys
  | transfer => b.transfers.keys

/-- The identifiers of the rows of the kind that a unit of work has staged as new. -/
def added (k : RowKind) (b : Books) (w : UnitOfWork) : List Int :=
  match k with
  | account => w.accounts.keys.filter fun id => !b.accounts.contains id
  | entry => w.entries.map (·.id)
  | transfer => w.transfers.map (·.id)

variable {k : RowKind} {b : Books} {w w' : UnitOfWork} {id : Int}

theorem mem_added_account : id ∈ account.added b w ↔
    (w.accounts.find? id).isSome ∧ b.accounts.find? id = none := by
  simp [added, List.mem_filter, Table.mem_keys_iff, Table.contains]

/-- Staging one more account makes at most that one new, and only if it is not committed. -/
theorem mem_added_insert {key : Int} {a : Account}
    (h : id ∈ account.added b { w with accounts := w.accounts.insert key a }) :
    id ∈ account.added b w ∨ id = key ∧ b.accounts.find? key = none := by
  obtain ⟨hstaged, hnew⟩ := mem_added_account.mp h
  rw [Table.find?_insert] at hstaged
  split at hstaged
  · rename_i heq
    exact Or.inr ⟨heq, heq ▸ hnew⟩
  · exact Or.inl (mem_added_account.mpr ⟨hstaged, hnew⟩)

theorem mem_map_concat {α : Type} {f : α → Int} {rows : List α} {r : α}
    (h : id ∈ (rows ++ [r]).map f) : id ∈ rows.map f ∨ id = f r := by
  rwa [List.map_append, List.mem_append, List.map_singleton, List.mem_singleton] at h

theorem added_fresh : k.added b UnitOfWork.fresh = [] := by cases k <;> rfl

/-- Whether a unit of work waits in a call makes no difference to what it has staged. -/
theorem added_congr (haccounts : w'.accounts = w.accounts) (hentries : w'.entries = w.entries)
    (htransfers : w'.transfers = w.transfers) : k.added b w' = k.added b w := by
  cases k with
  | account => rw [added, added, haccounts]
  | entry => rw [added, added, hentries]
  | transfer => rw [added, added, htransfers]

/-- What is committed meanwhile makes no row a new one. -/
theorem added_of_publish (h : id ∈ k.added (w.publish b) w') : id ∈ k.added b w' := by
  cases k with
  | account =>
    obtain ⟨hstaged, hnew⟩ := mem_added_account.mp h
    rw [UnitOfWork.publish, Table.find?_overlay, Option.or_eq_none_iff] at hnew
    exact mem_added_account.mpr ⟨hstaged, hnew.2⟩
  | entry => exact h
  | transfer => exact h

/-- A commit commits the rows that have been staged as new, and nothing else that was not committed
before. -/
theorem committed_of_publish (h : id ∈ k.committed (w.publish b)) :
    id ∈ k.committed b ∨ id ∈ k.added b w := by
  cases k with
  | account =>
    rw [committed, Table.mem_keys_iff, UnitOfWork.publish, Table.find?_overlay,
      Option.isSome_or, Bool.or_eq_true] at h
    cases hbook : b.accounts.find? id with
    | some a => exact Or.inl (Table.mem_keys_iff.mpr (by rw [hbook]; rfl))
    | none =>
      rw [hbook] at h
      exact Or.inr (mem_added_account.mpr ⟨h.resolve_right Bool.false_ne_true, hbook⟩)
  | entry => exact Table.mem_keys_foldl_insertById h
  | transfer => exact Table.mem_keys_foldl_insertById h

/-- The identifier of the kind that a step has drawn, with the unit of work whose call was answered:
the step has moved the counter on. -/
def draw? (k : RowKind) (d d' : Drawn) : Option Occurrence → Option (UnitId × Int)
  | some (.answered u _) => if k.drawn d < k.drawn d' then some (u, k.next d) else none
  | _ => none

end RowKind

/-- No counter has wrapped round: the next identifier of each kind is still a greater one. -/
def Drawn.Unwrapped (d : Drawn) : Prop := ∀ k : RowKind, k.drawn d < 9223372036854775807

namespace Drawn.Unwrapped

variable {d : Drawn} {k : RowKind}

theorem inRange (h : d.Unwrapped) : d.InRange :=
  ⟨Nat.le_of_lt (h .account), Nat.le_of_lt (h .entry), Nat.le_of_lt (h .transfer)⟩

theorem next_eq (h : d.Unwrapped) : k.next d = k.drawn d + 1 := idAfter_eq (h k)

end Drawn.Unwrapped

/-! ## Identifiers in use -/

/-- The identifiers of one kind that are in use: they have all been drawn, and nobody has one that
is committed or that somebody else has. -/
structure Allotted (drawn : Nat) (committed : List Int) (added : UnitId → List Int) : Prop where
  known : ∀ id ∈ committed, 1 ≤ id ∧ id ≤ drawn
  fresh : ∀ u, ∀ id ∈ added u, (1 ≤ id ∧ id ≤ drawn) ∧ id ∉ committed
  nodup : ∀ u, (added u).Nodup
  apart : ∀ u u' id, id ∈ added u → id ∈ added u' → u = u'

theorem Numbered.allotted {α : Type} {id : α → Int} {drawn : Nat} {committed : Table α}
    {staged : UnitId → List α} (h : Numbered id drawn committed staged) :
    Allotted drawn committed.keys fun u => (staged u).map id where
  known key hkey := by
    obtain ⟨r, hr⟩ := Option.isSome_iff_exists.mp (Table.mem_keys_iff.mp hkey)
    exact (h.keyed key r hr).2
  fresh u key hkey := by
    obtain ⟨r, hr, rfl⟩ := List.mem_map.mp hkey
    refine ⟨h.range u r hr, ?_⟩
    rw [Table.mem_keys_iff, h.unpublished u r hr]
    exact Bool.false_ne_true
  nodup u := List.pairwise_map.mpr ((h.ascending u).imp Int.ne_of_lt)
  apart u u' key hkey hkey' := by
    obtain ⟨r, hr, rfl⟩ := List.mem_map.mp hkey
    obtain ⟨r', hr', heq⟩ := List.mem_map.mp hkey'
    exact h.apart u u' r r' hr hr' heq.symm

namespace Ledger

variable {l l' : Ledger} {k : RowKind} {u : UnitId} {w w' : UnitOfWork} {id : Int} {c : Call}
  {d : Drawn} {o : Option Occurrence}

/-- The identifiers of the kind that are in use: those of committed rows, and those of rows that
open units of work have staged as new. -/
def identifiers (l : Ledger) (k : RowKind) : List Int :=
  k.committed l.books ++ l.units.values.flatMap (k.added l.books)

theorem mem_identifiers : id ∈ l.identifiers k ↔
    id ∈ k.committed l.books ∨ ∃ u, id ∈ k.added l.books (l.unit u) := by
  rw [identifiers, List.mem_append, List.mem_flatMap]
  refine or_congr_right ⟨?_, ?_⟩
  · rintro ⟨w, hw, hid⟩
    obtain ⟨u, isOpen⟩ := Table.mem_values_iff.mp hw
    exact ⟨u, by rwa [unit_of_find? isOpen]⟩
  · rintro ⟨u, hid⟩
    cases hfind : l.units.find? u with
    | some v =>
      rw [unit_of_find? hfind] at hid
      exact ⟨v, Table.mem_values_iff.mpr ⟨u, hfind⟩, hid⟩
    | none =>
      rw [unit, hfind, Option.getD_none, RowKind.added_fresh] at hid
      cases hid

theorem Sound.allotted (h : l.Sound) (k : RowKind) :
    Allotted (k.drawn l.drawn) (k.committed l.books) fun u => k.added l.books (l.unit u) := by
  cases k with
  | entry => exact h.entries.allotted
  | transfer => exact h.transfers.allotted
  | account =>
    constructor
    case known =>
      intro id hid
      obtain ⟨a, ha⟩ := Option.isSome_iff_exists.mp (Table.mem_keys_iff.mp hid)
      exact (h.committed id a ha).2
    case fresh =>
      intro u id hid
      obtain ⟨hstaged, hnew⟩ := RowKind.mem_added_account.mp hid
      obtain ⟨a, ha⟩ := Option.isSome_iff_exists.mp hstaged
      refine ⟨(h.staged u id a ha).2, fun hbook => ?_⟩
      rw [RowKind.committed, Table.mem_keys_iff, hnew] at hbook
      cases hbook
    case nodup =>
      intro u
      exact ((l.unit u).accounts.keys_ascending.imp Int.ne_of_lt).filter _
    case apart =>
      intro u u' id hid hid'
      obtain ⟨hstaged, -⟩ := RowKind.mem_added_account.mp hid
      obtain ⟨hstaged', -⟩ := RowKind.mem_added_account.mp hid'
      obtain ⟨a, ha⟩ := Option.isSome_iff_exists.mp hstaged
      by_contra hne
      rw [h.unstaged_of_staged ha hne] at hstaged'
      cases hstaged'

/-- No identifier is in use twice. -/
theorem Sound.identifiers_nodup (h : l.Sound) (k : RowKind) : (l.identifiers k).Nodup := by
  have hallotted := h.allotted k
  have hcommitted : (k.committed l.books).Nodup := by
    cases k <;> exact (Table.keys_ascending _).imp Int.ne_of_lt
  have hunit : ∀ u w, l.units.find? u = some w → k.added l.books w = k.added l.books (l.unit u) :=
    fun u w isOpen => by rw [unit_of_find? isOpen]
  refine List.nodup_append.mpr ⟨hcommitted, List.nodup_flatMap.mpr ⟨fun w hw => ?_, ?_⟩, ?_⟩
  · obtain ⟨u, isOpen⟩ := Table.mem_values_iff.mp hw
    rw [hunit u w isOpen]
    exact hallotted.nodup u
  · rw [Table.values, List.pairwise_map]
    refine l.units.ascending.imp_of_mem fun {p q} hp hq hlt id hid hid' => ?_
    obtain ⟨u, w⟩ := p
    obtain ⟨u', w'⟩ := q
    rw [hunit u w (Table.mem_rows_iff.mp hp)] at hid
    rw [hunit u' w' (Table.mem_rows_iff.mp hq)] at hid'
    exact Int.ne_of_lt hlt (hallotted.apart u u' id hid hid')
  · rintro id hid id' hid' rfl
    obtain ⟨w, hw, hadded⟩ := List.mem_flatMap.mp hid'
    obtain ⟨u, isOpen⟩ := Table.mem_values_iff.mp hw
    rw [hunit u w isOpen] at hadded
    exact (hallotted.fresh u id hadded).2 hid

theorem Sound.identifiers_range (h : l.Sound) (hid : id ∈ l.identifiers k) :
    1 ≤ id ∧ id ≤ k.drawn l.drawn := by
  rcases mem_identifiers.mp hid with hbook | ⟨u, hadded⟩
  · exact (h.allotted k).known id hbook
  · exact ((h.allotted k).fresh u id hadded).1

theorem mem_identifiers_congr (hbooks : l'.books = l.books)
    (hadded : ∀ u, k.added l.books (l'.unit u) = k.added l.books (l.unit u)) :
    id ∈ l'.identifiers k ↔ id ∈ l.identifiers k := by
  rw [mem_identifiers, mem_identifiers, hbooks]
  simp only [hadded]

/-- A call that fails may draw an identifier, but it puts none to use. -/
theorem Called.identifiers_of_failed {r : Outcome c} {e : StoreError} (h : l.Called u c l' r)
    (hr : r = .answered (.error e)) : id ∈ l'.identifiers k ↔ id ∈ l.identifiers k := by
  cases h with
  | refused isOpen idle refusal => rfl
  | @performed w asked isOpen ready granted =>
    have hresult : (asked.perform w c).result = .error e := Outcome.answered.inj hr
    have hunit : (l.perform w c).unit = w := by
      rw [← granted.perform]
      exact unit_perform_of_failed hresult
    refine mem_identifiers_congr granted.books fun u' => ?_
    rw [granted.unit_finish, hunit]
    split
    · rename_i heq
      rw [heq, unit_of_find? isOpen]
      exact RowKind.added_congr rfl rfl rfl
    · rfl
  | queued isOpen idle row known taken => cases hr
  | waiting isOpen pending row taken => cases hr

/-! ## Drawing identifiers -/

/-- A call stages nothing new under an identifier of the kind, or it draws the next one, and stages
a new row under that at most. -/
theorem Staging.draws (h : l.Staging w c d w') (k : RowKind) :
    (k.drawn d = k.drawn l.drawn ∧ ∀ id ∈ k.added l.books w', id ∈ k.added l.books w) ∨
    (k.drawn d = k.drawn l.drawn + 1 ∧
      ∀ id ∈ k.added l.books w', id ∈ k.added l.books w ∨ id = k.next l.drawn) := by
  cases h with
  | nothing => exact Or.inl ⟨rfl, fun _ hid => hid⟩
  | spent =>
    cases k with
    | account => exact Or.inr ⟨rfl, fun _ => Or.inl⟩
    | entry | transfer => exact Or.inl ⟨rfl, fun _ hid => hid⟩
  | account a hnext unique =>
    cases k with
    | account =>
      refine Or.inr ⟨rfl, fun id hid => ?_⟩
      exact (RowKind.mem_added_insert hid).imp_right fun ⟨heq, _⟩ => heq.trans hnext
    | entry | transfer => exact Or.inl ⟨rfl, fun _ hid => hid⟩
  | balance row delta a sum visible adds =>
    cases k with
    | account =>
      refine Or.inl ⟨rfl, fun id hid => ?_⟩
      rcases RowKind.mem_added_insert hid with hold | ⟨rfl, hnew⟩
      · exact hold
      -- It is not committed and seen all the same, so it was staged before.
      · rw [UnitOfWork.visible?, hnew, Option.or_none] at visible
        exact RowKind.mem_added_account.mpr ⟨by rw [visible]; rfl, hnew⟩
    | entry | transfer => exact Or.inl ⟨rfl, fun _ hid => hid⟩
  | entry e hnext visible =>
    cases k with
    | entry =>
      refine Or.inr ⟨rfl, fun id hid => ?_⟩
      exact (RowKind.mem_map_concat hid).imp_right fun heq => heq.trans hnext
    | account | transfer => exact Or.inl ⟨rfl, fun _ hid => hid⟩
  | transfer t hnext source destination =>
    cases k with
    | transfer =>
      refine Or.inr ⟨rfl, fun id hid => ?_⟩
      exact (RowKind.mem_map_concat hid).imp_right fun heq => heq.trans hnext
    | account | entry => exact Or.inl ⟨rfl, fun _ hid => hid⟩

/-- The identifiers of the kind that a run draws, each with the unit of work that draws it. -/
def draws (l : Ledger) (k : RowKind) : List Action → List (UnitId × Int)
  | [] => []
  | a :: rest =>
    (k.draw? l.drawn (l.step a).1.drawn (occurrence? a (l.step a).2)).toList ++
      (l.step a).1.draws k rest

namespace Logs

/-- A step moves the counter on by one if it draws an identifier, and then it draws the next one. -/
theorem counted (h : l.Logs o l') (k : RowKind) :
    (k.drawn l'.drawn = k.drawn l.drawn ∧ k.draw? l.drawn l'.drawn o = none) ∨
    (k.drawn l'.drawn = k.drawn l.drawn + 1 ∧
      ∃ u, k.draw? l.drawn l'.drawn o = some (u, k.next l.drawn)) := by
  cases h with
  | refused isOpen => exact Or.inl ⟨rfl, if_neg (Nat.lt_irrefl _)⟩
  | @performed u c w asked isOpen ready granted =>
    rw [granted.drawn_finish]
    rcases (l.perform_staging w c).draws k with ⟨hsame, -⟩ | ⟨hnext, -⟩
    · exact Or.inl ⟨hsame, if_neg (by omega)⟩
    · exact Or.inr ⟨hnext, u, if_pos (by omega)⟩
  | published isOpen idle unique => exact Or.inl ⟨rfl, rfl⟩
  | silent makes unperformed unpublished =>
    refine Or.inl ⟨?_, rfl⟩
    cases makes.effect with
    | performed isOpen granted => exact absurd rfl (unperformed _ _)
    | published isOpen unique => exact absurd rfl (unpublished _)
    | quiet books drawn units => rw [drawn]

/-- What a unit of work has staged as new after a step, it had staged before, or it has drawn the
identifier for it in this step. -/
theorem added (h : l.Logs o l') (hid : id ∈ k.added l'.books (l'.unit u)) :
    id ∈ k.added l.books (l.unit u) ∨ k.draw? l.drawn l'.drawn o = some (u, id) := by
  cases h with
  | refused isOpen => exact Or.inl hid
  | @performed u' c w asked isOpen ready granted =>
    have hbooks : (asked.finish u' w c).1.books = l.books := granted.books
    rw [hbooks, granted.unit_finish] at hid
    rw [granted.drawn_finish]
    split at hid
    case isFalse => exact Or.inl hid
    case isTrue heq =>
      subst heq
      have hid : id ∈ k.added l.books (l.perform w c).unit := by
        rwa [RowKind.added_congr rfl rfl rfl] at hid
      rw [unit_of_find? isOpen]
      rcases (l.perform_staging w c).draws k with ⟨-, hold⟩ | ⟨hnext, hnew⟩
      · exact Or.inl (hold id hid)
      · refine (hnew id hid).imp_right fun heq => ?_
        rw [heq]
        exact if_pos (by omega)
  | @published u' w isOpen idle unique =>
    rw [unit_erase (l := l) rfl] at hid
    split at hid
    · rw [RowKind.added_fresh] at hid
      cases hid
    · exact Or.inl (RowKind.added_of_publish hid)
  | silent makes unperformed unpublished =>
    obtain ⟨hbooks, hunits⟩ := makes.leaves unperformed unpublished
    rw [hbooks] at hid
    rcases hunits u with hretains | hblanks
    · rw [RowKind.added_congr hretains.accounts hretains.entries hretains.transfers] at hid
      exact Or.inl hid
    · rw [hblanks.unit, RowKind.added_fresh] at hid
      cases hid

/-- What is committed after a step was committed before, or the unit of work that has committed in
this step had staged it as new. -/
theorem committed (h : l.Logs o l') (hid : id ∈ k.committed l'.books) :
    id ∈ k.committed l.books ∨
      ∃ u, o = some (.committed u) ∧ id ∈ k.added l.books (l.unit u) := by
  cases h with
  | refused isOpen => exact Or.inl hid
  | performed isOpen ready granted =>
    rw [← granted.books]
    exact Or.inl hid
  | @published u w isOpen idle unique =>
    refine (RowKind.committed_of_publish hid).imp_right fun hadded => ⟨u, rfl, ?_⟩
    rwa [unit_of_find? isOpen]
  | silent makes unperformed unpublished =>
    rw [← (makes.leaves unperformed unpublished).1]
    exact Or.inl hid

/-- An identifier that is in use after a step was so before, or the step has drawn it. -/
theorem identifiers (h : l.Logs o l') (hid : id ∈ l'.identifiers k) :
    id ∈ l.identifiers k ∨ id ∈ (k.draw? l.drawn l'.drawn o).toList.map Prod.snd := by
  rcases mem_identifiers.mp hid with hbook | ⟨u, hadded⟩
  · refine Or.inl (mem_identifiers.mpr ?_)
    exact (h.committed hbook).imp_right fun ⟨u, _, hadded⟩ => ⟨u, hadded⟩
  · rcases h.added hadded with hold | hdraw
    · exact Or.inl (mem_identifiers.mpr (Or.inr ⟨u, hold⟩))
    · rw [hdraw]
      exact Or.inr List.mem_cons_self

end Logs

/-- Induction on the run: what is in use at its end was in use at its start, or the run has drawn
it. -/
theorem identifiers_run {actions : List Action} (hid : id ∈ (l.run actions).identifiers k) :
    id ∈ l.identifiers k ∨ id ∈ (l.draws k actions).map Prod.snd := by
  induction actions generalizing l with
  | nil => exact Or.inl hid
  | cons a rest ih =>
    rw [draws, List.map_append, List.mem_append]
    rcases ih hid with hnow | hlater
    · exact ((l.step_logs a).identifiers hnow).imp_right Or.inl
    · exact Or.inr (Or.inr hlater)

theorem draws_append (l : Ledger) (k : RowKind) (actions rest : List Action) :
    l.draws k (actions ++ rest) = l.draws k actions ++ (l.run actions).draws k rest := by
  induction actions generalizing l with
  | nil => rfl
  | cons a later ih =>
    rw [List.cons_append, draws, draws, ih, List.append_assoc]
    rfl

/-! ## Where identifiers come from -/

/-- Where the identifiers of one kind in use come from: `log` tells who has drawn which one, and
`done` who has committed. -/
structure Traced (l : Ledger) (k : RowKind) (log : List (UnitId × Int)) (done : List UnitId) :
    Prop where
  counted : log.map Prod.snd = (List.range (k.drawn l.drawn)).map idAfter
  staged : ∀ u, ∀ id ∈ k.added l.books (l.unit u), (u, id) ∈ log
  committed : ∀ id ∈ k.committed l.books, ∃ u ∈ done, (u, id) ∈ log

namespace Traced

variable {log : List (UnitId × Int)} {done : List UnitId}

theorem empty (k : RowKind) : Ledger.empty.Traced k [] [] := by
  cases k
  all_goals
    refine ⟨rfl, fun u id hid => ?_, fun id hid => (by cases hid)⟩
    rw [unit, Ledger.empty, Table.find?_empty, Option.getD_none, RowKind.added_fresh] at hid
    cases hid

theorem logs (h : l.Traced k log done) (hlogs : l.Logs o l') :
    l'.Traced k (log ++ (k.draw? l.drawn l'.drawn o).toList) (done ++ committers o.toList) where
  counted := by
    rw [List.map_append, h.counted]
    rcases hlogs.counted k with ⟨hsame, hdraw⟩ | ⟨hnext, u, hdraw⟩
    · rw [hsame, hdraw]
      exact List.append_nil _
    · rw [hnext, hdraw, List.range_succ, List.map_append, Option.toList_some, List.map_singleton,
        List.map_singleton, RowKind.next]
  staged u id hid := by
    rcases hlogs.added hid with hold | hdraw
    · exact List.mem_append_left _ (h.staged u id hold)
    · rw [hdraw]
      exact List.mem_append_right _ List.mem_cons_self
  committed id hid := by
    rcases hlogs.committed hid with hold | ⟨u, ho, hadded⟩
    · obtain ⟨u, hu, hmem⟩ := h.committed id hold
      exact ⟨u, List.mem_append_left _ hu, List.mem_append_left _ hmem⟩
    · refine ⟨u, List.mem_append_right _ ?_, List.mem_append_left _ (h.staged u id hadded)⟩
      rw [ho]
      exact List.mem_cons_self

theorem run (h : l.Traced k log done) (actions : List Action) :
    (l.run actions).Traced k (log ++ l.draws k actions)
      (done ++ committers (l.journal actions)) := by
  induction actions generalizing l log done with
  | nil => simpa [draws, journal, committers, Ledger.run] using h
  | cons a rest ih =>
    rw [draws, journal, committers_append, ← List.append_assoc, ← List.append_assoc]
    exact ih (h.logs (l.step_logs a))

/-- As long as the counter is in range, every identifier has been drawn once. -/
theorem nodup (h : l.Traced k log done) (hr : k.drawn l.drawn ≤ 9223372036854775807) :
    (log.map Prod.snd).Nodup := by
  rw [h.counted]
  refine List.nodup_range.map_on fun m hm n hn heq => ?_
  rw [List.mem_range] at hm hn
  rw [idAfter_eq (by omega), idAfter_eq (by omega)] at heq
  omega

/-- What a unit of work has drawn is not in use if it has ended without a commit. -/
theorem unused (h : l.Traced k log done) (hr : k.drawn l.drawn ≤ 9223372036854775807)
    (hdraw : (u, id) ∈ log) (hclosed : l.units.find? u = none) (hdone : u ∉ done) :
    id ∉ l.identifiers k := by
  have same : ∀ u', (u', id) ∈ log → u' = u := fun u' hdraw' =>
    congrArg Prod.fst (List.inj_on_of_nodup_map (h.nodup hr) hdraw' hdraw rfl)
  intro hid
  rcases mem_identifiers.mp hid with hbook | ⟨u', hadded⟩
  · obtain ⟨u', hu', hdraw'⟩ := h.committed id hbook
    exact hdone (same u' hdraw' ▸ hu')
  · rw [same u' (h.staged u' id hadded), unit, hclosed, Option.getD_none,
      RowKind.added_fresh] at hadded
    cases hadded

end Traced

/-- What holds of the identifiers of a ledger in every run, as long as no counter has wrapped round.
Rows stand under their own identifiers. The identifiers in use are below the counter, and nobody
shares one; each of them has been drawn by a unit of work that is open or has committed, and no
identifier is drawn twice. What a unit of work has drawn that has ended without a commit is not in
use, nor is what a failed call has drawn, and what is drawn and not in use never will be again.
Every unit of work stages its entries and its transfers in ascending order. -/
theorem identifiers_fresh {actions : List Action} (hl : empty.run actions = l)
    (hr : l.drawn.Unwrapped) :
    l.Filed ∧
    (∀ k : RowKind,
      (∀ id ∈ l.identifiers k, 1 ≤ id ∧ id < k.next l.drawn) ∧ (l.identifiers k).Nodup ∧
      l.Traced k (empty.draws k actions) (committers (empty.journal actions)) ∧
      ((empty.draws k actions).map Prod.snd).Nodup ∧
      (∀ u id, (u, id) ∈ empty.draws k actions → l.units.find? u = none →
        u ∉ committers (empty.journal actions) → id ∉ l.identifiers k) ∧
      (∀ x u c e, (l.step x).2 = .answered u ⟨c, .error e⟩ →
        ∀ id, id ∈ (l.step x).1.identifiers k ↔ id ∈ l.identifiers k) ∧
      ∀ rest, (l.run rest).drawn.Unwrapped → ∀ u id, (u, id) ∈ empty.draws k actions →
        id ∉ l.identifiers k → id ∉ (l.run rest).identifiers k) ∧
    ∀ u w, l.units.find? u = some w →
      w.entries.Pairwise (·.id < ·.id) ∧ w.transfers.Pairwise (·.id < ·.id) := by
  have hs : l.Sound := (Reachable.lawful ⟨actions, hl.symm⟩).sound hr.inRange
  have hfiled : l.Filed := hl ▸ Filed.empty.run actions
  refine ⟨hfiled, fun k => ?kinds, fun u w isOpen => ?ascending⟩
  case ascending =>
    rw [← unit_of_find? isOpen]
    exact ⟨hs.entries.ascending u, hs.transfers.ascending u⟩
  case kinds =>
    have htraced := (Traced.empty k).run actions
    rw [hl, List.nil_append, List.nil_append] at htraced
    have hrange : k.drawn l.drawn ≤ 9223372036854775807 := Nat.le_of_lt (hr k)
    refine ⟨fun id hid => ?_, hs.identifiers_nodup k, htraced, htraced.nodup hrange,
      fun u id hdraw hclosed hdone => htraced.unused hrange hdraw hclosed hdone,
      fun x u c e hfailed id => (called_of_answered hfailed).identifiers_of_failed rfl,
      fun rest hr' u id hdraw hunused hid => ?_⟩
    · obtain ⟨hlow, hhigh⟩ := hs.identifiers_range hid
      rw [hr.next_eq]
      exact ⟨hlow, Int.lt_add_one_of_le hhigh⟩
    · rcases identifiers_run hid with hnow | hlater
      · exact hunused hnow
      -- Drawn before and drawn later: that would be drawn twice.
      · have hwhole := ((Traced.empty k).run (actions ++ rest)).nodup
          (by rw [run_append, hl]; exact Nat.le_of_lt (hr' k))
        rw [List.nil_append, draws_append, hl, List.map_append] at hwhole
        exact List.disjoint_of_nodup_append hwhole (List.mem_map_of_mem hdraw) hlater

/-- The second unit of work opens an account, after it has failed to open another one, and is rolled
back. The third one appends two entries, and the fourth one opens an account and appends a transfer
to it. -/
def spending : List Action :=
  [.begin, .call 1 (.createAccount "ann" franc (cents 250)), .commit 1, .begin,
    .call 2 (.createAccount "ann" franc .zero), .call 2 (.createAccount "bob" dollar (cents 90)),
    .call 2 (.appendEntry 1 (cents 5)), .rollback 2, .begin, .call 3 (.appendEntry 1 (cents 7)),
    .call 3 (.appendEntry 1 (cents 8)), .begin, .call 4 (.createAccount "cid" dollar (cents 4)),
    .call 4 (.appendTransfer 1 4 (cents 2))]

/-- Then the fourth one is dropped, the third one commits, and so does a fifth one that opens an
account as well. -/
def spendingLater : List Action :=
  [.abandon 4, .commit 3, .begin, .call 5 (.createAccount "dan" franc .zero), .commit 5]

set_option maxRecDepth 8000 in
theorem spending_fresh :
    (empty.run spending).drawn.Unwrapped ∧
    ((empty.run spending).run spendingLater).drawn.Unwrapped ∧
    empty.draws .account spending = [(1, 1), (2, 2), (2, 3), (4, 4)] ∧
    (empty.run spending).identifiers .account = [1, 4] ∧
    (empty.run spending).identifiers .entry = [2, 3] ∧
    ((empty.run spending).run spendingLater).identifiers .account = [1, 5] ∧
    (empty.run spending).Filed ∧ ((empty.run spending).identifiers .account).Nodup ∧
    (∀ id ∈ (empty.run spending).identifiers .entry,
      1 ≤ id ∧ id < RowKind.entry.next (empty.run spending).drawn) ∧
    3 ∉ ((empty.run spending).run spendingLater).identifiers .account ∧
    (∀ id, id ∈ ((empty.run spending).step
        (.call 4 (.createAccount "cid" dollar .zero))).1.identifiers .account ↔
      id ∈ (empty.run spending).identifiers .account) ∧
    ∃ w, (empty.run spending).units.find? 3 = some w ∧ w.entries.Pairwise (·.id < ·.id) := by
  have hr : (empty.run spending).drawn.Unwrapped := by
    intro k
    cases k <;> decide
  have hr' : ((empty.run spending).run spendingLater).drawn.Unwrapped := by
    intro k
    cases k <;> decide
  obtain ⟨hfiled, hkinds, hascending⟩ := @identifiers_fresh _ spending rfl hr
  obtain ⟨-, hnodup, -, -, hunused, hfailed, hnever⟩ := hkinds .account
  have hlost : 3 ∉ (empty.run spending).identifiers .account :=
    hunused 2 3 (by decide) (by decide) (by decide)
  obtain ⟨w, isOpen⟩ : ∃ w, (empty.run spending).units.find? 3 = some w := ⟨_, rfl⟩
  exact ⟨hr, hr', by decide, by decide, by decide, by decide, hfiled, hnodup, (hkinds .entry).1,
    hnever spendingLater hr' 2 3 (by decide) hlost, hfailed _ 4 _ _ rfl, w, isOpen,
    (hascending 3 w isOpen).1⟩

end Ledger
end FundsLedger
