import FundsLedger.Proofs.Ledger.Numbered
import FundsLedger.Proofs.Ledger.Orderly

/-!
Soundness of a ledger: rows stand under their own identifiers, identifiers are never shared, and a
staged account is either a new one that nobody else can see or ask for, or a committed one whose row
the unit of work holds. Every move keeps this as long as the counters stay in range.
-/

namespace FundsLedger

/-- The same account, balances aside. -/
structure Account.Same (a a' : Account) : Prop where
  id : a.id = a'.id
  owner : a.owner = a'.owner
  currency : a.currency = a'.currency
  createdAt : a.createdAt = a'.createdAt

theorem Account.Same.refl (a : Account) : a.Same a := ⟨rfl, rfl, rfl, rfl⟩

theorem Account.Same.trans {a a' a'' : Account} (h : a.Same a') (h' : a'.Same a'') : a.Same a'' :=
  ⟨h.id.trans h'.id, h.owner.trans h'.owner, h.currency.trans h'.currency,
    h.createdAt.trans h'.createdAt⟩

theorem Account.Same.symm {a a' : Account} (h : a.Same a') : a'.Same a :=
  ⟨h.id.symm, h.owner.symm, h.currency.symm, h.createdAt.symm⟩

theorem Account.Same.eq {a a' : Account} (h : a.Same a')
    (hbalance : a.balance.units = a'.balance.units) : a = a' := by
  cases a
  cases a'
  simp only [Account.mk.injEq]
  exact ⟨h.id, h.owner, Amount.ext hbalance, h.currency, h.createdAt⟩

/-- Every account of the first books is in the second ones, the same but for its balance. -/
def Books.KeptIn (b b' : Books) : Prop :=
  ∀ id a, b.accounts.find? id = some a → ∃ a', b'.accounts.find? id = some a' ∧ a'.Same a

namespace Ledger

variable {l l' : Ledger} {u u' : UnitId} {id : Int} {a : Account} {w : UnitOfWork}

/-- The account is new in the unit of work: it is neither committed nor known to anyone else. -/
structure Created (l : Ledger) (u : UnitId) (id : Int) : Prop where
  uncommitted : l.books.accounts.find? id = none
  unstaged : ∀ u', u' ≠ u → (l.unit u').accounts.find? id = none
  unasked : ∀ u', u' ≠ u → (⟨u', id⟩ : LockRequest) ∉ l.requests

/-- The staged row is that of a committed account whose row the unit of work holds. -/
structure Covers (l : Ledger) (u : UnitId) (id : Int) (a : Account) : Prop where
  holds : l.Holds u id
  committed : ∃ a', l.books.accounts.find? id = some a' ∧ a.Same a'

/-- The invariant of a ledger whose counters are in range. -/
structure Sound (l : Ledger) : Prop where
  committed : ∀ id a, l.books.accounts.find? id = some a →
    a.id = id ∧ 1 ≤ id ∧ id ≤ l.drawn.accounts
  staged : ∀ u id a, (l.unit u).accounts.find? id = some a →
    a.id = id ∧ 1 ≤ id ∧ id ≤ l.drawn.accounts
  owned : ∀ u id a, (l.unit u).accounts.find? id = some a → l.Created u id ∨ l.Covers u id a
  requested : ∀ u row, (⟨u, row⟩ : LockRequest) ∈ l.requests →
    ((l.unit u).visible? l.books row).isSome
  awaited : ∀ u c row, (l.unit u).pending = some c → c.row? = some row →
    (l.unit u).accounts.find? row = none
  entries : Numbered Entry.id l.drawn.entries l.books.entries fun u => (l.unit u).entries
  transfers : Numbered Transfer.id l.drawn.transfers l.books.transfers fun u =>
    (l.unit u).transfers

theorem visible?_eq_some {b : Books} (h : w.visible? b id = some a) :
    w.accounts.find? id = some a ∨ (w.accounts.find? id = none ∧ b.accounts.find? id = some a) := by
  unfold UnitOfWork.visible? at h
  exact Option.or_eq_some_iff.mp h

theorem visible?_isSome_iff {b : Books} :
    (w.visible? b id).isSome ↔ (w.accounts.find? id).isSome ∨ (b.accounts.find? id).isSome := by
  simp [UnitOfWork.visible?]

/-- A new account is invisible to other units of work. -/
theorem Created.invisible (h : l.Created u id) (hne : u' ≠ u) :
    (l.unit u').visible? l.books id = none := by
  simp [UnitOfWork.visible?, h.uncommitted, h.unstaged u' hne]

namespace Sound

theorem visible_range (h : l.Sound) (hv : (l.unit u).visible? l.books id = some a) :
    a.id = id ∧ 1 ≤ id ∧ id ≤ l.drawn.accounts := by
  rcases visible?_eq_some hv with hs | ⟨-, hb⟩
  · exact h.staged u id a hs
  · exact h.committed id a hb

/-- Nobody sees an account under the next identifier. -/
theorem next_invisible (h : l.Sound) (hr : l.drawn.accounts + 1 ≤ 9223372036854775807) :
    (l.unit u).visible? l.books (idAfter l.drawn.accounts) = none := by
  cases hv : (l.unit u).visible? l.books (idAfter l.drawn.accounts) with
  | none => rfl
  | some a =>
    obtain ⟨-, -, hle⟩ := h.visible_range hv
    rw [idAfter_eq hr] at hle
    omega

theorem requested_range (h : l.Sound) (hq : (⟨u, id⟩ : LockRequest) ∈ l.requests) :
    1 ≤ id ∧ id ≤ l.drawn.accounts := by
  obtain ⟨a, ha⟩ := Option.isSome_iff_exists.mp (h.requested u id hq)
  exact (h.visible_range ha).2

theorem empty : Ledger.empty.Sound where
  committed id a h := by simp [Ledger.empty, Books.empty] at h
  staged u id a h := by simp [unit, Ledger.empty, UnitOfWork.fresh] at h
  owned u id a h := by simp [unit, Ledger.empty, UnitOfWork.fresh] at h
  requested u row h := by simp [Ledger.empty] at h
  awaited u c row h := by simp [unit, Ledger.empty, UnitOfWork.fresh] at h
  entries := Numbered.empty Entry.id
  transfers := Numbered.empty Transfer.id

/-! ## Moves that stage and publish nothing -/

/-- What a move leaves of a unit of work when it stages nothing: all of it or nothing. -/
structure Kept (l l' : Ledger) (u : UnitId) : Prop where
  accounts : (l'.unit u).accounts = (l.unit u).accounts
  entries : (l'.unit u).entries = (l.unit u).entries
  transfers : (l'.unit u).transfers = (l.unit u).transfers
  pending : (l'.unit u).pending = (l.unit u).pending ∨ (l'.unit u).pending = none
  holds : ∀ row, ((l.unit u).accounts.find? row).isSome → l.Holds u row → l'.Holds u row

theorem Kept.congr (hunits : l'.units = l.units) (hrequests : l'.requests = l.requests) :
    Kept l l' u := by
  have hunit := unit_congr hunits u
  exact ⟨by rw [hunit], by rw [hunit], by rw [hunit], Or.inl (by rw [hunit]),
    fun row _ hholds => (holds_congr hrequests).mpr hholds⟩

theorem shrink (h : l.Sound) (hbooks : l'.books = l.books) (hdrawn : l'.drawn = l.drawn)
    (hrequests : ∀ q ∈ l'.requests, q ∈ l.requests)
    (hunits : ∀ u, Kept l l' u ∨
      (l'.unit u = UnitOfWork.fresh ∧ ∀ row, (⟨u, row⟩ : LockRequest) ∉ l'.requests)) :
    l'.Sound := by
  have hstaged : ∀ u id, (l'.unit u).accounts.find? id = (l.unit u).accounts.find? id ∨
      (l'.unit u).accounts.find? id = none := by
    intro u id
    rcases hunits u with hkept | ⟨hfresh, -⟩
    · exact Or.inl (by rw [hkept.accounts])
    · exact Or.inr (by simp [hfresh, UnitOfWork.fresh])
  have hsome : ∀ u id a, (l'.unit u).accounts.find? id = some a →
      Kept l l' u ∧ (l.unit u).accounts.find? id = some a := by
    intro u id a hs
    rcases hunits u with hkept | ⟨hfresh, -⟩
    · rw [hkept.accounts] at hs
      exact ⟨hkept, hs⟩
    · simp [hfresh, UnitOfWork.fresh] at hs
  constructor
  case committed =>
    intro id a ha
    rw [hbooks] at ha
    rw [hdrawn]
    exact h.committed id a ha
  case staged =>
    intro u id a hs
    rw [hdrawn]
    exact h.staged u id a (hsome u id a hs).2
  case owned =>
    intro u id a hs
    obtain ⟨hkept, hs⟩ := hsome u id a hs
    rcases h.owned u id a hs with hnew | hcovers
    · refine Or.inl ⟨by rw [hbooks]; exact hnew.uncommitted, fun u' hne => ?_,
        fun u' hne hq => hnew.unasked u' hne (hrequests _ hq)⟩
      rcases hstaged u' id with heq | heq
      · rw [heq]
        exact hnew.unstaged u' hne
      · exact heq
    · refine Or.inr ⟨hkept.holds id (by simp [hs]) hcovers.holds, ?_⟩
      rw [hbooks]
      exact hcovers.committed
  case requested =>
    intro u row hq
    rcases hunits u with hkept | ⟨-, hnone⟩
    · have := h.requested u row (hrequests _ hq)
      rw [visible?_isSome_iff] at this ⊢
      rwa [hkept.accounts, hbooks]
    · exact absurd hq (hnone row)
  case awaited =>
    intro u c row hc hrow
    rcases hunits u with hkept | ⟨hfresh, -⟩
    · rw [hkept.accounts]
      rcases hkept.pending with heq | heq
      · rw [heq] at hc
        exact h.awaited u c row hc hrow
      · rw [heq] at hc
        cases hc
    · simp [hfresh, UnitOfWork.fresh] at hc
  case entries =>
    rw [hbooks, hdrawn]
    refine h.entries.shrink fun u => ?_
    rcases hunits u with hkept | ⟨hfresh, -⟩
    · exact Or.inl hkept.entries
    · exact Or.inr (by rw [hfresh]; rfl)
  case transfers =>
    rw [hbooks, hdrawn]
    refine h.transfers.shrink fun u => ?_
    rcases hunits u with hkept | ⟨hfresh, -⟩
    · exact Or.inl hkept.transfers
    · exact Or.inr (by rw [hfresh]; rfl)

theorem begin (h : l.Sound) (ho : l.Orderly) : l.begin.1.Sound := by
  refine h.shrink rfl rfl (fun q hq => hq) fun u => ?_
  have hunit : l.begin.1.unit u =
      if u = l.begins + 1 then UnitOfWork.fresh else l.unit u := unit_insert rfl u
  by_cases hu : u = l.begins + 1
  · rw [if_pos hu] at hunit
    refine Or.inr ⟨hunit, fun row hq => ?_⟩
    have := ho.numbered u (ho.opened u row hq)
    rw [hu] at this
    omega
  · rw [if_neg hu] at hunit
    exact Or.inl ⟨by rw [hunit], by rw [hunit], by rw [hunit], Or.inl (by rw [hunit]),
      fun row _ hholds => hholds⟩

theorem close (h : l.Sound) (hbooks : l'.books = l.books) (hdrawn : l'.drawn = l.drawn)
    (hunits : l'.units = l.units.erase u)
    (hrequests : l'.requests = l.requests.filter (·.unit ≠ u)) : l'.Sound := by
  have hmem : ∀ q : LockRequest, q ∈ l'.requests ↔ q ∈ l.requests ∧ q.unit ≠ u := by
    intro q
    simp [hrequests, List.mem_filter]
  refine h.shrink hbooks hdrawn (fun q hq => ((hmem q).mp hq).1) fun u' => ?_
  have hunit := unit_erase hunits u'
  by_cases hu : u' = u
  · rw [if_pos hu] at hunit
    exact Or.inr ⟨hunit, fun row hq => ((hmem _).mp hq).2 hu⟩
  · rw [if_neg hu] at hunit
    exact Or.inl ⟨by rw [hunit], by rw [hunit], by rw [hunit], Or.inl (by rw [hunit]),
      fun row _ hholds => hholds.filter hrequests (by simpa using hu)⟩

theorem withdraw {c : Call} (h : l.Sound) (hw : l.units.find? u = some w)
    (pending : w.pending = some c) : (l.withdraw u).Sound := by
  rw [withdraw_of_pending hw pending]
  refine h.shrink rfl rfl (fun q hq => (List.mem_filter.mp hq).1) fun u' => Or.inl ?_
  have hunit :
      unit { l with
        units := l.units.insert u { w with pending := none }
        requests := l.requests.filter fun r => !(r.unit = u && c.row? = some r.row) } u' =
        if u' = u then { w with pending := none } else l.unit u' := unit_insert rfl u'
  by_cases hu : u' = u
  · subst hu
    have hw' := unit_of_find? hw
    rw [if_pos rfl] at hunit
    refine ⟨by rw [hunit, hw'], by rw [hunit, hw'], by rw [hunit, hw'], Or.inr (by rw [hunit]),
      fun row hrow hholds => hholds.filter rfl ?_⟩
    -- The row that is given up is not staged, so no staged row loses its lock.
    have hne : c.row? ≠ some row := by
      intro hc
      have hnone := h.awaited u' c row (by rw [hw', pending]) hc
      rw [hnone] at hrow
      cases hrow
    simp [hne]
  · rw [if_neg hu] at hunit
    exact ⟨by rw [hunit], by rw [hunit], by rw [hunit], Or.inl (by rw [hunit]),
      fun row _ hholds => hholds.filter rfl (by simp [hu])⟩

/-! ## Moves that stage something or ask for a row -/

/-- Staging never hides a row. -/
theorem visible_of_staging {c : Call} {d : Drawn} {w' : UnitOfWork} (hs : l.Staging w c d w')
    (hv : (w.visible? l.books id).isSome) : (w'.visible? l.books id).isSome := by
  rw [visible?_isSome_iff] at hv ⊢
  cases hs with
  | nothing | spent | entry | transfer => exact hv
  | account | balance =>
    simp only [Table.find?_insert]
    split
    · exact Or.inl rfl
    · exact hv

/-- A row staged after a call was staged before, balances aside, or is new under the next
identifier, or is that of a committed account whose row the call needs. -/
theorem staged_cases {c : Call} {d : Drawn} {w' : UnitOfWork} (hs : l.Staging w c d w')
    (ha : w'.accounts.find? id = some a) :
    (∃ a', w.accounts.find? id = some a' ∧ a.Same a') ∨
    (id = idAfter l.drawn.accounts ∧ a.id = id ∧ d.accounts = l.drawn.accounts + 1 ∧
      w.isDuplicate l.books a = false) ∨
    (w.accounts.find? id = none ∧ c.row? = some id ∧
      ∃ a', l.books.accounts.find? id = some a' ∧ a.Same a') := by
  cases hs with
  | nothing | spent | entry | transfer => exact Or.inl ⟨a, ha, .refl a⟩
  | account b hid hunique =>
    simp only [Table.find?_insert] at ha
    split at ha
    · rename_i heq
      cases ha
      exact Or.inr (Or.inl ⟨heq.trans hid, heq.symm, rfl, hunique⟩)
    · exact Or.inl ⟨a, ha, .refl a⟩
  | balance id' delta b sum hvisible hadds =>
    simp only [Table.find?_insert] at ha
    split at ha
    · rename_i heq
      subst heq
      cases ha
      rcases visible?_eq_some hvisible with hold | ⟨hnone, hbook⟩
      · exact Or.inl ⟨b, hold, rfl, rfl, rfl, rfl⟩
      · exact Or.inr (Or.inr ⟨hnone, rfl, b, hbook, rfl, rfl, rfl, rfl⟩)
    · exact Or.inl ⟨a, ha, .refl a⟩

theorem staged_entries {c : Call} {d : Drawn} {w' : UnitOfWork} (hs : l.Staging w c d w') :
    (w'.entries = w.entries ∧ d.entries = l.drawn.entries) ∨
    ∃ e : Entry, w'.entries = w.entries ++ [e] ∧ e.id = idAfter l.drawn.entries ∧
      d.entries = l.drawn.entries + 1 := by
  cases hs with
  | nothing | spent | account | balance | transfer => exact Or.inl ⟨rfl, rfl⟩
  | entry e hid hvisible => exact Or.inr ⟨e, rfl, hid, rfl⟩

theorem staged_transfers {c : Call} {d : Drawn} {w' : UnitOfWork} (hs : l.Staging w c d w') :
    (w'.transfers = w.transfers ∧ d.transfers = l.drawn.transfers) ∨
    ∃ t : Transfer, w'.transfers = w.transfers ++ [t] ∧ t.id = idAfter l.drawn.transfers ∧
      d.transfers = l.drawn.transfers + 1 := by
  cases hs with
  | nothing | spent | account | balance | entry => exact Or.inl ⟨rfl, rfl⟩
  | transfer t hid hsource hdestination => exact Or.inr ⟨t, rfl, hid, rfl⟩

end Sound

/-- A unit of work grows: it stages what the call stages and asks for rows that it sees, it holds
the committed rows that it stages, and nobody loses a row. -/
structure Grows (l : Ledger) (u : UnitId) (w : UnitOfWork) (c : Call) (w' : UnitOfWork)
    (p : Option Call) (l' : Ledger) : Prop where
  stages : l.Staging w c l'.drawn w'
  range : l'.drawn.InRange
  books : l'.books = l.books
  units : l'.units = l.units.insert u { w' with pending := p }
  requests : ∀ q ∈ l'.requests,
    q ∈ l.requests ∨ (q.unit = u ∧ (w.visible? l.books q.row).isSome)
  holds : ∀ u' row, l.Holds u' row → l'.Holds u' row
  locks : ∀ id, (w'.accounts.find? id).isSome → w.accounts.find? id = none →
    c.row? = some id → l'.Holds u id
  pending : ∀ d row, p = some d → d.row? = some row → w'.accounts.find? row = none

namespace Grows

variable {c : Call} {w' : UnitOfWork} {p : Option Call}

theorem self (g : l.Grows u w c w' p l') : l'.unit u = { w' with pending := p } := by
  rw [unit_insert g.units, if_pos rfl]

theorem other (g : l.Grows u w c w' p l') (hne : u' ≠ u) : l'.unit u' = l.unit u' := by
  rw [unit_insert g.units, if_neg hne]

theorem next (g : l.Grows u w c w' p l') (hcount : l'.drawn.accounts = l.drawn.accounts + 1) :
    idAfter l.drawn.accounts = l.drawn.accounts + 1 := by
  have := g.range.accounts
  exact idAfter_eq (by omega)

/-- What is staged stands under its own identifier. -/
theorem staged (g : l.Grows u w c w' p l') (h : l.Sound) (hw : l.unit u = w)
    (ha : (l'.unit u').accounts.find? id = some a) :
    a.id = id ∧ 1 ≤ id ∧ id ≤ l'.drawn.accounts := by
  have hle := g.stages.upTo.accounts
  -- Identifiers that were in range stay so, since counters only grow.
  have hwider : ∀ a', a'.id = id ∧ 1 ≤ id ∧ id ≤ (l.drawn.accounts : Int) → a.Same a' →
      a.id = id ∧ 1 ≤ id ∧ id ≤ (l'.drawn.accounts : Int) :=
    fun a' ⟨hid, hlow, hhigh⟩ hsame => ⟨hsame.id.trans hid, hlow, by omega⟩
  by_cases hne : u' = u
  · subst hne
    rw [g.self] at ha
    rcases Sound.staged_cases g.stages ha with
      ⟨a', ha', hsame⟩ | ⟨hid, hself, hcount, -⟩ | ⟨-, -, a', ha', hsame⟩
    · exact hwider a' (h.staged u' id a' (by rwa [hw])) hsame
    · rw [g.next hcount] at hid
      exact ⟨hself, by rw [hid]; omega, by rw [hid]; omega⟩
    · exact hwider a' (h.committed id a' ha') hsame
  · rw [g.other hne] at ha
    exact hwider a (h.staged u' id a ha) (.refl a)

/-- An account that was new in a unit of work is still unknown to everyone else. -/
theorem created (g : l.Grows u w c w' p l') (h : l.Sound) (hw : l.unit u = w)
    (ha : (l.unit u').accounts.find? id = some a) (hnew : l.Created u' id) :
    l'.Created u' id := by
  constructor
  case uncommitted =>
    rw [g.books]
    exact hnew.uncommitted
  case unstaged =>
    intro u'' hne
    by_cases heq : u'' = u
    · subst heq
      rw [g.self]
      cases hf : w'.accounts.find? id with
      | none => rfl
      | some b =>
        rcases Sound.staged_cases g.stages hf with
          ⟨b', hb', -⟩ | ⟨hid, -, hcount, -⟩ | ⟨-, -, b', hb', -⟩
        · have := hnew.unstaged u'' hne
          rw [hw, hb'] at this
          cases this
        · rw [g.next hcount] at hid
          have := (h.staged u' id a ha).2.2
          rw [hid] at this
          omega
        · rw [hnew.uncommitted] at hb'
          cases hb'
    · rw [g.other heq]
      exact hnew.unstaged u'' hne
  case unasked =>
    intro u'' hne hq
    rcases g.requests _ hq with hq | ⟨rfl, hvisible⟩
    · exact hnew.unasked u'' hne hq
    · have := hnew.invisible hne
      rw [hw] at this
      rw [this] at hvisible
      cases hvisible

/-- The next identifier is larger than all that anybody knows. -/
theorem creates (g : l.Grows u w c w' p l') (h : l.Sound) (hid : id = idAfter l.drawn.accounts)
    (hcount : l'.drawn.accounts = l.drawn.accounts + 1) : l'.Created u id := by
  rw [g.next hcount] at hid
  constructor
  case uncommitted =>
    rw [g.books]
    cases hf : l.books.accounts.find? id with
    | none => rfl
    | some b =>
      have := (h.committed id b hf).2.2
      rw [hid] at this
      omega
  case unstaged =>
    intro u' hne
    rw [g.other hne]
    cases hf : (l.unit u').accounts.find? id with
    | none => rfl
    | some b =>
      have := (h.staged u' id b hf).2.2
      rw [hid] at this
      omega
  case unasked =>
    intro u' hne hq
    rcases g.requests _ hq with hq | ⟨rfl, -⟩
    · have := (h.requested_range hq).2
      rw [hid] at this
      omega
    · exact hne rfl

/-- What is staged is new, or it covers a committed row that is held. -/
theorem owned (g : l.Grows u w c w' p l') (h : l.Sound) (hw : l.unit u = w)
    (ha : (l'.unit u').accounts.find? id = some a) : l'.Created u' id ∨ l'.Covers u' id a := by
  have hold : ∀ a', (l.unit u').accounts.find? id = some a' → a.Same a' →
      l'.Created u' id ∨ l'.Covers u' id a := by
    intro a' ha' hsame
    rcases h.owned u' id a' ha' with hnew | ⟨hholds, a'', hbook, hsame'⟩
    · exact Or.inl (g.created h hw ha' hnew)
    · exact Or.inr ⟨g.holds u' id hholds, a'', by rw [g.books]; exact hbook, hsame.trans hsame'⟩
  by_cases hne : u' = u
  · subst hne
    rw [g.self] at ha
    rcases Sound.staged_cases g.stages ha with
      ⟨a', ha', hsame⟩ | ⟨hid, -, hcount, -⟩ | ⟨hnone, hrow, hbook⟩
    · exact hold a' (by rwa [hw]) hsame
    · exact Or.inl (g.creates h hid hcount)
    · exact Or.inr ⟨g.locks id (by simp [ha]) hnone hrow, by rw [g.books]; exact hbook⟩
  · rw [g.other hne] at ha
    exact hold a ha (.refl a)

/-- Nobody asks for a row that is not there. -/
theorem requested (g : l.Grows u w c w' p l') (h : l.Sound) (hw : l.unit u = w)
    (hq : (⟨u', id⟩ : LockRequest) ∈ l'.requests) :
    ((l'.unit u').visible? l'.books id).isSome := by
  have hmono : (w.visible? l.books id).isSome → ((l'.unit u).visible? l.books id).isSome := by
    intro hvisible
    rw [g.self]
    show (w'.visible? l.books id).isSome
    exact Sound.visible_of_staging g.stages hvisible
  rw [g.books]
  rcases g.requests _ hq with hq | ⟨rfl, hvisible⟩
  · by_cases hne : u' = u
    · subst hne
      apply hmono
      rw [← hw]
      exact h.requested u' id hq
    · rw [g.other hne]
      exact h.requested u' id hq
  · exact hmono hvisible

end Grows

namespace Sound

/-- A ledger stays sound while a unit of work grows. -/
theorem grow {c : Call} {w' : UnitOfWork} {p : Option Call} (h : l.Sound)
    (hw : l.units.find? u = some w) (g : l.Grows u w c w' p l') : l'.Sound := by
  have hw' := unit_of_find? hw
  constructor
  case committed =>
    intro id a ha
    rw [g.books] at ha
    obtain ⟨hid, hlow, hhigh⟩ := h.committed id a ha
    have hle := g.stages.upTo.accounts
    exact ⟨hid, hlow, by omega⟩
  case staged =>
    intro u' id a ha
    exact g.staged h hw' ha
  case owned =>
    intro u' id a ha
    exact g.owned h hw' ha
  case requested =>
    intro u' row hq
    exact g.requested h hw' hq
  case awaited =>
    intro u' d row hd hrow
    by_cases hne : u' = u
    · subst hne
      rw [g.self] at hd ⊢
      exact g.pending d row hd hrow
    · rw [g.other hne] at hd ⊢
      exact h.awaited u' d row hd hrow
  case entries =>
    have hentries := staged_entries g.stages
    rw [g.books]
    refine h.entries.grow (u := u) ?_ (fun u' hne => by rw [g.other hne]) g.range.entries
    rwa [g.self, hw']
  case transfers =>
    have htransfers := staged_transfers g.stages
    rw [g.books]
    refine h.transfers.grow (u := u) ?_ (fun u' hne => by rw [g.other hne]) g.range.transfers
    rwa [g.self, hw']

/-- A call that ends leaves the ledger sound. -/
theorem finish {c : Call} {asked : Ledger} (h : l.Sound) (hw : l.units.find? u = some w)
    (granted : l.Grants u w c asked) (hr : (asked.finish u w c).1.drawn.InRange) :
    (asked.finish u w c).1.Sound := by
  obtain ⟨more, hmore⟩ := granted.requests
  have hs : l.Staging w c (asked.finish u w c).1.drawn (l.perform w c).unit := by
    have := perform_staging l w c
    rw [← granted.perform] at this ⊢
    exact this
  have hunits : (asked.finish u w c).1.units =
      l.units.insert u { (l.perform w c).unit with pending := none } := by
    rw [← granted.units, ← granted.perform]
    rfl
  refine h.grow hw ⟨hs, hr, granted.books, hunits, fun q hq => ?_,
    fun u' row hholds => hholds.append hmore, fun id _ _ hrow => granted.holds hrow,
    fun d row hd => ?_⟩
  · rcases granted.mem hq with hq | ⟨id, -, rfl, hq | hvisible⟩
    · exact Or.inl hq
    · exact Or.inl hq
    · exact Or.inr ⟨rfl, hvisible⟩
  · cases hd

/-- A call has to wait only for a row that is not staged here: whoever staged it would hold it. -/
theorem wait {c : Call} (h : l.Sound) (hw : l.units.find? u = some w) (hrow : c.row? = some id)
    (known : (w.visible? l.books id).isSome) (taken : ¬ (l.request u id).Holds u id)
    (hr : l.drawn.InRange) :
    Sound { l.request u id with units := l.units.insert u { w with pending := some c } } := by
  obtain ⟨more, hmore⟩ := l.request_requests u id
  have hs : l.Staging w c (l.request u id).drawn w := by
    rw [request_drawn]
    exact .nothing c
  refine h.grow hw ⟨hs, by simpa using hr, by simp, rfl, fun q hq => ?_,
    fun u' row hholds => hholds.append hmore, fun row hsome hnone => ?_, fun d row hd hd' => ?_⟩
  · rcases mem_request.mp hq with hq | rfl
    · exact Or.inl hq
    · exact Or.inr ⟨rfl, known⟩
  · rw [hnone] at hsome
    cases hsome
  · cases hd
    rw [hrow] at hd'
    cases hd'
    cases hf : w.accounts.find? id with
    | none => rfl
    | some a =>
      rw [← unit_of_find? hw] at hf
      rcases h.owned u id a hf with hnew | hcovers
      -- A row that only this unit of work has created could not be taken.
      · refine absurd (Holds.of_sole (mem_request.mpr (Or.inr rfl)) fun u' hq => ?_) taken
        rcases mem_request.mp hq with hq | heq
        · by_cases hne : u' = u
          · exact hne
          · exact absurd hq (hnew.unasked u' hne)
        · cases heq
          rfl
      · exact absurd (hcovers.holds.append hmore) taken

/-! ## Publication -/

/-- A row that is held is staged by nobody else. -/
theorem unstaged_of_holds (h : l.Sound) (hholds : l.Holds u' id) (hne : u' ≠ u) :
    (l.unit u).accounts.find? id = none := by
  cases hf : (l.unit u).accounts.find? id with
  | none => rfl
  | some a =>
    rcases h.owned u id a hf with hnew | hcovers
    · exact absurd hholds.mem (hnew.unasked u' hne)
    · exact absurd (hholds.unique hcovers.holds) hne

/-- No two units of work have staged the same row. -/
theorem unstaged_of_staged (h : l.Sound) (ha : (l.unit u').accounts.find? id = some a)
    (hne : u' ≠ u) : (l.unit u).accounts.find? id = none := by
  rcases h.owned u' id a ha with hnew | hcovers
  · exact hnew.unstaged u (Ne.symm hne)
  · exact h.unstaged_of_holds hcovers.holds hne

/-- The rows of a unit of work become committed. Nobody else holds one of them, so what others have
staged over committed rows still fits these. -/
theorem publish {l' : Ledger} (h : l.Sound) (hw : l.units.find? u = some w)
    (hbooks : l'.books = w.publish l.books) (hdrawn : l'.drawn = l.drawn)
    (hunits : l'.units = l.units.erase u)
    (hrequests : l'.requests = l.requests.filter (·.unit ≠ u)) : l'.Sound := by
  have hw' := unit_of_find? hw
  have hself : l'.unit u = UnitOfWork.fresh := by rw [unit_erase hunits, if_pos rfl]
  have hother : ∀ u', u' ≠ u → l'.unit u' = l.unit u' := by
    intro u' hne
    rw [unit_erase hunits, if_neg hne]
  have hmem : ∀ q : LockRequest, q ∈ l'.requests ↔ q ∈ l.requests ∧ q.unit ≠ u := by
    intro q
    simp [hrequests, List.mem_filter]
  have hfind : ∀ id, l'.books.accounts.find? id =
      (w.accounts.find? id).or (l.books.accounts.find? id) := by
    intro id
    rw [hbooks]
    exact Table.find?_overlay _ _ _
  have hstaged : ∀ u' id a, (l'.unit u').accounts.find? id = some a →
      u' ≠ u ∧ (l.unit u').accounts.find? id = some a := by
    intro u' id a ha
    by_cases hne : u' = u
    · rw [hne, hself] at ha
      simp [UnitOfWork.fresh] at ha
    · rw [hother u' hne] at ha
      exact ⟨hne, ha⟩
  constructor
  case committed =>
    intro id a ha
    rw [hdrawn]
    rw [hfind] at ha
    rcases Option.or_eq_some_iff.mp ha with hs | ⟨-, hb⟩
    · rw [← hw'] at hs
      exact h.staged u id a hs
    · exact h.committed id a hb
  case staged =>
    intro u' id a ha
    rw [hdrawn]
    exact h.staged u' id a (hstaged u' id a ha).2
  case owned =>
    intro u' id a ha
    obtain ⟨hne, hold⟩ := hstaged u' id a ha
    rcases h.owned u' id a hold with hnew | ⟨hlocked, a', hbook, hsame⟩
    · refine Or.inl ⟨?_, fun u'' hne' => ?_, fun u'' hne' hq => ?_⟩
      · have := hnew.unstaged u (Ne.symm hne)
        rw [hw'] at this
        rw [hfind, this, hnew.uncommitted]
        rfl
      · by_cases heq : u'' = u
        · rw [heq, hself]
          simp [UnitOfWork.fresh]
        · rw [hother u'' heq]
          exact hnew.unstaged u'' hne'
      · exact hnew.unasked u'' hne' ((hmem _).mp hq).1
    · have hunstaged := h.unstaged_of_holds hlocked hne
      rw [hw'] at hunstaged
      refine Or.inr ⟨hlocked.filter hrequests (by simpa using hne), a', ?_, hsame⟩
      rw [hfind, hunstaged]
      exact hbook
  case requested =>
    intro u' row hq
    obtain ⟨hq, hne⟩ := (hmem _).mp hq
    have hvisible := h.requested u' row hq
    rw [visible?_isSome_iff] at hvisible ⊢
    rw [hother u' hne, hfind]
    refine hvisible.imp id fun hbook => ?_
    simp [hbook]
  case awaited =>
    intro u' c row hc hrow
    by_cases hne : u' = u
    · rw [hne, hself] at hc
      cases hc
    · rw [hother u' hne] at hc ⊢
      exact h.awaited u' c row hc hrow
  case entries =>
    rw [hbooks, hdrawn]
    have := h.entries.publish (fun u => (l'.unit u).entries) (u := u)
      (by rw [hself]; rfl) fun u' hne => by rw [hother u' hne]
    rwa [hw'] at this
  case transfers =>
    rw [hbooks, hdrawn]
    have := h.transfers.publish (fun u => (l'.unit u).transfers) (u := u)
      (by rw [hself]; rfl) fun u' hne => by rw [hother u' hne]
    rwa [hw'] at this

/-- Every move keeps a ledger sound, as long as the counters stay in range. -/
theorem makes {m : Move} (h : l.Sound) (ho : l.Orderly) (hm : l.Makes m l')
    (hr : l'.drawn.InRange) : l'.Sound := by
  cases hm with
  | rest books drawn begins commits units requests =>
    exact h.shrink books drawn (fun q hq => by rwa [← requests]) fun u =>
      Or.inl (.congr units requests)
  | opened => exact h.begin ho
  | performed isOpen ready granted => exact h.finish isOpen granted hr
  | queued isOpen idle row known taken => exact h.wait isOpen row known taken (by simpa using hr)
  | withdrawn isOpen pending => exact h.withdraw isOpen pending
  | closed isOpen conflicts => exact h.close rfl rfl rfl rfl
  | published isOpen idle unique => exact h.publish isOpen rfl rfl rfl rfl

end Sound
end Ledger
end FundsLedger
