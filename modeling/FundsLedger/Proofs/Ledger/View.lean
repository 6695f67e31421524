import FundsLedger.Proofs.Ledger.Lawful
import FundsLedger.Service

/-!
What a task knows. A task knows what its unit of work has staged and, of every row that it has
locked, the account that is committed there: nobody else can change either. A view is this
knowledge, and it fits the ledger whatever others do in between. The task's own calls are answered
from it, as far as rows are concerned that it has locked.
-/

namespace FundsLedger

/-- What a task knows of its open unit of work: what it has staged, and the rows that it has locked,
each with the account committed there, if there is one. -/
structure View where
  staged : UnitOfWork
  locked : Table (Option Account)

namespace Ledger

variable {l l' asked : Ledger} {u : UnitId} {w : UnitOfWork} {c : Call}

/-- Whether a unit of work waits does not matter to the calls that it makes. -/
theorem perform_pending (l : Ledger) (w : UnitOfWork) (p : Option Call) (c : Call) :
    l.perform { w with pending := p } c =
      ⟨(l.perform w c).result, (l.perform w c).drawn,
        { (l.perform w c).unit with pending := p }⟩ := by
  have hvisible : ∀ b id, ({ w with pending := p } : UnitOfWork).visible? b id =
      w.visible? b id := fun _ _ => rfl
  have hduplicate : ∀ b a, ({ w with pending := p } : UnitOfWork).isDuplicate b a =
      w.isDuplicate b a := fun _ _ => rfl
  have hsum : ∀ b id, ({ w with pending := p } : UnitOfWork).entrySum? b id =
      w.entrySum? b id := fun _ _ => rfl
  cases c <;> simp only [perform, hvisible, hduplicate, hsum]
  case createAccount => split <;> rfl
  case getAccount => split <;> rfl
  case getForUpdate => split <;> rfl
  case addBalance =>
    split
    · rfl
    · split <;> rfl
  case appendEntry =>
    split
    · rfl
    · split <;> rfl
  case entrySum => split <;> rfl
  case appendTransfer =>
    split
    · rfl
    · split <;> rfl
  all_goals rfl

theorem commitUnit_pending (l : Ledger) (u : UnitId) (w : UnitOfWork) (p : Option Call) :
    l.commitUnit u { w with pending := p } = l.commitUnit u w :=
  rfl

/-- A unit of work that is idle, or waits in the call for a row, can make it or go on with it. -/
theorem exists_called (hw : l.units.find? u = some w)
    (ready : w.pending = none ∨ (w.pending = some c ∧ c.row?.isSome)) :
    ∃ l' o, (l.resume? u c).or (l.call? u c) = some (l', o) ∧ l.Called u c l' o := by
  -- One of the two branches applies: a call that waits is taken up again, any other is new.
  suffices h : ∃ p, (l.resume? u c).or (l.call? u c) = some p by
    obtain ⟨⟨l', o⟩, h⟩ := h
    refine ⟨l', o, h, ?_⟩
    rcases Option.or_eq_some_iff.mp h with h | ⟨-, h⟩
    · exact resume?_called h
    · exact call?_called h
  apply Option.isSome_iff_exists.mp
  rw [Option.isSome_or, Bool.or_eq_true]
  rcases ready with hidle | ⟨hpending, hrow⟩
  · right
    simp only [call?, hw, hidle]
    split
    · contradiction
    · split
      · rfl
      · split
        · rfl
        · split <;> rfl
  · left
    obtain ⟨row, hrow⟩ := Option.isSome_iff_exists.mp hrow
    simp only [resume?, hw, hpending, if_pos, hrow]
    split <;> rfl

theorem Called.books {o : Outcome c} (h : l.Called u c l' o) : l'.books = l.books := by
  cases h with
  | refused | waiting => rfl
  | performed isOpen ready granted => exact granted.books
  | queued => exact request_books

theorem Called.commits {o : Outcome c} (h : l.Called u c l' o) : l'.commits = l.commits := by
  cases h with
  | refused | waiting => rfl
  | performed isOpen ready granted => exact granted.commits
  | queued => exact request_commits

end Ledger

namespace View

open Ledger

variable {v v' : View} {l l' asked : Ledger} {u : UnitId} {c : Call} {p : Option Call}

/-- The view of a unit of work that has just begun. -/
def fresh : View := ⟨UnitOfWork.fresh, Table.empty⟩

/-- The rows that the task knows to be locked once a call has been carried out. -/
def lockedAfter (v : View) (l : Ledger) (c : Call) : Table (Option Account) :=
  match c.row? with
  | none => v.locked
  | some row => v.locked.insert row (l.books.accounts.find? row)

/-- The view after a call has been carried out. -/
def after (v : View) (l : Ledger) (c : Call) : View :=
  ⟨(l.perform v.staged c).unit, v.lockedAfter l c⟩

/-- The view is right about a unit of work that waits in the call `p`, or in none. -/
structure Fits (v : View) (l : Ledger) (u : UnitId) (p : Option Call) : Prop where
  stands : l.units.find? u = some { v.staged with pending := p }
  held : ∀ row a, v.locked.find? row = some a → l.Holds u row
  asked : ∀ row, (⟨u, row⟩ : LockRequest) ∈ l.requests →
    (v.locked.find? row).isSome ∨ ∃ c, p = some c ∧ c.row? = some row
  rows : l.drawn.InRange → ∀ row a, v.locked.find? row = some a → l.books.accounts.find? row = a

/-- How a call may be answered, and what the task knows then. -/
inductive Answers (v : View) (l : Ledger) (c : Call) : c.Result → View → Prop
  | refused {e : StoreError} (refusal : l.refusal? v.staged c = some e) :
      Answers v l c (.error e) v
  | performed : Answers v l c (l.perform v.staged c).result (v.after l c)

theorem find?_lockedAfter (v : View) (l : Ledger) (c : Call) (row : Int) :
    (v.lockedAfter l c).find? row =
      if c.row? = some row then some (l.books.accounts.find? row) else v.locked.find? row := by
  unfold lockedAfter
  cases hrow : c.row? with
  | none => simp
  | some id =>
    rw [Table.find?_insert]
    by_cases heq : row = id
    · simp [heq]
    · have hne : id ≠ row := fun h => heq h.symm
      simp [heq, hne]

namespace Fits

theorem unit_eq (h : v.Fits l u p) : l.unit u = { v.staged with pending := p } :=
  unit_of_find? h.stands

/-- What others do leaves the view right. -/
theorem spares (h : v.Fits l u p) (hs : l.Spares l' u) (hup : l.drawn.UpTo l'.drawn) :
    v.Fits l' u p where
  stands := hs.unit.trans h.stands
  held row a ha := hs.holds row (h.held row a ha)
  asked row hq := h.asked row ((hs.requests row).mp hq)
  rows hr row a ha := by
    have hr : l.drawn.InRange := hr.of_upTo hup
    rw [hs.rows hr row (h.held row a ha)]
    exact h.rows hr row a ha

/-- A unit of work that has just begun has done nothing. -/
theorem begin (h : l.Lawful) : fresh.Fits l.begin.1 (l.begins + 1) none where
  stands := by simp [Ledger.begin, fresh, UnitOfWork.fresh]
  held row a ha := by simp [fresh] at ha
  asked row hq := by
    have := h.orderly.numbered _ (h.orderly.opened _ row hq)
    omega
  rows _ row a ha := by simp [fresh] at ha

/-- A call that has been carried out leaves the view that says so. -/
theorem perform (h : v.Fits l u p)
    (granted : l.Grants u { v.staged with pending := p } c asked)
    (hp : ∀ d, p = some d → d = c) :
    (v.after l c).Fits (asked.finish u { v.staged with pending := p } c).1 u none := by
  obtain ⟨more, hmore⟩ := granted.requests
  constructor
  case stands =>
    simp [finish, granted.perform, perform_pending, after]
  case held =>
    intro row a ha
    simp only [after, find?_lockedAfter] at ha
    split at ha
    · rename_i hrow
      exact granted.holds hrow
    · exact (h.held row a ha).append hmore
  case asked =>
    intro row hq
    simp only [after, find?_lockedAfter]
    -- Every row that was asked for is either known to be locked or the one just granted.
    rcases granted.mem hq with hq | ⟨id, hrow, heq, -⟩
    · rcases h.asked row hq with hlocked | ⟨d, hd, hrow⟩
      · left
        split
        · rfl
        · exact hlocked
      · rw [hp d hd] at hrow
        simp [hrow]
    · cases heq
      simp [hrow]
  case rows =>
    intro hr row a ha
    simp only [after, find?_lockedAfter] at ha
    have hbooks : (asked.finish u { v.staged with pending := p } c).1.books = l.books :=
      granted.books
    rw [hbooks]
    split at ha
    · exact Option.some.inj ha
    -- The rows known before have not changed: the call itself writes no books.
    · refine h.rows (hr.of_upTo ?_) row a ha
      have := (perform_staging l { v.staged with pending := p } c).upTo
      rw [← granted.perform] at this
      exact this

/-- A call that has to wait leaves the view as it was. -/
theorem wait {id : AccountId} (h : v.Fits l u none) (hrow : c.row? = some id) :
    v.Fits { l.request u id with
      units := l.units.insert u { v.staged with pending := some c } } u (some c) := by
  obtain ⟨more, hmore⟩ := l.request_requests u id
  constructor
  case stands =>
    simp
  case held =>
    intro row a ha
    exact (h.held row a ha).append hmore
  case asked =>
    intro row hq
    rcases mem_request.mp hq with hq | heq
    · rcases h.asked row hq with hlocked | ⟨d, hd, -⟩
      · exact Or.inl hlocked
      · cases hd
    · cases heq
      exact Or.inr ⟨c, rfl, hrow⟩
  case rows =>
    intro hr row a ha
    show (l.request u id).books.accounts.find? row = a
    rw [request_books]
    refine h.rows ?_ row a ha
    simpa using hr

end Fits

/-- How the ledger responds to a call of the task: the call waits for a row, or it is answered. -/
inductive Responds (v : View) (l : Ledger) (u : UnitId) (c : Call) : Response (.call c) → Prop
  | waits {l' : Ledger} {row : AccountId} (row? : c.row? = some row) (waits : l'.Waits u row)
      (fits : v.Fits l' u (some c)) (called : l.Called u c l' .waits) :
      Responds v l u c ⟨l', some u, none⟩
  | answered {l' : Ledger} {r : c.Result} {v' : View} (answers : v.Answers l c r v')
      (fits : v'.Fits l' u none) (called : l.Called u c l' (.answered r)) :
      Responds v l u c ⟨l', some u, some r⟩

theorem Fits.respond_call (h : v.Fits l u p) (hl : l.Lawful) (hp : p = none ∨ p = some c) :
    v.Responds l u c (l.respond (some u) (.call c)) := by
  have hready : p = none ∨ (p = some c ∧ c.row?.isSome) := by
    refine hp.imp_right fun hp => ⟨hp, ?_⟩
    obtain ⟨row, hrow, -⟩ := hl.orderly.asks u c (by rw [h.unit_eq, hp])
    simp [hrow]
  have hcalls : ∀ d, p = some d → d = c := by
    rintro d rfl
    simpa using hp
  obtain ⟨l', o, hsome, hcalled⟩ := exists_called h.stands hready
  have hrespond : l.respond (some u) (.call c) =
      (match o with
        | .answered r => ⟨l', some u, some r⟩
        | .waits => ⟨l', some u, none⟩) := by
    simp only [respond, Option.bind_some, hsome]
    cases o <;> rfl
  rw [hrespond]
  have hcalled' := hcalled
  cases hcalled with
  | @refused w e isOpen idle refusal =>
    rw [h.stands] at isOpen
    cases isOpen
    cases idle
    exact .answered (.refused refusal) h hcalled'
  | @performed w asked isOpen ready granted =>
    rw [h.stands] at isOpen
    cases isOpen
    have hfits := h.perform granted hcalls
    simp only [finish, granted.perform, perform_pending] at hfits hcalled' ⊢
    exact .answered .performed hfits hcalled'
  | @queued w id isOpen idle row known taken =>
    rw [h.stands] at isOpen
    cases isOpen
    cases idle
    refine .waits row ⟨mem_request.mpr (Or.inr rfl), taken⟩ (h.wait row) hcalled'
  | @waiting w id isOpen pending row taken =>
    rw [h.stands] at isOpen
    cases isOpen
    cases pending
    -- The request was made when the call began to wait, and it is still there.
    obtain ⟨row', hrow', hq⟩ := hl.orderly.asks u c (by rw [h.unit_eq])
    rw [row] at hrow'
    cases hrow'
    exact .waits row ⟨hq, taken⟩ h hcalled'

/-- A commit of the task goes as the commit of what it has staged. -/
theorem Fits.respond_commit (h : v.Fits l u none) :
    l.respond (some u) .commit =
      ⟨(l.commitUnit u v.staged).1, none, some (l.commitUnit u v.staged).2⟩ := by
  simp [respond, endingResponse, commit?, h.stands, commitUnit_pending]

theorem Fits.respond_rollback (h : v.Fits l u none) :
    l.respond (some u) .rollback = ⟨l.close u, none, some (.ok ())⟩ := by
  simp [respond, endingResponse, rollback?, h.stands]

end View
end FundsLedger
