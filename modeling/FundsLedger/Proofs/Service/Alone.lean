import FundsLedger.Proofs.Accounting
import FundsLedger.Proofs.Service.Polls

/-!
Processes that are alone. If nobody else asks for the rows of a process and nothing makes the store
fail, the process is answered at every request, as long as it keeps its rules. So it goes on to its
end without a pause, unless it sleeps, and leaves the ledger as calm as it has found it.
-/

namespace FundsLedger

open Ledger

namespace Ledger

variable {l l' : Ledger} {u : UnitId} {c : Call} {unit : Option UnitId} {w : UnitOfWork}
variable {rows : AccountId → Prop}

/-- Nothing makes the store fail, and all requests for these rows are those of one unit of work, if
there are any. -/
structure Calm (l : Ledger) (rows : AccountId → Prop) (unit : Option UnitId) : Prop where
  failPoint : l.failPoint = none
  conflicts : l.conflicts = 0
  alone : ∀ q ∈ l.requests, rows q.row → unit = some q.unit

/-- A store that does not fail commits what is in nobody's way. -/
theorem commitUnit_ok (hfailPoint : l.failPoint = none) (hconflicts : l.conflicts = 0)
    (hunique : w.firstDuplicate? l.books = none) : (l.commitUnit u w).2 = .ok () := by
  have hno : ¬ 0 < l.conflicts := by
    rw [hconflicts]
    exact Nat.lt_irrefl 0
  have hinjected : l.injected? .commit = none := by
    rw [injected?, hfailPoint]
    rfl
  rw [commitUnit, hinjected]
  dsimp only
  rw [if_neg hno, hunique]

namespace Calm

theorem injected? (h : l.Calm rows unit) (point : FailPoint) : l.injected? point = none := by
  rw [Ledger.injected?, h.failPoint]
  rfl

/-- Whoever is alone does not wait. -/
theorem not_waits {row : AccountId} (h : l.Calm rows (some u)) (hrow : rows row) :
    ¬ l.Waits u row := by
  rintro ⟨hasked, htaken⟩
  exact htaken (.of_sole hasked fun u' hu' => (Option.some.inj (h.alone _ hu' hrow)).symm)

theorem begin (h : l.Calm rows none) : l.begin.1.Calm rows (some (l.begins + 1)) :=
  ⟨h.failPoint, h.conflicts, fun q hq hrow => nomatch h.alone q hq hrow⟩

theorem close (h : l.Calm rows (some u)) (hrequests : l'.requests = (l.close u).requests)
    (hfailPoint : l'.failPoint = l.failPoint) (hconflicts : l'.conflicts ≤ l.conflicts) :
    l'.Calm rows none where
  failPoint := hfailPoint.trans h.failPoint
  conflicts := Nat.le_zero.mp (hconflicts.trans (Nat.le_of_eq h.conflicts))
  alone q hq hrow := by
    rw [hrequests, Ledger.close, List.mem_filter] at hq
    have hself := Option.some.inj (h.alone q hq.1 hrow)
    simp [hself] at hq

theorem commitUnit_ledger (h : l.Calm rows (some u)) (w : UnitOfWork) :
    (l.commitUnit u w).1.Calm rows none := by
  unfold Ledger.commitUnit
  split
  · exact h.close rfl rfl (Nat.le_refl _)
  · split
    · exact h.close rfl rfl (Nat.sub_le _ _)
    · split
      · exact h.close rfl rfl (Nat.le_refl _)
      · exact h.close rfl rfl (Nat.le_refl _)

theorem called {o : Outcome c} (h : l.Calm rows (some u)) (hc : l.Called u c l' o) :
    l'.Calm rows (some u) := by
  cases hc with
  | refused | waiting => exact h
  | performed isOpen ready granted =>
    refine ⟨granted.failPoint.trans h.failPoint, granted.conflicts.trans h.conflicts,
      fun q hq hrow => ?_⟩
    rcases granted.mem hq with hq | ⟨id, -, rfl, -⟩
    · exact h.alone q hq hrow
    · rfl
  | queued isOpen idle row known taken =>
    refine ⟨request_failPoint.trans h.failPoint, request_conflicts.trans h.conflicts,
      fun q hq hrow => ?_⟩
    rcases mem_request.mp hq with hq | rfl
    · exact h.alone q hq hrow
    · rfl

/-- A process that is alone gets a reply to every request, if its calls are for these rows. -/
theorem respond {α : Type} {request : Request} {next : request.Reply → Process α}
    {view : Option View} (h : l.Calm rows unit) (hl : l.Lawful)
    (ha : View.Attached l unit view (.ask request next)) (hview : request = .begin ↔ view = none)
    (hrows : ∀ c row, request = .call c → c.row? = some row → rows row) :
    (∃ reply, (l.respond unit request).reply = some reply) ∧
      (l.respond unit request).ledger.Calm rows (l.respond unit request).unit := by
  cases ha with
  | idle =>
    obtain rfl := hview.mpr rfl
    exact ⟨⟨_, rfl⟩, h.begin⟩
  | @busy u v q _ fits pending =>
    cases request with
    | begin => exact absurd (hview.mp rfl) (Option.some_ne_none v)
    | call c =>
      have hresponds := fits.respond_call hl pending
      generalize l.respond (some u) (.call c) = response at hresponds
      cases hresponds with
      | waits row? waits fits' called =>
        exact absurd waits ((h.called called).not_waits (hrows c _ rfl row?))
      | answered answers fits' called => exact ⟨⟨_, rfl⟩, h.called called⟩
    | commit =>
      obtain rfl : q = none := by simpa [Process.call?] using pending
      rw [fits.respond_commit]
      exact ⟨⟨_, rfl⟩, h.commitUnit_ledger v.staged⟩
    | rollback =>
      obtain rfl : q = none := by simpa [Process.call?] using pending
      rw [fits.respond_rollback]
      exact ⟨⟨_, rfl⟩, h.close rfl rfl (Nat.le_refl _)⟩

end Calm
end Ledger

/-! ## Processes that do not sleep -/

namespace Process

variable {α β : Type} {l : Ledger} {unit : Option UnitId}

/-- The process never sleeps and makes only calls of this kind. -/
def Only (P : Call → Prop) : Process α → Prop
  | done _ => True
  | ask (.call c) next => P c ∧ ∀ r, (next r).Only P
  | ask .begin next | ask .commit next | ask .rollback next => ∀ r, (next r).Only P
  | note _ rest => rest.Only P
  | sleep .. => False
  | panic _ => True

theorem Only.next {P : Call → Prop} {request : Request} {next : request.Reply → Process α}
    (h : (ask request next).Only P) (r : request.Reply) : (next r).Only P := by
  cases request with
  | call c => exact h.2 r
  | begin | commit | rollback => exact h r

/-- Going on never takes an identifier back. -/
theorem drive_upTo (hurried : Bool) (l : Ledger) (unit : Option UnitId) (p : Process α) :
    l.drawn.UpTo (p.drive hurried l unit).ledger.drawn := by
  induction p generalizing l unit with
  | done a => exact .refl _
  | note event rest ih => exact ih l unit
  | sleep longest rest ih =>
    unfold drive
    split
    · exact .refl _
    · exact ih l unit
  | panic message => exact (l.abandonAny_serves unit).upTo
  | ask request next ih =>
    have hup := (l.respond_serves unit request).upTo
    unfold drive
    dsimp only
    split
    · exact hup.trans (ih _ _ _)
    · exact hup

/-- What a process does before it ends does not depend on what is to come. -/
theorem drive_bind {hurried : Bool} {p : Process α} {f : α → Process β} {l' : Ledger}
    {unit' : Option UnitId} {events : List Event} {a : α}
    (h : p.drive hurried l unit = ⟨l', unit', events, .settled (.answered a)⟩) :
    (p.bind f).drive hurried l unit =
      { (f a).drive hurried l' unit' with
        events := events ++ ((f a).drive hurried l' unit').events } := by
  induction p generalizing l unit events with
  | done a' =>
    cases h
    rfl
  | note event rest ih =>
    simp only [drive] at h
    cases hrest : rest.drive hurried l unit with
    | mk l₁ unit₁ events₁ standing₁ =>
      rw [hrest] at h
      cases h
      simp only [Process.bind, drive, ih hrest, List.cons_append]
  | sleep longest rest ih =>
    simp only [drive] at h
    split at h
    · cases h
    · rename_i hgoes
      simp only [Process.bind, drive, if_neg hgoes]
      exact ih h
  | panic message => cases h
  | ask request next ih =>
    simp only [drive] at h
    simp only [Process.bind, drive]
    split at h
    · exact ih _ h
    · cases h

/-- Going on with the answer never takes an identifier back. -/
theorem drive_bind_upTo (hurried : Bool) (l : Ledger) (unit : Option UnitId) (p : Process α)
    (f : α → Process β) :
    (p.drive hurried l unit).ledger.drawn.UpTo ((p.bind f).drive hurried l unit).ledger.drawn := by
  induction p generalizing l unit with
  | done a => exact drive_upTo hurried l unit (f a)
  | note event rest ih => exact ih l unit
  | sleep longest rest ih =>
    simp only [Process.bind, drive]
    split
    · exact .refl _
    · exact ih l unit
  | panic message => exact .refl _
  | ask request next ih =>
    simp only [Process.bind, drive]
    split
    · exact ih _ _ _
    · exact .refl _

end Process

namespace Work

variable {ε α : Type} [OfStoreError ε]

theorem Only.finishing {P : Call → Prop} {w : Work ε α} (h : w.Only P) : w.finishing.Only P := by
  induction w with
  | done result =>
    cases result with
    | ok a =>
      intro r
      cases r <;> trivial
    | error e =>
      intro r
      cases r <;> trivial
  | call c next ih => exact ⟨h.1, fun r => ih r (h.2 r)⟩
  | note event rest ih => exact ih h
  | panic message => trivial

theorem Only.atomically {P : Call → Prop} {w : Work ε α} (h : w.Only P) : w.atomically.Only P := by
  intro r
  cases r with
  | ok => exact Only.finishing h
  | error e => trivial

end Work

/-! ## Processes that are alone -/

/-- The rules of accounting for a task that finds the same books at every call and a store that does
not fail. -/
def Rules.calm (b : Books) : Rules where
  relies l := l.drawn.InRange ∧ l.books = b ∧ l.failPoint = none ∧ l.conflicts = 0
  calls v c := v.Permits c
  commits v := v.Settled

theorem Rules.calm_lenient (b : Books) : accounting.Lenient (calm b) :=
  ⟨fun _ h => h.1, fun _ _ h => h, fun _ h => h⟩

/-- The books after a task with this history, if they were these before and nobody else has
written. -/
def History.after (h : History) (b : Books) : Books :=
  match h.published with
  | some (_, after) => after
  | none => b

/-- A turn of a task that is alone leaves the books that its history tells. -/
theorem History.Passes.after {h h' : History} {l l' : Ledger} {b : Books} (hp : h.Passes l l' h')
    (hb : l.books = h.after b) : l'.books = h'.after b := by
  cases hp with
  | idle books commits => exact books.trans hb
  | saw books commits => exact books.trans hb
  | published unpublished commits => rfl

theorem Process.Keeps.view_of_ask {α : Type} {K : Rules} {post : History → α → Prop}
    {request : Request} {next : request.Reply → Process α} {h : History} {view : Option View}
    (hk : (ask request next).Keeps K post h view) :
    h.published = none ∧ (request = .begin ↔ view = none) := by
  cases request with
  | begin => exact ⟨hk.1, by simp [hk.2.1]⟩
  | call c =>
    obtain ⟨hnone, v, rfl, -⟩ := hk
    exact ⟨hnone, by simp⟩
  | commit =>
    obtain ⟨hnone, v, rfl, -⟩ := hk
    exact ⟨hnone, by simp⟩
  | rollback =>
    obtain ⟨hnone, hsome, -⟩ := hk
    obtain ⟨v, rfl⟩ := Option.isSome_iff_exists.mp hsome
    exact ⟨hnone, by simp⟩

/-- A process without sleep that is alone with its rows ends with an answer for which its rules
vouch. -/
theorem Process.Keeps.drive_alone {α : Type} {b : Books} {p : Process α} {rows : AccountId → Prop}
    {post : History → α → Prop} {h : History} {view : Option View} {l : Ledger}
    {unit : Option UnitId} (hurried : Bool) (hk : p.Keeps (Rules.calm b) post h view)
    (hp : p.Only fun c => ∀ row, c.row? = some row → rows row) (hl : l.Lawful)
    (ha : View.Attached l unit view p) (hc : l.Calm rows unit) (hb : l.books = h.after b)
    (hr : (p.drive hurried l unit).ledger.drawn.InRange) :
    ∃ l' events a h', p.drive hurried l unit = ⟨l', none, events, .settled (.answered a)⟩ ∧
      post h' a ∧ l'.Lawful ∧ l'.Calm rows none ∧ l'.books = h'.after b := by
  induction p generalizing l unit h view with
  | done a =>
    obtain ⟨rfl, hpost⟩ := hk
    cases ha
    exact ⟨l, [], a, h, rfl, hpost, hl, hc, hb⟩
  | note event rest ih =>
    have ha' : View.Attached l unit view rest := by
      cases ha with
      | idle => exact .idle
      | busy fits pending => exact .busy fits (Or.inl (by simpa [Process.call?] using pending))
    obtain ⟨l', events, a, h', hdrive, hpost⟩ := ih hk hp hl ha' hc hb hr
    exact ⟨l', event :: events, a, h', by rw [drive, hdrive], hpost⟩
  | sleep longest rest ih => exact hp.elim
  | panic message => exact hk.elim
  | ask request next ih =>
    obtain ⟨hnone, hview⟩ := hk.view_of_ask
    have hb' : l.books = b := by
      rw [hb, History.after, hnone]
    have hrange := hr.of_upTo (drive_upTo hurried l unit _)
    have hrows : ∀ c row, request = .call c → c.row? = some row → rows row := by
      rintro c row rfl
      exact hp.1 row
    obtain ⟨⟨reply, hreply⟩, hcalm⟩ := hc.respond hl ha hview hrows
    have hadvanced := hk.advance hl ⟨hrange, hb', hc.failPoint, hc.conflicts⟩ ha
    have hdrive : (ask request next).drive hurried l unit = (next reply).drive hurried
        (l.respond unit request).ledger (l.respond unit request).unit := by
      simp only [drive, hreply]
    rw [hdrive] at hr ⊢
    simp only [Process.advance, hreply] at hadvanced
    have hl' := (l.respond_serves unit request).lawful hl
    generalize (l.respond unit request).ledger = l', (l.respond unit request).unit = unit' at *
    cases hadvanced with
    | went keeps attached passes releases =>
      exact ih reply keeps (hp.next reply) hl' attached hcalm (passes.after hb) hr

end FundsLedger
