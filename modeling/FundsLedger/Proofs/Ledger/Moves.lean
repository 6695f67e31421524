import FundsLedger.Ledger.Step
import FundsLedger.Proofs.Ledger.Queue
import FundsLedger.Proofs.Table

/-!
The moves of a ledger. Whatever a client or a unit of work does, the ledger makes one of seven
moves, and each move concerns one unit of work at most. Invariants are proved move by move; nothing
after this module takes the step functions apart again.
-/

namespace FundsLedger

/-- A kind of change, with the unit of work that it concerns. -/
inductive Move where
  | rest
  | opened (u : UnitId)
  | performed (u : UnitId) (c : Call)
  | queued (u : UnitId) (c : Call)
  | withdrawn (u : UnitId)
  | closed (u : UnitId)
  | published (u : UnitId)

/-- The unit of work whose business a move is. -/
def Move.unit? : Move → Option UnitId
  | rest => none
  | opened u | performed u _ | queued u _ | withdrawn u | closed u | published u => some u

namespace Ledger

variable {l l' asked : Ledger} {u : UnitId} {w : UnitOfWork} {c : Call}

/-- A unit of work as it stands; one that is not open has staged nothing. -/
def unit (l : Ledger) (u : UnitId) : UnitOfWork := (l.units.find? u).getD UnitOfWork.fresh

theorem unit_of_find? (h : l.units.find? u = some w) : l.unit u = w := by
  simp [unit, h]

theorem unit_congr (h : l'.units = l.units) (u : UnitId) : l'.unit u = l.unit u := by
  simp [unit, h]

theorem unit_insert (h : l'.units = l.units.insert u w) (u' : UnitId) :
    l'.unit u' = if u' = u then w else l.unit u' := by
  rw [unit, h, Table.find?_insert]
  split <;> rfl

theorem unit_erase (h : l'.units = l.units.erase u) (u' : UnitId) :
    l'.unit u' = if u' = u then UnitOfWork.fresh else l.unit u' := by
  rw [unit, h, Table.find?_erase]
  split <;> rfl

/-- The lock that a call needs is there: `asked` is the ledger after the request for it. -/
inductive Grants (l : Ledger) (u : UnitId) (w : UnitOfWork) (c : Call) : Ledger → Prop
  | free (row : c.row? = none) : Grants l u w c l
  | held {id : AccountId} (row : c.row? = some id) (holds : (l.request u id).Holds u id)
      (known : (⟨u, id⟩ : LockRequest) ∈ l.requests ∨ (w.visible? l.books id).isSome) :
      Grants l u w c (l.request u id)

theorem Grants.holds {id : AccountId} (h : l.Grants u w c asked) (hrow : c.row? = some id) :
    asked.Holds u id := by
  cases h with
  | free row => rw [hrow] at row; cases row
  | held row holds known =>
    rw [hrow] at row
    cases row
    exact holds

theorem Grants.requests (h : l.Grants u w c asked) :
    ∃ more, asked.requests = l.requests ++ more := by
  cases h with
  | free row => exact ⟨[], by simp⟩
  | held row holds known => exact l.request_requests u _

theorem Grants.mem {q : LockRequest} (h : l.Grants u w c asked) (hq : q ∈ asked.requests) :
    q ∈ l.requests ∨ ∃ id, c.row? = some id ∧ q = ⟨u, id⟩ ∧
      (q ∈ l.requests ∨ (w.visible? l.books id).isSome) := by
  cases h with
  | free row => exact Or.inl hq
  | @held id row holds known =>
    rcases mem_request.mp hq with hq | rfl
    · exact Or.inl hq
    · exact Or.inr ⟨id, row, rfl, known⟩

theorem Grants.books (h : l.Grants u w c asked) : asked.books = l.books := by
  cases h <;> simp

theorem Grants.drawn (h : l.Grants u w c asked) : asked.drawn = l.drawn := by
  cases h <;> simp

theorem Grants.begins (h : l.Grants u w c asked) : asked.begins = l.begins := by
  cases h <;> simp

theorem Grants.commits (h : l.Grants u w c asked) : asked.commits = l.commits := by
  cases h <;> simp

theorem Grants.units (h : l.Grants u w c asked) : asked.units = l.units := by
  cases h <;> simp

theorem Grants.clock (h : l.Grants u w c asked) : asked.clock = l.clock := by
  cases h <;> simp

theorem Grants.failPoint (h : l.Grants u w c asked) : asked.failPoint = l.failPoint := by
  cases h <;> simp

theorem Grants.conflicts (h : l.Grants u w c asked) : asked.conflicts = l.conflicts := by
  cases h <;> simp

/-- How a call goes that a unit of work starts or goes on with. -/
inductive Called (l : Ledger) (u : UnitId) (c : Call) : Ledger → Outcome c → Prop
  | refused {w : UnitOfWork} {e : StoreError} (isOpen : l.units.find? u = some w)
      (idle : w.pending = none) (refusal : l.refusal? w c = some e) :
      Called l u c l (.answered (.error e))
  | performed {w : UnitOfWork} {asked : Ledger} (isOpen : l.units.find? u = some w)
      (ready : w.pending = none ∨ w.pending = some c) (granted : l.Grants u w c asked) :
      Called l u c (asked.finish u w c).1 (asked.finish u w c).2
  | queued {w : UnitOfWork} {id : AccountId} (isOpen : l.units.find? u = some w)
      (idle : w.pending = none) (row : c.row? = some id)
      (known : (w.visible? l.books id).isSome) (taken : ¬ (l.request u id).Holds u id) :
      Called l u c
        { l.request u id with units := l.units.insert u { w with pending := some c } } .waits
  | waiting {w : UnitOfWork} {id : AccountId} (isOpen : l.units.find? u = some w)
      (pending : w.pending = some c) (row : c.row? = some id) (taken : ¬ l.Holds u id) :
      Called l u c l .waits

/-- A call that needs a row and is not refused sees the account of the row. -/
theorem visible_of_not_refused {id : AccountId} (hrow : c.row? = some id)
    (h : l.refusal? w c = none) : (w.visible? l.books id).isSome := by
  cases hv : w.visible? l.books id with
  | some a => rfl
  | none =>
    cases c <;> simp only [Call.row?, reduceCtorEq, Option.some.injEq] at hrow
    all_goals
      subst hrow
      simp [refusal?, hv] at h

theorem call?_called {o : Outcome c} (h : l.call? u c = some (l', o)) : l.Called u c l' o := by
  unfold call? at h
  split at h
  · cases h
  · rename_i w hw
    split at h
    · cases h
    · rename_i hidle
      have hidle : w.pending = none := by simpa using hidle
      split at h
      · rename_i e he
        cases h
        exact .refused hw hidle he
      · rename_i hnot
        split at h
        · rename_i hrow
          cases h
          exact .performed hw (Or.inl hidle) (.free hrow)
        · rename_i id hrow
          have hknown := visible_of_not_refused hrow hnot
          dsimp only at h
          split at h
          · rename_i hholds
            cases h
            exact .performed hw (Or.inl hidle) (.held hrow hholds (Or.inr hknown))
          · rename_i htaken
            cases h
            simpa using Called.queued hw hidle hrow hknown htaken

theorem resume?_called {o : Outcome c} (h : l.resume? u c = some (l', o)) :
    l.Called u c l' o := by
  unfold resume? at h
  split at h
  · cases h
  · rename_i w hw
    split at h
    · rename_i hpending
      split at h
      · cases h
      · rename_i id hrow
        split at h
        · rename_i hholds
          cases h
          have hasked : l.request u id = l := request_of_mem hholds.mem
          have hgranted : l.Grants u w c l := by
            have := Grants.held (w := w) hrow (by rwa [hasked]) (Or.inl hholds.mem)
            rwa [hasked] at this
          exact .performed hw (Or.inr hpending) hgranted
        · rename_i htaken
          cases h
          exact .waiting hw hpending hrow htaken
    · cases h

/-- The ledger makes the move. -/
inductive Makes (l : Ledger) : Move → Ledger → Prop
  | rest {l' : Ledger} (books : l'.books = l.books) (drawn : l'.drawn = l.drawn)
      (begins : l'.begins = l.begins) (commits : l'.commits = l.commits)
      (units : l'.units = l.units) (requests : l'.requests = l.requests) : Makes l .rest l'
  | opened : Makes l (.opened (l.begins + 1)) l.begin.1
  | performed {u : UnitId} {c : Call} {w : UnitOfWork} {asked : Ledger}
      (isOpen : l.units.find? u = some w) (ready : w.pending = none ∨ w.pending = some c)
      (granted : l.Grants u w c asked) : Makes l (.performed u c) (asked.finish u w c).1
  | queued {u : UnitId} {c : Call} {w : UnitOfWork} {id : AccountId}
      (isOpen : l.units.find? u = some w) (idle : w.pending = none) (row : c.row? = some id)
      (known : (w.visible? l.books id).isSome) (taken : ¬ (l.request u id).Holds u id) :
      Makes l (.queued u c)
        { l.request u id with units := l.units.insert u { w with pending := some c } }
  | withdrawn {u : UnitId} {c : Call} {w : UnitOfWork} (isOpen : l.units.find? u = some w)
      (pending : w.pending = some c) : Makes l (.withdrawn u) (l.withdraw u)
  | closed {u : UnitId} {w : UnitOfWork} (isOpen : l.units.find? u = some w) (conflicts : Nat) :
      Makes l (.closed u) { l.close u with conflicts }
  | published {u : UnitId} {w : UnitOfWork} (isOpen : l.units.find? u = some w)
      (idle : w.pending = none) (unique : w.firstDuplicate? l.books = none) :
      Makes l (.published u)
        { l.close u with books := w.publish l.books, commits := l.commits + 1 }

theorem Makes.refl (l : Ledger) : l.Makes .rest l := .rest rfl rfl rfl rfl rfl rfl

theorem Called.makes {o : Outcome c} (h : l.Called u c l' o) :
    ∃ m, l.Makes m l' ∧ (m = .rest ∨ m.unit? = some u) := by
  cases h with
  | refused isOpen idle refusal => exact ⟨.rest, .refl l, Or.inl rfl⟩
  | performed isOpen ready granted =>
    exact ⟨.performed u c, .performed isOpen ready granted, Or.inr rfl⟩
  | queued isOpen idle row known taken =>
    exact ⟨.queued u c, .queued isOpen idle row known taken, Or.inr rfl⟩
  | waiting isOpen pending row taken => exact ⟨.rest, .refl l, Or.inl rfl⟩

theorem withdraw_of_pending (hw : l.units.find? u = some w) (hp : w.pending = some c) :
    l.withdraw u = { l with
      units := l.units.insert u { w with pending := none }
      requests := l.requests.filter fun r => !(r.unit = u && c.row? = some r.row) } := by
  simp [withdraw, hw, hp]

/-! ## How a unit of work ends -/

/-- How the commit of a unit of work goes. -/
inductive Committed (l : Ledger) (u : UnitId) (w : UnitOfWork) :
    Ledger → Except StoreError Unit → Prop
  | failed (e : StoreError) (conflicts : Nat) :
      Committed l u w { l.close u with conflicts } (.error e)
  | published (unique : w.firstDuplicate? l.books = none) :
      Committed l u w { l.close u with books := w.publish l.books, commits := l.commits + 1 }
        (.ok ())

theorem commitUnit_committed (l : Ledger) (u : UnitId) (w : UnitOfWork) :
    l.Committed u w (l.commitUnit u w).1 (l.commitUnit u w).2 := by
  unfold commitUnit
  split
  · exact .failed _ l.conflicts
  · split
    · exact .failed .conflict (l.conflicts - 1)
    · split
      · exact .failed _ l.conflicts
      · rename_i hunique
        exact .published hunique

theorem Committed.makes {r : Except StoreError Unit} (hw : l.units.find? u = some w)
    (hidle : w.pending = none) (h : l.Committed u w l' r) :
    l.Makes (if r.isOk then .published u else .closed u) l' := by
  cases h with
  | failed e conflicts => exact .closed hw conflicts
  | published unique => exact .published hw hidle unique

theorem commit?_eq_some {r : Except StoreError Unit} (h : l.commit? u = some (l', r)) :
    ∃ w, l.units.find? u = some w ∧ w.pending = none ∧ (l', r) = l.commitUnit u w := by
  unfold commit? at h
  split at h
  · cases h
  · rename_i w hw
    split at h
    · cases h
    · rename_i hidle
      exact ⟨w, hw, by simpa using hidle, (Option.some.inj h).symm⟩

theorem rollback?_eq_some {r : Except StoreError Unit} (h : l.rollback? u = some (l', r)) :
    ∃ w, l.units.find? u = some w ∧ w.pending = none ∧ l' = l.close u ∧ r = .ok () := by
  unfold rollback? at h
  split at h
  · cases h
  · rename_i w hw
    split at h
    · cases h
    · rename_i hidle
      cases h
      exact ⟨w, hw, by simpa using hidle, rfl, rfl⟩

theorem makes_close (hw : l.units.find? u = some w) : l.Makes (.closed u) (l.close u) :=
  .closed hw l.conflicts

theorem abandon_makes (l : Ledger) (u : UnitId) :
    ∃ m, l.Makes m (l.abandon u).1 ∧ (m = .rest ∨ m = .closed u) := by
  unfold abandon
  split
  · exact ⟨.rest, .refl l, Or.inl rfl⟩
  · rename_i w hw
    exact ⟨.closed u, makes_close hw, Or.inr rfl⟩

/-- Every step of the ledger is a move, and one of the unit of work that the step is about, unless
it opens a unit of work. -/
theorem step_makes (l : Ledger) (a : Action) :
    ∃ m, l.Makes m (l.step a).1 ∧
      (m = .rest ∨ m = .opened (l.begins + 1) ∨ m.unit? = a.unit?) := by
  have stay : ∃ m, l.Makes m l ∧
      (m = .rest ∨ m = .opened (l.begins + 1) ∨ m.unit? = a.unit?) :=
    ⟨.rest, .refl l, Or.inl rfl⟩
  cases a with
  | begin => exact ⟨.opened (l.begins + 1), .opened, Or.inr (Or.inl rfl)⟩
  | call u c =>
    simp only [step]
    split
    · rename_i l' o h
      obtain ⟨m, hm, hu⟩ := (call?_called h).makes
      exact ⟨m, hm, hu.imp id Or.inr⟩
    · exact stay
  | resume u =>
    simp only [step]
    split
    · exact stay
    · split
      · rename_i c _ l' o h
        obtain ⟨m, hm, hu⟩ := (resume?_called h).makes
        exact ⟨m, hm, hu.imp id Or.inr⟩
      · exact stay
  | withdraw u =>
    simp only [step]
    cases hw : l.units.find? u with
    | none => simpa [withdraw, hw] using stay
    | some w =>
      cases hp : w.pending with
      | none => simpa [withdraw, hw, hp] using stay
      | some c => exact ⟨.withdrawn u, .withdrawn hw hp, Or.inr (Or.inr rfl)⟩
  | commit u =>
    simp only [step]
    split
    · rename_i l' r h
      obtain ⟨w, hw, hidle, heq⟩ := commit?_eq_some h
      have hc := commitUnit_committed l u w
      rw [← heq] at hc
      -- Published or closed: either way it is a move of this unit of work.
      refine ⟨_, hc.makes hw hidle, Or.inr (Or.inr ?_)⟩
      split <;> rfl
    · exact stay
  | rollback u =>
    simp only [step]
    split
    · rename_i l' r h
      obtain ⟨w, hw, -, rfl, -⟩ := rollback?_eq_some h
      exact ⟨.closed u, makes_close hw, Or.inr (Or.inr rfl)⟩
    · exact stay
  | abandon u =>
    obtain ⟨m, hm, rfl | rfl⟩ := abandon_makes l u
    · exact ⟨.rest, hm, Or.inl rfl⟩
    · exact ⟨.closed u, hm, Or.inr (Or.inr rfl)⟩
  | failAt point => exact ⟨.rest, .rest rfl rfl rfl rfl rfl rfl, Or.inl rfl⟩
  | injectConflicts n => exact ⟨.rest, .rest rfl rfl rfl rfl rfl rfl, Or.inl rfl⟩
  | setClock now => exact ⟨.rest, .rest rfl rfl rfl rfl rfl rfl, Or.inl rfl⟩

end Ledger
end FundsLedger
