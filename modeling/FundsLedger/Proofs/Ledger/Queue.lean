import FundsLedger.Ledger.Ending

/-!
The line of lock requests. Only the requests decide who holds a row: the first request for the row
does. So a holder keeps the row when requests are added behind or when requests of others are taken
out, and every row that somebody asks for has a holder.
-/

namespace FundsLedger.Ledger

variable {l l' : Ledger} {u u' : UnitId} {row : AccountId}

theorem holds_iff :
    l.Holds u row ↔ l.requests.find? (·.row = row) = some ⟨u, row⟩ := by
  unfold Holds holder?
  constructor
  · intro h
    obtain ⟨q, hq, rfl⟩ := Option.map_eq_some_iff.mp h
    have hrow : q.row = row := by simpa using List.find?_some hq
    rw [hq, ← hrow]
  · intro h
    simp [h]

theorem holds_congr (h : l'.requests = l.requests) : l'.Holds u row ↔ l.Holds u row := by
  rw [holds_iff, holds_iff, h]

/-- A row has one holder. -/
theorem Holds.unique (h : l.Holds u row) (h' : l.Holds u' row) : u = u' := by
  unfold Holds at h h'
  rw [h] at h'
  exact Option.some.inj h'

theorem Holds.mem (h : l.Holds u row) : (⟨u, row⟩ : LockRequest) ∈ l.requests :=
  List.mem_of_find?_eq_some (holds_iff.mp h)

/-- Whoever asks for a row, somebody holds it. -/
theorem exists_holder (h : (⟨u, row⟩ : LockRequest) ∈ l.requests) :
    ∃ holder, l.Holds holder row := by
  cases hfind : l.requests.find? (·.row = row) with
  | none =>
    rw [List.find?_eq_none] at hfind
    have := hfind _ h
    simp at this
  | some q =>
    have hrow : q.row = row := by simpa using List.find?_some hfind
    refine ⟨q.unit, holds_iff.mpr ?_⟩
    rw [hfind, ← hrow]

/-- A row for which one unit of work alone asks is held by it. -/
theorem Holds.of_sole (h : (⟨u, row⟩ : LockRequest) ∈ l.requests)
    (hsole : ∀ u', (⟨u', row⟩ : LockRequest) ∈ l.requests → u' = u) : l.Holds u row := by
  obtain ⟨holder, hholder⟩ := exists_holder h
  have heq : holder = u := hsole holder hholder.mem
  rwa [heq] at hholder

/-! ## What changes of the line keep -/

theorem Holds.append {more : List LockRequest} (h : l.Holds u row)
    (hreq : l'.requests = l.requests ++ more) : l'.Holds u row := by
  rw [holds_iff] at h ⊢
  rw [hreq, List.find?_append, h]
  rfl

theorem Holds.filter {keep : LockRequest → Bool} (h : l.Holds u row)
    (hreq : l'.requests = l.requests.filter keep) (hkeep : keep ⟨u, row⟩ = true) :
    l'.Holds u row := by
  rw [holds_iff] at h ⊢
  rw [hreq]
  obtain ⟨hrow, as, bs, hlist, has⟩ := List.find?_eq_some_iff_append.mp h
  refine List.find?_eq_some_iff_append.mpr
    ⟨hrow, as.filter keep, bs.filter keep, ?_, fun q hq => has q (List.mem_filter.mp hq).1⟩
  rw [hlist, List.filter_append, List.filter_cons_of_pos hkeep]

theorem mem_request {q : LockRequest} :
    q ∈ (l.request u row).requests ↔ q ∈ l.requests ∨ q = ⟨u, row⟩ := by
  unfold request
  split
  · rename_i hmem
    constructor
    · exact Or.inl
    · rintro (hq | rfl)
      · exact hq
      · exact hmem
  · simp

theorem request_requests (l : Ledger) (u : UnitId) (row : AccountId) :
    ∃ more, (l.request u row).requests = l.requests ++ more := by
  unfold request
  split
  · exact ⟨[], by simp⟩
  · exact ⟨_, rfl⟩

theorem request_of_mem (h : (⟨u, row⟩ : LockRequest) ∈ l.requests) : l.request u row = l := by
  rw [request, if_pos h]

@[simp] theorem request_books : (l.request u row).books = l.books := by
  unfold request; split <;> rfl

@[simp] theorem request_drawn : (l.request u row).drawn = l.drawn := by
  unfold request; split <;> rfl

@[simp] theorem request_units : (l.request u row).units = l.units := by
  unfold request; split <;> rfl

@[simp] theorem request_begins : (l.request u row).begins = l.begins := by
  unfold request; split <;> rfl

@[simp] theorem request_commits : (l.request u row).commits = l.commits := by
  unfold request; split <;> rfl

@[simp] theorem request_clock : (l.request u row).clock = l.clock := by
  unfold request; split <;> rfl

@[simp] theorem request_conflicts : (l.request u row).conflicts = l.conflicts := by
  unfold request; split <;> rfl

@[simp] theorem request_failPoint : (l.request u row).failPoint = l.failPoint := by
  unfold request; split <;> rfl

theorem Holds.close (h : l.Holds u' row) (hne : u' ≠ u) : (l.close u).Holds u' row :=
  h.filter rfl (by simpa using hne)

end FundsLedger.Ledger
