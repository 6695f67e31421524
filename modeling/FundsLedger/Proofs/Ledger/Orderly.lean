import FundsLedger.Proofs.Ledger.Moves

/-!
Order among units of work: only open ones ask for rows, a unit of work has what it asked for unless
it waits for it, and it waits for one row at a time. None of this depends on identifiers, so it
holds for as long as a ledger lives.
-/

namespace FundsLedger.Ledger

variable {l l' : Ledger} {u : UnitId} {w : UnitOfWork}

/-- Units of work and lock requests fit together. -/
structure Orderly (l : Ledger) : Prop where
  numbered : ∀ u, (l.units.find? u).isSome → u ≤ l.begins
  opened : ∀ u row, (⟨u, row⟩ : LockRequest) ∈ l.requests → (l.units.find? u).isSome
  asks : ∀ u c, (l.unit u).pending = some c →
    ∃ row, c.row? = some row ∧ (⟨u, row⟩ : LockRequest) ∈ l.requests
  served : ∀ u row, (⟨u, row⟩ : LockRequest) ∈ l.requests →
    l.Holds u row ∨ ∃ c, (l.unit u).pending = some c ∧ c.row? = some row

namespace Orderly

theorem empty : empty.Orderly where
  numbered u h := by simp [Ledger.empty] at h
  opened u row h := by simp [Ledger.empty] at h
  asks u c h := by simp [unit, Ledger.empty, UnitOfWork.fresh] at h
  served u row h := by simp [Ledger.empty] at h

theorem congr (h : l.Orderly) (hbegins : l'.begins = l.begins) (hunits : l'.units = l.units)
    (hrequests : l'.requests = l.requests) : l'.Orderly where
  numbered u hu := by
    rw [hunits] at hu
    rw [hbegins]
    exact h.numbered u hu
  opened u row hq := by
    rw [hrequests] at hq
    rw [hunits]
    exact h.opened u row hq
  asks u c hc := by
    rw [unit_congr hunits] at hc
    rw [hrequests]
    exact h.asks u c hc
  served u row hq := by
    rw [hrequests] at hq
    rw [unit_congr hunits, holds_congr hrequests]
    exact h.served u row hq

/-- Nobody asks for anything in the name of a unit of work that is not open. -/
theorem not_mem (h : l.Orderly) (hu : l.units.find? u = none) (row : AccountId) :
    (⟨u, row⟩ : LockRequest) ∉ l.requests := by
  intro hq
  have := h.opened u row hq
  simp [hu] at this

theorem begin (h : l.Orderly) : l.begin.1.Orderly := by
  have hnew : l.units.find? (l.begins + 1) = none := by
    cases hf : l.units.find? (l.begins + 1) with
    | none => rfl
    | some w =>
      have := h.numbered (l.begins + 1) (by simp [hf])
      omega
  have hunit : ∀ u, l.begin.1.unit u =
      if u = l.begins + 1 then UnitOfWork.fresh else l.unit u := unit_insert rfl
  constructor
  case numbered =>
    intro u hu
    simp only [Ledger.begin, Table.find?_insert] at hu ⊢
    split at hu
    · rename_i heq
      subst heq
      simp
    · have := h.numbered u hu
      push_cast
      omega
  case opened =>
    intro u row hq
    have hu := h.opened u row hq
    simp only [Ledger.begin, Table.find?_insert]
    split
    · rfl
    · exact hu
  case asks =>
    intro u c hc
    rw [hunit] at hc
    split at hc
    · simp [UnitOfWork.fresh] at hc
    · exact h.asks u c hc
  case served =>
    intro u row hq
    -- Nobody can have asked for a row in the name of the new unit of work.
    have hne : u ≠ l.begins + 1 := by
      rintro rfl
      exact h.not_mem hnew row hq
    rw [hunit, if_neg hne]
    exact h.served u row hq

/-- A call that ends leaves its unit of work with all that it asked for. -/
theorem finish {c : Call} {asked : Ledger} (h : l.Orderly) (hw : l.units.find? u = some w)
    (ready : w.pending = none ∨ w.pending = some c) (granted : l.Grants u w c asked) :
    (asked.finish u w c).1.Orderly := by
  obtain ⟨more, hmore⟩ := granted.requests
  have hunits : (asked.finish u w c).1.units =
      l.units.insert u { (asked.perform w c).unit with pending := none } := by
    rw [← granted.units]
    rfl
  have hunit := unit_insert hunits
  have hopen : ∀ u', (((asked.finish u w c).1).units.find? u').isSome ↔
      (l.units.find? u').isSome := by
    intro u'
    rw [hunits, Table.find?_insert]
    split
    · rename_i heq
      subst heq
      simp [hw]
    · rfl
  constructor
  case numbered =>
    intro u' hu
    rw [hopen] at hu
    have := h.numbered u' hu
    rwa [← granted.begins] at this
  case opened =>
    intro u' row hq
    rw [hopen]
    rcases granted.mem hq with hq | ⟨id, -, heq, -⟩
    · exact h.opened u' row hq
    · cases heq
      simp [hw]
  case asks =>
    intro u' d hd
    rw [hunit] at hd
    split at hd
    · cases hd
    · obtain ⟨row, hrow, hq⟩ := h.asks u' d hd
      refine ⟨row, hrow, ?_⟩
      show (⟨u', row⟩ : LockRequest) ∈ asked.requests
      rw [hmore]
      exact List.mem_append_left _ hq
  case served =>
    intro u' row hq
    rcases granted.mem hq with hq | ⟨id, hrow, heq, -⟩
    · rcases h.served u' row hq with hholds | ⟨d, hd, hrow⟩
      · exact Or.inl (hholds.append hmore)
      · by_cases hu : u' = u
        · -- The row that the unit of work waited for is the one that it has been granted.
          subst hu
          rw [unit_of_find? hw] at hd
          rcases ready with hidle | hpending
          · rw [hidle] at hd
            cases hd
          · rw [hpending] at hd
            cases hd
            exact Or.inl (granted.holds hrow)
        · refine Or.inr ⟨d, ?_, hrow⟩
          rw [hunit, if_neg hu]
          exact hd
    · cases heq
      exact Or.inl (granted.holds hrow)

/-- A call that has to wait is what its unit of work waits in. -/
theorem wait {c : Call} {id : AccountId} (h : l.Orderly) (hw : l.units.find? u = some w)
    (idle : w.pending = none) (hrow : c.row? = some id) :
    Orderly { l.request u id with units := l.units.insert u { w with pending := some c } } := by
  obtain ⟨more, hmore⟩ := l.request_requests u id
  have hunit : ∀ u',
      unit { l.request u id with units := l.units.insert u { w with pending := some c } } u' =
        if u' = u then { w with pending := some c } else l.unit u' := unit_insert rfl
  constructor
  case numbered =>
    intro u' hu
    simp only [Table.find?_insert] at hu
    simp only [request_begins]
    split at hu
    · rename_i heq
      subst heq
      exact h.numbered u' (by simp [hw])
    · exact h.numbered u' hu
  case opened =>
    intro u' row hq
    simp only [Table.find?_insert]
    rcases mem_request.mp hq with hq | heq
    · split
      · rfl
      · exact h.opened u' row hq
    · cases heq
      simp
  case asks =>
    intro u' d hd
    rw [hunit] at hd
    split at hd
    · rename_i heq
      subst heq
      cases hd
      exact ⟨id, hrow, mem_request.mpr (Or.inr rfl)⟩
    · obtain ⟨row, hd', hq⟩ := h.asks u' d hd
      exact ⟨row, hd', mem_request.mpr (Or.inl hq)⟩
  case served =>
    intro u' row hq
    rw [hunit]
    rcases mem_request.mp hq with hq | heq
    · rcases h.served u' row hq with hholds | ⟨d, hd, hdrow⟩
      · exact Or.inl (hholds.append hmore)
      · by_cases hu : u' = u
        -- The unit of work was idle, so it waited for nothing before.
        · subst hu
          rw [unit_of_find? hw, idle] at hd
          cases hd
        · rw [if_neg hu]
          exact Or.inr ⟨d, hd, hdrow⟩
    · cases heq
      rw [if_pos rfl]
      exact Or.inr ⟨c, rfl, hrow⟩

theorem close {l' : Ledger} (h : l.Orderly) (hbegins : l'.begins = l.begins)
    (hunits : l'.units = l.units.erase u)
    (hrequests : l'.requests = l.requests.filter (·.unit ≠ u)) : l'.Orderly := by
  have hunit := unit_erase hunits
  have hmem : ∀ q : LockRequest, q ∈ l'.requests ↔ q ∈ l.requests ∧ q.unit ≠ u := by
    intro q
    simp [hrequests, List.mem_filter]
  constructor
  case numbered =>
    intro u' hu
    rw [hunits, Table.find?_erase] at hu
    rw [hbegins]
    split at hu
    · cases hu
    · exact h.numbered u' hu
  case opened =>
    intro u' row hq
    obtain ⟨hq, hne⟩ := (hmem _).mp hq
    rw [hunits, Table.find?_erase, if_neg hne]
    exact h.opened u' row hq
  case asks =>
    intro u' c hc
    rw [hunit] at hc
    split at hc
    · simp [UnitOfWork.fresh] at hc
    · rename_i hne
      obtain ⟨row, hrow, hq⟩ := h.asks u' c hc
      exact ⟨row, hrow, (hmem _).mpr ⟨hq, hne⟩⟩
  case served =>
    intro u' row hq
    obtain ⟨hq, hne⟩ := (hmem _).mp hq
    rw [hunit, if_neg hne]
    exact (h.served u' row hq).imp (fun hholds => hholds.filter hrequests (by simpa using hne)) id

theorem withdraw {c : Call} (h : l.Orderly) (hw : l.units.find? u = some w)
    (pending : w.pending = some c) : (l.withdraw u).Orderly := by
  have hl := withdraw_of_pending hw pending
  have hunits : (l.withdraw u).units = l.units.insert u { w with pending := none } := by rw [hl]
  have hrequests : (l.withdraw u).requests =
      l.requests.filter fun r => !(r.unit = u && c.row? = some r.row) := by rw [hl]
  have hbegins : (l.withdraw u).begins = l.begins := by rw [hl]
  have hunit := unit_insert hunits
  have hmem : ∀ q : LockRequest, q ∈ (l.withdraw u).requests ↔
      q ∈ l.requests ∧ (q.unit ≠ u ∨ c.row? ≠ some q.row) := by
    intro q
    simp [hrequests, List.mem_filter]
  constructor
  case numbered =>
    intro u' hu
    rw [hunits, Table.find?_insert] at hu
    rw [hbegins]
    split at hu
    · rename_i heq
      subst heq
      exact h.numbered u' (by simp [hw])
    · exact h.numbered u' hu
  case opened =>
    intro u' row hq
    rw [hunits, Table.find?_insert]
    split
    · rfl
    · exact h.opened u' row ((hmem _).mp hq).1
  case asks =>
    intro u' d hd
    rw [hunit] at hd
    split at hd
    · cases hd
    · rename_i hne
      obtain ⟨row, hrow, hq⟩ := h.asks u' d hd
      exact ⟨row, hrow, (hmem _).mpr ⟨hq, Or.inl hne⟩⟩
  case served =>
    intro u' row hq
    obtain ⟨hq, hkept⟩ := (hmem _).mp hq
    rcases h.served u' row hq with hholds | ⟨d, hd, hrow⟩
    · refine Or.inl (hholds.filter hrequests ?_)
      simpa using hkept
    · by_cases hu : u' = u
      · subst hu
        -- What it waited for is what it has withdrawn.
        rw [unit_of_find? hw, pending] at hd
        cases hd
        simp [hrow] at hkept
      · rw [hunit, if_neg hu]
        exact Or.inr ⟨d, hd, hrow⟩

/-- Every move keeps the order. -/
theorem makes {m : Move} (h : l.Orderly) (hm : l.Makes m l') : l'.Orderly := by
  cases hm with
  | rest books drawn begins commits units requests => exact h.congr begins units requests
  | opened => exact h.begin
  | performed isOpen ready granted => exact h.finish isOpen ready granted
  | queued isOpen idle row known taken => exact h.wait isOpen idle row
  | withdrawn isOpen pending => exact h.withdraw isOpen pending
  | closed isOpen conflicts => exact h.close rfl rfl rfl
  | published isOpen idle unique => exact h.close rfl rfl rfl

end Orderly
end FundsLedger.Ledger
