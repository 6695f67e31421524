import FundsLedger.Proofs.Ledger.Sound

/-!
Lawful ledgers, and what a move leaves alone. A ledger is orderly for as long as it lives and sound
for as long as its counters are in range. A move of one unit of work leaves what every other one has
staged, asked for and locked as it was, and the committed rows behind those locks as well.
-/

namespace FundsLedger.Ledger

variable {l l' : Ledger} {u : Int} {m : Move}

/-- The invariant of a ledger. -/
structure Lawful (l : Ledger) : Prop where
  orderly : l.Orderly
  sound : l.drawn.InRange → l.Sound

theorem Lawful.empty : Ledger.empty.Lawful := ⟨.empty, fun _ => .empty⟩

theorem Lawful.makes (h : l.Lawful) (hm : l.Makes m l') : l'.Lawful :=
  ⟨h.orderly.makes hm, fun hr => (h.sound (hr.of_upTo hm.upTo)).makes h.orderly hm hr⟩

/-- What a move of others leaves of an open unit of work. -/
structure Spares (l l' : Ledger) (u : UnitId) : Prop where
  unit : l'.units.find? u = l.units.find? u
  requests : ∀ row, (⟨u, row⟩ : LockRequest) ∈ l'.requests ↔ ⟨u, row⟩ ∈ l.requests
  holds : ∀ row, l.Holds u row → l'.Holds u row
  rows : l.drawn.InRange → ∀ row, l.Holds u row →
    l'.books.accounts.find? row = l.books.accounts.find? row

theorem Spares.refl (l : Ledger) (u : UnitId) : l.Spares l u :=
  ⟨rfl, fun _ => .rfl, fun _ h => h, fun _ _ _ => rfl⟩

/-- Taking out the requests of one unit of work, all or some, leaves those of the others. -/
theorem Spares.of_filter {keep : LockRequest → Bool}
    (hunit : l'.units.find? u = l.units.find? u)
    (hrequests : l'.requests = l.requests.filter keep) (hkeep : ∀ row, keep ⟨u, row⟩ = true)
    (hrows : l.drawn.InRange → ∀ row, l.Holds u row →
      l'.books.accounts.find? row = l.books.accounts.find? row) : l.Spares l' u where
  unit := hunit
  requests row := by rw [hrequests, List.mem_filter]; simp [hkeep row]
  holds row h := h.filter hrequests (hkeep row)
  rows := hrows

/-- A move leaves every open unit of work alone but the one that it concerns. -/
theorem Makes.spares (h : l.Lawful) (hm : l.Makes m l') (hopen : (l.units.find? u).isSome)
    (hu : m.unit? ≠ some u) : l.Spares l' u := by
  cases hm with
  | rest books drawn begins commits units requests =>
    exact ⟨by rw [units], fun row => by rw [requests],
      fun row hholds => (holds_congr requests).mpr hholds, fun _ row _ => by rw [books]⟩
  | opened =>
    have hne : u ≠ l.begins + 1 := by
      rintro rfl
      have := h.orderly.numbered _ hopen
      omega
    refine ⟨?_, fun row => .rfl, fun row hholds => hholds, fun _ row _ => rfl⟩
    simp [begin, hne]
  | @performed u' c w asked isOpen ready granted =>
    have hne : u ≠ u' := fun heq => hu (by rw [heq]; rfl)
    obtain ⟨more, hmore⟩ := granted.requests
    constructor
    case unit =>
      -- Requests are only added, and only in the name of the unit of work that calls.
      simp [finish, granted.units, hne]
    case requests =>
      intro row
      constructor
      · intro hq
        rcases granted.mem hq with hq | ⟨id, -, heq, -⟩
        · exact hq
        · exact absurd (congrArg LockRequest.unit heq) hne
      · intro hq
        show (⟨u, row⟩ : LockRequest) ∈ asked.requests
        rw [hmore]
        exact List.mem_append_left _ hq
    case holds =>
      intro row hholds
      exact hholds.append hmore
    case rows =>
      intro _ row _
      show asked.books.accounts.find? row = _
      rw [granted.books]
  | @queued u' c w id isOpen idle row known taken =>
    have hne : u ≠ u' := fun heq => hu (by rw [heq]; rfl)
    obtain ⟨more, hmore⟩ := l.request_requests u' id
    constructor
    case unit =>
      simp [hne]
    case requests =>
      intro row
      have hother : (⟨u, row⟩ : LockRequest) ≠ ⟨u', id⟩ :=
        fun heq => hne (congrArg LockRequest.unit heq)
      show (⟨u, row⟩ : LockRequest) ∈ (l.request u' id).requests ↔ _
      rw [mem_request]
      simp [hother]
    case holds =>
      intro row hholds
      exact hholds.append hmore
    case rows =>
      intro _ row _
      show (l.request u' id).books.accounts.find? row = _
      rw [request_books]
  | @withdrawn u' c w isOpen pending =>
    have hne : u ≠ u' := fun heq => hu (by rw [heq]; rfl)
    rw [withdraw_of_pending isOpen pending]
    exact .of_filter (by simp [hne]) rfl (fun row => by simp [hne]) fun _ row _ => rfl
  | @closed u' w isOpen conflicts =>
    have hne : u ≠ u' := fun heq => hu (by rw [heq]; rfl)
    exact .of_filter (by simp [close, hne]) rfl (fun row => by simpa using hne)
      fun _ row _ => rfl
  | @published u' w isOpen idle unique =>
    have hne : u ≠ u' := fun heq => hu (by rw [heq]; rfl)
    refine .of_filter (by simp [close, hne]) rfl (fun row => by simpa using hne)
      fun hr row hholds => ?_
    show (w.publish l.books).accounts.find? row = _
    -- What is published is not on a row that somebody else holds.
    have hunstaged := (h.sound hr).unstaged_of_holds hholds hne
    rw [unit_of_find? isOpen] at hunstaged
    rw [UnitOfWork.publish, Table.find?_overlay, hunstaged]
    rfl

/-! ## What a move leaves staged -/

/-- All that the unit of work has staged is still staged after the move, and unless a call is given
up, the unit of work has all rows that it had. -/
structure Retains (l : Ledger) (m : Move) (l' : Ledger) (u : UnitId) : Prop where
  accounts : (l'.unit u).accounts = (l.unit u).accounts
  entries : (l'.unit u).entries = (l.unit u).entries
  transfers : (l'.unit u).transfers = (l.unit u).transfers
  isOpen : (l'.units.find? u).isSome → (l.units.find? u).isSome
  holds : (∀ u', m ≠ .withdrawn u') → ∀ row, l.Holds u row → l'.Holds u row

/-- The unit of work has nothing staged: it is over, or it has just begun. -/
structure Blanks (l l' : Ledger) (u : Int) : Prop where
  unit : l'.unit u = UnitOfWork.fresh
  begun : (l'.units.find? u).isSome → l.begins < u

/-- What a move does to what is committed and staged: it carries out a call, it publishes, or it
leaves all as it is but for a unit of work that begins or ends. -/
inductive Effect (l : Ledger) : Move → Ledger → Prop
  | performed {u : UnitId} {c : Call} {w : UnitOfWork} {asked : Ledger}
      (isOpen : l.units.find? u = some w) (granted : l.Grants u w c asked) :
      Effect l (.performed u c) (asked.finish u w c).1
  | published {u : UnitId} {w : UnitOfWork} (isOpen : l.units.find? u = some w)
      (unique : w.firstDuplicate? l.books = none) :
      Effect l (.published u)
        { l.close u with books := w.publish l.books, commits := l.commits + 1 }
  | quiet {m : Move} {l' : Ledger} (books : l'.books = l.books) (drawn : l'.drawn = l.drawn)
      (units : ∀ u, l.Retains m l' u ∨ l.Blanks l' u) : Effect l m l'

theorem Retains.refl (hunits : l'.units = l.units)
    (hholds : ∀ row, l.Holds u row → l'.Holds u row) : l.Retains m l' u := by
  have hunit := unit_congr hunits u
  exact ⟨by rw [hunit], by rw [hunit], by rw [hunit], fun hopen => by rwa [← hunits],
    fun _ => hholds⟩

/-- Another call pending makes no difference to what is staged. -/
theorem Retains.insert {u' : UnitId} {w : UnitOfWork} {p : Option Call}
    (isOpen : l.units.find? u' = some w)
    (hunits : l'.units = l.units.insert u' { w with pending := p })
    (hholds : (∀ u', m ≠ .withdrawn u') → ∀ row, l.Holds u row → l'.Holds u row) :
    l.Retains m l' u := by
  have hunit := unit_insert hunits u
  by_cases hu : u = u'
  · subst hu
    rw [if_pos rfl] at hunit
    rw [← unit_of_find? isOpen] at hunit
    exact ⟨by rw [hunit], by rw [hunit], by rw [hunit], fun _ => by rw [isOpen]; rfl, hholds⟩
  · rw [if_neg hu] at hunit
    refine ⟨by rw [hunit], by rw [hunit], by rw [hunit], fun hopen => ?_, hholds⟩
    rwa [hunits, Table.find?_insert, if_neg hu] at hopen

theorem Makes.effect (hm : l.Makes m l') : l.Effect m l' := by
  cases hm with
  | rest books drawn begins commits units requests =>
    exact .quiet books drawn fun u => Or.inl
      (.refl units fun row hholds => (holds_congr requests).mpr hholds)
  | opened =>
    refine .quiet rfl rfl fun u => ?_
    have hunit : l.begin.1.unit u =
        if u = l.begins + 1 then UnitOfWork.fresh else l.unit u := unit_insert rfl u
    by_cases hu : u = l.begins + 1
    · exact Or.inr ⟨by rw [hunit, if_pos hu], fun _ => by rw [hu]; exact Int.lt_succ _⟩
    · rw [if_neg hu] at hunit
      refine Or.inl ⟨by rw [hunit], by rw [hunit], by rw [hunit], fun hopen => ?_,
        fun _ row hholds => hholds⟩
      rwa [Ledger.begin, Table.find?_insert, if_neg hu] at hopen
  | performed isOpen ready granted => exact .performed isOpen granted
  | @queued u c w id isOpen idle row known taken =>
    obtain ⟨more, hmore⟩ := l.request_requests u id
    exact .quiet request_books request_drawn fun u' => Or.inl
      (.insert isOpen (by rfl) fun _ row hholds => hholds.append hmore)
  | @withdrawn u c w isOpen pending =>
    rw [withdraw_of_pending isOpen pending]
    exact .quiet rfl rfl fun u' => Or.inl
      (.insert isOpen (by rfl) fun hm => absurd rfl (hm u))
  | @closed u w isOpen conflicts =>
    refine .quiet rfl rfl fun u' => ?_
    have hunit : unit { l.close u with conflicts } u' =
        if u' = u then UnitOfWork.fresh else l.unit u' := unit_erase rfl u'
    by_cases hu : u' = u
    · refine Or.inr ⟨by rw [hunit, if_pos hu], fun hopen => ?_⟩
      simp [close, hu] at hopen
    · rw [if_neg hu] at hunit
      refine Or.inl ⟨by rw [hunit], by rw [hunit], by rw [hunit], fun hopen => ?_,
        fun _ row hholds => hholds.close hu⟩
      simpa [close, hu] using hopen
  | published isOpen idle unique => exact .published isOpen unique

/-- A move that carries out no call and publishes nothing. -/
theorem Makes.leaves (hm : l.Makes m l') (unperformed : ∀ u c, m ≠ .performed u c)
    (unpublished : ∀ u, m ≠ .published u) :
    l'.books = l.books ∧ ∀ u, l.Retains m l' u ∨ l.Blanks l' u := by
  cases hm.effect with
  | performed isOpen granted => exact absurd rfl (unperformed _ _)
  | published isOpen unique => exact absurd rfl (unpublished _)
  | quiet books drawn units => exact ⟨books, units⟩

/-- A committed account stays committed. -/
theorem Makes.committed {row : Int} (hm : l.Makes m l')
    (ha : (l.books.accounts.find? row).isSome) : (l'.books.accounts.find? row).isSome := by
  cases hm with
  | rest books drawn begins commits units requests => rwa [books]
  | opened => exact ha
  | performed isOpen ready granted =>
    rw [← granted.books] at ha
    exact ha
  | queued isOpen idle row known taken => rwa [← request_books] at ha
  | withdrawn isOpen pending => rwa [withdraw_of_pending isOpen pending]
  | closed isOpen conflicts => exact ha
  | @published u w isOpen idle unique =>
    show ((w.publish l.books).accounts.find? row).isSome
    rw [UnitOfWork.publish, Table.find?_overlay, Option.isSome_or, ha, Bool.or_true]

/-! ## Units of work that are over -/

/-- The unit of work has been open and is so no longer. -/
structure Over (l : Ledger) (u : Int) : Prop where
  numbered : u ≤ l.begins
  closed : l.units.find? u = none

theorem Makes.begins_le (hm : l.Makes m l') : l.begins ≤ l'.begins := by
  cases hm with
  | rest books drawn begins commits units requests => exact Nat.le_of_eq begins.symm
  | opened => exact Nat.le_succ _
  | performed isOpen ready granted => exact Nat.le_of_eq granted.begins.symm
  | queued isOpen idle row known taken => exact Nat.le_of_eq request_begins.symm
  | withdrawn isOpen pending => simp [withdraw_of_pending isOpen pending]
  | closed isOpen conflicts => exact Nat.le_refl _
  | published isOpen idle unique => exact Nat.le_refl _

/-- A unit of work that is open after a move was open before it, or has been opened by it. -/
theorem Makes.opens (hm : l.Makes m l') (hu : (l'.units.find? u).isSome) :
    (l.units.find? u).isSome ∨ m = .opened u := by
  have hinsert : ∀ {u' w w'}, l.units.find? u' = some w →
      ((l.units.insert u' w').find? u).isSome → (l.units.find? u).isSome := by
    intro u' w w' hw hu
    rw [Table.find?_insert] at hu
    split at hu
    · rename_i heq
      rw [heq, hw]
      rfl
    · exact hu
  have herase : ∀ {u'}, ((l.units.erase u').find? u).isSome → (l.units.find? u).isSome := by
    intro u' hu
    rw [Table.find?_erase] at hu
    split at hu
    · cases hu
    · exact hu
  cases hm with
  | rest books drawn begins commits units requests =>
    rw [units] at hu
    exact Or.inl hu
  | opened =>
    simp only [begin, Table.find?_insert] at hu
    split at hu
    · rename_i heq
      exact Or.inr (by rw [heq])
    · exact Or.inl hu
  | performed isOpen ready granted =>
    simp only [finish, granted.units] at hu
    exact Or.inl (hinsert isOpen hu)
  | queued isOpen idle row known taken => exact Or.inl (hinsert isOpen hu)
  | withdrawn isOpen pending =>
    rw [withdraw_of_pending isOpen pending] at hu
    exact Or.inl (hinsert isOpen hu)
  | closed isOpen conflicts => exact Or.inl (herase hu)
  | published isOpen idle unique => exact Or.inl (herase hu)

/-- No move opens a unit of work again. -/
theorem Over.makes (h : l.Over u) (hm : l.Makes m l') : l'.Over u := by
  have hclosed := h.closed
  have hle := h.numbered
  refine ⟨Int.le_trans hle (Int.ofNat_le.mpr hm.begins_le), ?_⟩
  have hne : ∀ {u' w}, l.units.find? u' = some w → u ≠ u' := by
    rintro u' w hw rfl
    rw [hclosed] at hw
    cases hw
  cases hm with
  | rest books drawn begins commits units requests => rwa [units]
  | opened =>
    have hnew : u ≠ l.begins + 1 := by
      rintro rfl
      omega
    simpa [begin, hnew] using hclosed
  | performed isOpen ready granted =>
    simpa [finish, granted.units, hne isOpen] using hclosed
  | queued isOpen idle row known taken => simpa [hne isOpen] using hclosed
  | withdrawn isOpen pending =>
    rw [withdraw_of_pending isOpen pending]
    simpa [hne isOpen] using hclosed
  | closed isOpen conflicts => simpa [close] using fun _ => hclosed
  | published isOpen idle unique => simpa [close] using fun _ => hclosed

/-- A unit of work that is over asks for no row. -/
theorem Over.not_mem (h : l.Over u) (ho : l.Orderly) (row : AccountId) :
    (⟨u, row⟩ : LockRequest) ∉ l.requests :=
  ho.not_mem h.closed row

end FundsLedger.Ledger
