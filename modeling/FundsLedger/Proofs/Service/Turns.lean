import FundsLedger.Proofs.Ledger.View

/-!
Turns. Whatever happens to a service, it is the turn of one task at most, and all that the task does
in its turn is a move of its own unit of work. So tasks have different units of work, and what one
of them has locked and staged stays as it is during the turns of the others.
-/

namespace FundsLedger

namespace Ledger

variable {l l' : Ledger} {unit unit' : Option UnitId} {u : UnitId} {m : Move}

/-- What the ledger does for a process that has this unit of work open, or none: the process goes on
with it, begins one, or is rid of it. -/
inductive Serves (l : Ledger) (unit : Option UnitId) : Ledger → Option UnitId → Prop
  | stays {l' : Ledger} {m : Move} (makes : l.Makes m l')
      (own : ∀ u, m.unit? = some u → unit = some u)
      (opened : ∀ u, unit = some u → (l.units.find? u).isSome → (l'.units.find? u).isSome) :
      Serves l unit l' unit
  | begins : Serves l unit l.begin.1 (some (l.begins + 1))
  | ends {l' : Ledger} {m : Move} (makes : l.Makes m l')
      (own : ∀ u, m.unit? = some u → unit = some u) : Serves l unit l' none

theorem Serves.refl (l : Ledger) (unit : Option UnitId) : l.Serves unit l unit :=
  .stays (.refl l) (fun _ h => nomatch h) fun _ _ h => h

theorem Serves.lawful (h : l.Serves unit l' unit') (hl : l.Lawful) : l'.Lawful := by
  cases h with
  | stays makes own opened => exact hl.makes makes
  | begins => exact hl.makes .opened
  | ends makes own => exact hl.makes makes

theorem Serves.upTo (h : l.Serves unit l' unit') : l.drawn.UpTo l'.drawn := by
  cases h with
  | stays makes own opened => exact makes.upTo
  | begins => exact Makes.opened.upTo
  | ends makes own => exact makes.upTo

theorem Serves.makes (h : l.Serves unit l' unit') : ∃ m, l.Makes m l' := by
  cases h with
  | stays makes own opened => exact ⟨_, makes⟩
  | begins => exact ⟨_, .opened⟩
  | ends makes own => exact ⟨_, makes⟩

/-- What is done for one process leaves the open units of work of all others alone. -/
theorem Serves.spares (h : l.Serves unit l' unit') (hl : l.Lawful)
    (hopen : (l.units.find? u).isSome) (hu : unit ≠ some u) : l.Spares l' u := by
  cases h with
  | stays makes own opened => exact makes.spares hl hopen fun heq => hu (own u heq)
  | begins =>
    refine Makes.opened.spares hl hopen fun heq => ?_
    have hle := hl.orderly.numbered u hopen
    cases heq
    omega
  | ends makes own => exact makes.spares hl hopen fun heq => hu (own u heq)

theorem Serves.over {u : Int} (h : l.Serves unit l' unit') (ho : l.Over u) : l'.Over u := by
  cases h with
  | stays makes own opened => exact ho.makes makes
  | begins => exact ho.makes .opened
  | ends makes own => exact ho.makes makes

/-- The unit of work that a process has open afterwards is open. -/
theorem Serves.isOpen (h : l.Serves unit l' unit')
    (hopen : ∀ u, unit = some u → (l.units.find? u).isSome) (hu : unit' = some u) :
    (l'.units.find? u).isSome := by
  cases h with
  | stays makes own opened => exact opened u hu (hopen u hu)
  | begins =>
    cases hu
    simp [begin]
  | ends makes own => cases hu

/-- The unit of work that a process has open afterwards is the one it had before, or new. -/
theorem Serves.unit_cases (h : l.Serves unit l' unit') (hu : unit' = some u) :
    unit = some u ∨ u = l.begins + 1 := by
  cases h with
  | stays makes own opened => exact Or.inl hu
  | begins => exact Or.inr (Option.some.inj hu).symm
  | ends makes own => cases hu

/-- A unit of work that is open afterwards was open before, or it is the one that the process
has. -/
theorem Serves.opens (h : l.Serves unit l' unit')
    (hopen : ∀ u, unit = some u → (l.units.find? u).isSome) (hu : (l'.units.find? u).isSome) :
    (l.units.find? u).isSome ∨ unit' = some u := by
  cases h with
  | stays makes own opened =>
    refine (makes.opens hu).imp id fun hm => own u ?_
    rw [hm]
    rfl
  | begins =>
    refine (Makes.opened.opens hu).imp id fun hm => ?_
    rw [(Move.opened.inj hm)]
  | ends makes own =>
    refine Or.inl ((makes.opens hu).elim id fun hm => hopen u (own u ?_))
    rw [hm]
    rfl

/-! ## What is done for a process in its turn -/

theorem Called.isOpen {c : Call} {o : Outcome c} (h : l.Called u c l' o) :
    (l'.units.find? u).isSome := by
  cases h with
  | refused isOpen | waiting isOpen => simp [isOpen]
  | performed isOpen ready granted => simp [finish]
  | queued => simp

theorem Called.serves {c : Call} {o : Outcome c} (h : l.Called u c l' o) :
    l.Serves (some u) l' (some u) := by
  obtain ⟨m, hm, hu⟩ := h.makes
  refine .stays hm (fun u' hu' => ?_) fun u' hu' _ => ?_
  · rcases hu with rfl | hu
    · cases hu'
    · rw [← hu, hu']
  · cases hu'
    exact h.isOpen

theorem commit?_serves {r : Except StoreError Unit} (h : l.commit? u = some (l', r)) :
    l.Serves (some u) l' none := by
  obtain ⟨w, hw, hidle, heq⟩ := commit?_eq_some h
  have hc := commitUnit_committed l u w
  rw [← heq] at hc
  refine .ends (hc.makes hw hidle) fun u' hu' => ?_
  split at hu' <;> exact hu'

theorem rollback?_serves {r : Except StoreError Unit} (h : l.rollback? u = some (l', r)) :
    l.Serves (some u) l' none := by
  obtain ⟨w, hw, -, rfl, -⟩ := rollback?_eq_some h
  exact .ends (makes_close hw) fun u' hu' => hu'

theorem respond_serves (l : Ledger) (unit : Option UnitId) (r : Request) :
    l.Serves unit (l.respond unit r).ledger (l.respond unit r).unit := by
  cases r with
  | begin => exact .begins
  | call c =>
    cases unit with
    | none => exact .refl l none
    | some u =>
      simp only [respond, Option.bind_some]
      cases h : (l.resume? u c).or (l.call? u c) with
      | none => exact .refl l (some u)
      | some p =>
        obtain ⟨l', o⟩ := p
        -- Taken up again or new, it is the same call.
        have hcalled : l.Called u c l' o := by
          rcases Option.or_eq_some_iff.mp h with h | ⟨-, h⟩
          · exact resume?_called h
          · exact call?_called h
        cases o with
        | answered result => exact hcalled.serves
        | waits => exact hcalled.serves
  | commit =>
    cases unit with
    | none => exact .refl l none
    | some u =>
      simp only [respond, Option.bind_some]
      cases h : l.commit? u with
      | none => exact .refl l (some u)
      | some p => exact commit?_serves h
  | rollback =>
    cases unit with
    | none => exact .refl l none
    | some u =>
      simp only [respond, Option.bind_some]
      cases h : l.rollback? u with
      | none => exact .refl l (some u)
      | some p => exact rollback?_serves h

theorem abandonAny_serves (l : Ledger) (unit : Option UnitId) :
    l.Serves unit (l.abandonAny unit).1 none := by
  cases unit with
  | none => exact .ends (.refl l) fun _ h => nomatch h
  | some u =>
    obtain ⟨m, hm, rfl | rfl⟩ := abandon_makes l u
    · exact .ends hm fun _ h => nomatch h
    · exact .ends hm fun _ h => h

end Ledger

theorem Process.advance_serves {α : Type} (l : Ledger) (unit : Option UnitId) (p : Process α) :
    l.Serves unit (p.advance l unit).ledger (p.advance l unit).unit := by
  cases p with
  | done a => exact .refl l unit
  | ask request next =>
    have h := l.respond_serves unit request
    simp only [advance]
    split <;> exact h
  | note event rest => exact .refl l unit
  | sleep longest rest => exact .refl l unit
  | panic message => exact l.abandonAny_serves unit

/-- The interrupt is a deadline or a cancellation. -/
def Interrupt.Proper (i : Interrupt) : Prop :=
  i.error = .deadlineExceeded ∨ i.error = .cancelled

theorem Operation.interrupts_proper {op : Operation} {timeout : Option Duration} {now : Nat}
    {i : Interrupt} (hi : i ∈ op.interrupts timeout now) : i.Proper := by
  cases op with
  | transfer request limit =>
    cases limit <;> simp only [interrupts, List.mem_append, List.mem_map, List.mem_singleton] at hi
    case usual =>
      obtain ⟨d, -, rfl⟩ := hi
      exact Or.inl rfl
    case deadline within =>
      subst hi
      exact Or.inl rfl
    case cancel after =>
      rcases hi with ⟨d, -, rfl⟩ | ⟨d, -, rfl⟩
      · exact Or.inl rfl
      · exact Or.inr rfl
  | _ => cases hi

namespace Service

open Ledger

variable {s s' : Service} {turn : Option TaskId} {id : TaskId} {t : Task} {u : UnitId}

/-- The task whose turn a step is. -/
def Action.turn? : Action → Option TaskId
  | advance id | interrupt id | abort id => some id
  | configure _ | submit _ | pass _ | ledger _ => none

/-- What happens in a step, and whose turn it is. -/
inductive Goes (s : Service) : Option TaskId → Service → Prop
  | aside {turn : Option TaskId} {s' : Service} (ledger : s'.ledger = s.ledger)
      (tasks : s'.tasks = s.tasks) (submitted : s'.submitted = s.submitted) : Goes s turn s'
  | added (t : Task) (unit : t.unit = none) (interrupts : ∀ i ∈ t.interrupts, i.Proper) :
      Goes s none (s.addTask t).1
  | outside {l' : Ledger} {m : Move} (makes : s.ledger.Makes m l')
      (foreign : ∀ u : Int, m.unit? = some u → u = s.ledger.begins + 1 ∨ ¬ s.Owned u) :
      Goes s none { s with ledger := l' }
  | moved {id : TaskId} {t : Task} {l' : Ledger} {unit : Option UnitId} {process : Process Answer}
      (task : s.tasks.find? id = some t) (serves : s.ledger.Serves t.unit l' unit) :
      Goes s (some id)
        { s with ledger := l', tasks := s.tasks.insert id { t with process, unit } }
  | gone {id : TaskId} {t : Task} {l' : Ledger} {unit : Option UnitId}
      (task : s.tasks.find? id = some t) (serves : s.ledger.Serves t.unit l' unit) :
      Goes s (some id) { s with ledger := l', tasks := s.tasks.erase id }

theorem owned_iff : s.Owned u ↔ ∃ id t, s.tasks.find? id = some t ∧ t.unit = some u := by
  unfold Owned
  rw [List.any_eq_true]
  constructor
  · rintro ⟨t, ht, hu⟩
    obtain ⟨id, hid⟩ := Table.mem_values_iff.mp ht
    exact ⟨id, t, hid, by simpa using hu⟩
  · rintro ⟨id, t, hid, hu⟩
    exact ⟨t, Table.mem_values_iff.mpr ⟨id, hid⟩, by simpa using hu⟩

/-- A step of a task leaves the ledger as its process does. -/
theorem ledger_advance (ht : s.tasks.find? id = some t) :
    (s.step (.advance id)).ledger = (t.process.advance s.ledger t.unit).ledger := by
  simp only [Service.step, Service.advance, ht, settle]
  split <;> rfl

theorem settle_goes (ht : s.tasks.find? id = some t) {moved : Moved Answer}
    (hs : s.ledger.Serves t.unit moved.ledger moved.unit) :
    s.Goes (some id) (s.settle id t moved).1 := by
  unfold settle
  split
  · exact .gone ht hs
  · exact .moved ht hs

theorem advance_goes (s : Service) (id : TaskId) : s.Goes (some id) (s.advance id).1 := by
  unfold advance
  split
  · exact .aside rfl rfl rfl
  · rename_i t ht
    exact settle_goes ht (t.process.advance_serves s.ledger t.unit)

theorem interrupt_goes (s : Service) (id : TaskId) : s.Goes (some id) (s.interrupt id).1 := by
  unfold interrupt
  split
  · exact .aside rfl rfl rfl
  · rename_i t ht
    split
    · exact .aside rfl rfl rfl
    · split
      · exact .gone ht (s.ledger.abandonAny_serves t.unit)
      · exact .aside rfl rfl rfl

theorem abort_goes (s : Service) (id : TaskId) : s.Goes (some id) (s.abort id).1 := by
  unfold abort
  split
  · exact .aside rfl rfl rfl
  · rename_i t ht
    split
    · exact .gone ht (s.ledger.abandonAny_serves t.unit)
    · exact .aside rfl rfl rfl

/-- Every step is the turn of one task at most. -/
theorem step_goes (s : Service) (a : Action) : s.Goes a.turn? (s.step a) := by
  cases a with
  | configure settings => exact .aside rfl rfl rfl
  | submit op => exact .added _ rfl fun i hi => Operation.interrupts_proper hi
  | advance id => exact s.advance_goes id
  | interrupt id => exact s.interrupt_goes id
  | abort id => exact s.abort_goes id
  | pass d => exact .aside rfl rfl rfl
  | ledger action =>
    simp only [step]
    split
    · exact .aside rfl rfl rfl
    · rename_i hforeign
      obtain ⟨m, hm, hu⟩ := s.ledger.step_makes action
      refine .outside hm fun u hmu => ?_
      rcases hu with rfl | rfl | hu
      · cases hmu
      · exact Or.inl (Option.some.inj hmu).symm
      · rw [hmu] at hu
        rw [← hu] at hforeign
        exact Or.inr (by simpa using hforeign)

/-! ## The invariant of a service -/

/-- The ledger is lawful, every task has an open unit of work or none, no two tasks have the same
one, tasks are numbered from 1, and only deadlines and cancellations cut them short. -/
structure Lawful (s : Service) : Prop where
  ledger : s.ledger.Lawful
  opened : ∀ id t u, s.tasks.find? id = some t → t.unit = some u →
    (s.ledger.units.find? u).isSome
  apart : ∀ id id' t t' u, s.tasks.find? id = some t → s.tasks.find? id' = some t' →
    t.unit = some u → t'.unit = some u → id = id'
  numbered : ∀ id : Int, (s.tasks.find? id).isSome → id ≤ s.submitted
  interrupts : ∀ id t i, s.tasks.find? id = some t → i ∈ t.interrupts → i.Proper

/-- What a turn of others leaves of a task. -/
structure Leaves (s s' : Service) (id : TaskId) : Prop where
  task : s'.tasks.find? id = s.tasks.find? id
  spares : ∀ t u, s.tasks.find? id = some t → t.unit = some u → s.ledger.Spares s'.ledger u

theorem Lawful.start (settings : Settings) : (Service.start settings).Lawful where
  ledger := .empty
  opened id t u ht := by simp [Service.start] at ht
  apart id id' t t' u ht := by simp [Service.start] at ht
  numbered id ht := by simp [Service.start] at ht
  interrupts id t i ht := by simp [Service.start] at ht

theorem Goes.makes (h : s.Goes turn s') : ∃ m, s.ledger.Makes m s'.ledger := by
  cases h with
  | aside ledger tasks submitted =>
    rw [ledger]
    exact ⟨.rest, .refl s.ledger⟩
  | added t unit interrupts => exact ⟨.rest, .refl s.ledger⟩
  | outside makes foreign => exact ⟨_, makes⟩
  | moved task serves => exact serves.makes
  | gone task serves => exact serves.makes

theorem Goes.ledger_cases (h : s.Goes turn s') (hs : s.Lawful) :
    s'.ledger.Lawful ∧ s.ledger.drawn.UpTo s'.ledger.drawn ∧
      ∀ u : Int, s.ledger.Over u → s'.ledger.Over u := by
  cases h with
  | aside ledger tasks submitted =>
    rw [ledger]
    exact ⟨hs.ledger, .refl _, fun _ h => h⟩
  | added t unit interrupts => exact ⟨hs.ledger, .refl _, fun _ h => h⟩
  | outside makes foreign =>
    exact ⟨hs.ledger.makes makes, makes.upTo, fun _ h => h.makes makes⟩
  | moved task serves => exact ⟨serves.lawful hs.ledger, serves.upTo, fun _ h => serves.over h⟩
  | gone task serves => exact ⟨serves.lawful hs.ledger, serves.upTo, fun _ h => serves.over h⟩

/-- What an outside unit of work does leaves the unit of work of every task alone. -/
theorem Lawful.spares_of_foreign {l' : Ledger} {m : Move} (hs : s.Lawful)
    (hm : s.ledger.Makes m l')
    (hforeign : ∀ u : Int, m.unit? = some u → u = s.ledger.begins + 1 ∨ ¬ s.Owned u)
    (ht : s.tasks.find? id = some t) (hu : t.unit = some u) : s.ledger.Spares l' u := by
  have hopen := hs.opened id t u ht hu
  refine hm.spares hs.ledger hopen fun heq => ?_
  rcases hforeign u heq with rfl | hforeign
  · have := hs.ledger.orderly.numbered _ hopen
    omega
  · exact hforeign (owned_iff.mpr ⟨id, t, ht, hu⟩)

theorem Goes.leaves (h : s.Goes turn s') (hs : s.Lawful) (hid : (s.tasks.find? id).isSome)
    (hturn : turn ≠ some id) : s.Leaves s' id := by
  cases h with
  | aside ledger tasks submitted =>
    exact ⟨by rw [tasks], fun t u _ _ => by rw [ledger]; exact .refl _ u⟩
  | added t unit interrupts =>
    have hne : id ≠ s.submitted + 1 := by
      rintro rfl
      have := hs.numbered _ hid
      omega
    refine ⟨?_, fun t u _ _ => .refl _ u⟩
    simp [addTask, hne]
  | outside makes foreign => exact ⟨rfl, fun t u ht hu => hs.spares_of_foreign makes foreign ht hu⟩
  | @moved id' t' l' unit process task serves =>
    have hne : id ≠ id' := fun heq => hturn (by rw [heq])
    refine ⟨by simp [hne], fun t u ht hu => ?_⟩
    exact serves.spares hs.ledger (hs.opened id t u ht hu) fun hu' =>
      hne (hs.apart id id' t t' u ht task hu hu')
  | @gone id' t' l' unit task serves =>
    have hne : id ≠ id' := fun heq => hturn (by rw [heq])
    refine ⟨by simp [hne], fun t u ht hu => ?_⟩
    exact serves.spares hs.ledger (hs.opened id t u ht hu) fun hu' =>
      hne (hs.apart id id' t t' u ht task hu hu')

/-- A unit of work of one task is never handed to another one. -/
theorem Lawful.not_taken {l' : Ledger} {unit : Option UnitId} {id' : TaskId} {t' : Task}
    (hs : s.Lawful) (ht : s.tasks.find? id = some t) (ht' : s.tasks.find? id' = some t')
    (hne : id ≠ id') (hserves : s.ledger.Serves t.unit l' unit) (hu : unit = some u)
    (hu' : t'.unit = some u) : False := by
  rcases hserves.unit_cases hu with hu | rfl
  · exact hne (hs.apart id id' t t' u ht ht' hu hu')
  · have := hs.ledger.orderly.numbered _ (hs.opened id' t' _ ht' hu')
    omega

theorem Lawful.added (hs : s.Lawful) (ht : t.unit = none)
    (hinterrupts : ∀ i ∈ t.interrupts, i.Proper) : (s.addTask t).1.Lawful := by
  have hold : ∀ id' t' u, (s.addTask t).1.tasks.find? id' = some t' → t'.unit = some u →
      s.tasks.find? id' = some t' := by
    intro id' t' u ht' hu
    simp only [addTask, Table.find?_insert] at ht'
    split at ht'
    · cases ht'
      rw [ht] at hu
      cases hu
    · exact ht'
  constructor
  case ledger =>
    exact hs.ledger
  case opened =>
    intro id t u ht hu
    exact hs.opened id t u (hold id t u ht hu) hu
  case apart =>
    intro id id' t t' u ht ht' hu hu'
    exact hs.apart id id' t t' u (hold id t u ht hu) (hold id' t' u ht' hu') hu hu'
  case numbered =>
    intro id hid
    simp only [addTask, Table.find?_insert] at hid
    split at hid
    · rename_i heq
      subst heq
      simp [addTask]
    · have := hs.numbered id hid
      simp only [addTask]
      push_cast
      omega
  case interrupts =>
    intro id t' i ht' hi
    simp only [addTask, Table.find?_insert] at ht'
    split at ht'
    · cases ht'
      exact hinterrupts i hi
    · exact hs.interrupts id t' i ht' hi

theorem Lawful.moved {l' : Ledger} {unit : Option UnitId} {process : Process Answer}
    (hs : s.Lawful) (ht : s.tasks.find? id = some t) (hserves : s.ledger.Serves t.unit l' unit) :
    Lawful { s with ledger := l', tasks := s.tasks.insert id { t with process, unit } } := by
  constructor
  case ledger =>
    exact hserves.lawful hs.ledger
  case opened =>
    intro id₁ t₁ u ht₁ hu
    simp only [Table.find?_insert] at ht₁
    split at ht₁
    · cases ht₁
      exact hserves.isOpen (fun u' hu' => hs.opened id t u' ht hu') hu
    · rename_i hne
      have hopen := hs.opened id₁ t₁ u ht₁ hu
      -- Another task has another unit of work, which the turn leaves alone.
      have hspares := hserves.spares hs.ledger hopen fun hu' =>
        hne (hs.apart id₁ id t₁ t u ht₁ ht hu hu')
      show (l'.units.find? u).isSome
      rwa [hspares.unit]
  case apart =>
    intro id₁ id₂ t₁ t₂ u ht₁ ht₂ hu₁ hu₂
    simp only [Table.find?_insert] at ht₁ ht₂
    -- Two tasks could share a unit of work only if one of them were the task whose turn it is.
    split at ht₁ <;> split at ht₂
    · rename_i heq₁ heq₂
      rw [heq₁, heq₂]
    · rename_i heq₁ hne
      cases ht₁
      exact (hs.not_taken ht ht₂ (fun heq => hne heq.symm) hserves hu₁ hu₂).elim
    · rename_i hne heq₂
      cases ht₂
      exact (hs.not_taken ht ht₁ (fun heq => hne heq.symm) hserves hu₂ hu₁).elim
    · exact hs.apart id₁ id₂ t₁ t₂ u ht₁ ht₂ hu₁ hu₂
  case numbered =>
    intro id₁ hid
    simp only [Table.find?_insert] at hid
    split at hid
    · rename_i heq
      subst heq
      exact hs.numbered id₁ (by simp [ht])
    · exact hs.numbered id₁ hid
  case interrupts =>
    intro id₁ t₁ i ht₁ hi
    simp only [Table.find?_insert] at ht₁
    split at ht₁
    · cases ht₁
      exact hs.interrupts id t i ht hi
    · exact hs.interrupts id₁ t₁ i ht₁ hi

theorem Lawful.gone {l' : Ledger} {unit : Option UnitId} (hs : s.Lawful)
    (ht : s.tasks.find? id = some t) (hserves : s.ledger.Serves t.unit l' unit) :
    Lawful { s with ledger := l', tasks := s.tasks.erase id } := by
  have hold : ∀ id' t', (s.tasks.erase id).find? id' = some t' →
      id' ≠ id ∧ s.tasks.find? id' = some t' := by
    intro id' t' ht'
    rw [Table.find?_erase] at ht'
    split at ht'
    · cases ht'
    · rename_i hne
      exact ⟨hne, ht'⟩
  constructor
  case ledger =>
    exact hserves.lawful hs.ledger
  case opened =>
    intro id₁ t₁ u ht₁ hu
    obtain ⟨hne, ht₁⟩ := hold id₁ t₁ ht₁
    have hopen := hs.opened id₁ t₁ u ht₁ hu
    have hspares := hserves.spares hs.ledger hopen fun hu' =>
      hne (hs.apart id₁ id t₁ t u ht₁ ht hu hu')
    show (l'.units.find? u).isSome
    rwa [hspares.unit]
  case apart =>
    intro id₁ id₂ t₁ t₂ u ht₁ ht₂ hu₁ hu₂
    exact hs.apart id₁ id₂ t₁ t₂ u (hold id₁ t₁ ht₁).2 (hold id₂ t₂ ht₂).2 hu₁ hu₂
  case numbered =>
    intro id₁ hid
    obtain ⟨t₁, ht₁⟩ := Option.isSome_iff_exists.mp hid
    exact hs.numbered id₁ (by simp [(hold id₁ t₁ ht₁).2])
  case interrupts =>
    intro id₁ t₁ i ht₁ hi
    exact hs.interrupts id₁ t₁ i (hold id₁ t₁ ht₁).2 hi

/-- Every step keeps a service lawful. -/
theorem Lawful.goes (hs : s.Lawful) (h : s.Goes turn s') : s'.Lawful := by
  cases h with
  | aside ledger tasks submitted =>
    exact ⟨by rw [ledger]; exact hs.ledger, by rw [ledger, tasks]; exact hs.opened,
      by rw [tasks]; exact hs.apart, by rw [tasks, submitted]; exact hs.numbered,
      by rw [tasks]; exact hs.interrupts⟩
  | added t unit interrupts => exact hs.added unit interrupts
  | outside makes foreign =>
    refine ⟨hs.ledger.makes makes, fun id t u ht hu => ?_, hs.apart, hs.numbered, hs.interrupts⟩
    rw [(hs.spares_of_foreign makes foreign ht hu).unit]
    exact hs.opened id t u ht hu
  | moved task serves => exact hs.moved task serves
  | gone task serves => exact hs.gone task serves

theorem Lawful.step (hs : s.Lawful) (a : Action) : (s.step a).Lawful := hs.goes (s.step_goes a)

theorem Lawful.submit (hs : s.Lawful) (op : Operation) : (s.submit op).1.Lawful :=
  hs.step (.submit op)

end Service
end FundsLedger
