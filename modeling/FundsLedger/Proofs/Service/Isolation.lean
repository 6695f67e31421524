import FundsLedger.Proofs.Ledger.Isolation
import FundsLedger.Proofs.Service.Turns

/-!
Isolation of tasks. While a task has a unit of work open, everybody else does and is shown the same
whatever is staged in it; that goes for other tasks, for units of work outside tasks and for whoever
looks at the books.
-/

namespace FundsLedger

namespace Ledger

variable {l : Ledger} {unit : Option UnitId} {u : UnitId} {x : UnitOfWork}

/-- Responding to a process that does not have the unit of work. -/
theorem respond_restage (hunit : unit ≠ some u) (hu : u ≤ l.begins) (r : Request) :
    (l.restage u x).respond unit r =
      { l.respond unit r with ledger := (l.respond unit r).ledger.restage u x } := by
  cases r with
  | begin => simp only [respond, restage_begin hu]; rfl
  | call c =>
    cases unit with
    | none => rfl
    | some u' =>
      have hne : u' ≠ u := fun heq => hunit (by rw [heq])
      simp only [respond, Option.bind_some, restage_resume? hne, restage_call? hne, ← Option.map_or]
      rcases (l.resume? u' c).or (l.call? u' c) with _ | ⟨l', result | _⟩ <;> rfl
  | commit =>
    cases unit with
    | none => rfl
    | some u' =>
      have hne : u' ≠ u := fun heq => hunit (by rw [heq])
      simp only [respond, Option.bind_some, restage_commit? hne]
      cases l.commit? u' <;> rfl
  | rollback =>
    cases unit with
    | none => rfl
    | some u' =>
      have hne : u' ≠ u := fun heq => hunit (by rw [heq])
      simp only [respond, Option.bind_some, restage_rollback? hne]
      cases l.rollback? u' <;> rfl

theorem abandonAny_restage (hunit : unit ≠ some u) :
    (l.restage u x).abandonAny unit = restaged u x (l.abandonAny unit) := by
  cases unit with
  | none => rfl
  | some u' => exact restage_abandon fun heq => hunit (by rw [heq])

end Ledger

theorem Process.advance_restage {α : Type} {l : Ledger} {unit : Option UnitId} {u : UnitId}
    {x : UnitOfWork} (hunit : unit ≠ some u) (hu : u ≤ l.begins) (p : Process α) :
    p.advance (l.restage u x) unit =
      { p.advance l unit with ledger := (p.advance l unit).ledger.restage u x } := by
  cases p with
  | done a => rfl
  | ask request next =>
    simp only [advance, Ledger.respond_restage hunit hu]
    cases (l.respond unit request).reply <;> rfl
  | note event rest => rfl
  | sleep longest rest => rfl
  | panic message => simp only [advance, Ledger.abandonAny_restage hunit]; rfl

/-- Whether a task can be dropped depends on its own unit of work. -/
theorem Task.stoppable_restage {l : Ledger} {u : UnitId} {x : UnitOfWork} (t : Task)
    (hunit : t.unit ≠ some u) : t.Stoppable (l.restage u x) ↔ t.Stoppable l := by
  unfold Task.Stoppable
  split
  · rfl
  · rfl
  · rename_i u' _ heq
    have hne : u' ≠ u := fun h => hunit (by rw [heq, h])
    rw [Ledger.restage_find? hne]
  · rfl

namespace Service

open Ledger

variable {s : Service} {id id' : TaskId} {t : Task} {u : UnitId} {x : UnitOfWork} {a : Action}

/-- The service in whose ledger the unit of work has staged something else. -/
def restage (s : Service) (u : UnitId) (x : UnitOfWork) : Service :=
  { s with ledger := s.ledger.restage u x }

/-- What a step shows to whoever made it. -/
inductive Shown where
  | nothing
  | moved (events : List Event) (how : Option (Settled Answer))
  | dropped (events : List Event)
  | replied (reply : Ledger.Reply)

/-- What the next step shows. -/
def shows (s : Service) : Action → Shown
  | .advance id => .moved (s.advance id).2.1 (s.advance id).2.2
  | .interrupt id => .moved (s.interrupt id).2.1 (s.interrupt id).2.2
  | .abort id => .dropped (s.abort id).2
  | .ledger action =>
    if action.unit?.any (fun u => s.Owned u) then .nothing
    else .replied (s.ledger.step action).2
  | .configure _ | .submit _ | .pass _ => .nothing

/-- What the steps of a run show, one after the other. -/
def shown (s : Service) : List Action → List Shown
  | [] => []
  | a :: rest => s.shows a :: (s.step a).shown rest

theorem restage_settle (moved : Moved Answer) :
    (s.restage u x).settle id t { moved with ledger := moved.ledger.restage u x } =
      ((s.settle id t moved).1.restage u x, (s.settle id t moved).2) := by
  unfold settle
  cases moved.standing <;> rfl

section Others

variable (hu : u ≤ s.ledger.begins)
  (hother : ∀ t, s.tasks.find? id = some t → t.unit ≠ some u)

include hu hother

theorem advance_restage : (s.restage u x).advance id =
    ((s.advance id).1.restage u x, (s.advance id).2) := by
  have htasks : (s.restage u x).tasks = s.tasks := rfl
  unfold advance
  rw [htasks]
  cases ht : s.tasks.find? id with
  | none => rfl
  | some t =>
    have hadvance := t.process.advance_restage (x := x) (hother t ht) hu
    simp only [restage] at hadvance ⊢
    rw [hadvance]
    exact restage_settle _

omit hu

theorem interrupt_restage : (s.restage u x).interrupt id =
    ((s.interrupt id).1.restage u x, (s.interrupt id).2) := by
  have htasks : (s.restage u x).tasks = s.tasks := rfl
  unfold interrupt
  rw [htasks]
  cases ht : s.tasks.find? id with
  | none => rfl
  | some t =>
    have hinterruptible : t.Interruptible (s.restage u x).ledger ↔ t.Interruptible s.ledger := .rfl
    have hnow : (s.restage u x).now = s.now := rfl
    have habandon : (s.restage u x).ledger.abandonAny t.unit =
        restaged u x (s.ledger.abandonAny t.unit) := abandonAny_restage (hother t ht)
    simp only [hinterruptible, hnow, habandon]
    cases t.interrupts.find? (·.due ≤ s.now) with
    | none => rfl
    | some i =>
      simp only
      split <;> rfl

theorem abort_restage : (s.restage u x).abort id =
    ((s.abort id).1.restage u x, (s.abort id).2) := by
  have htasks : (s.restage u x).tasks = s.tasks := rfl
  unfold abort
  rw [htasks]
  cases ht : s.tasks.find? id with
  | none => rfl
  | some t =>
    have hstoppable : t.Stoppable (s.restage u x).ledger ↔ t.Stoppable s.ledger :=
      t.stoppable_restage (hother t ht)
    have habandon : (s.restage u x).ledger.abandonAny t.unit =
        restaged u x (s.ledger.abandonAny t.unit) := abandonAny_restage (hother t ht)
    simp only [hstoppable, habandon]
    split <;> rfl

end Others

/-- While a task has a unit of work open, the steps of everybody else show and do the same whatever
is staged in it. -/
theorem Lawful.step_restage (hs : s.Lawful) (ht : s.tasks.find? id = some t)
    (hunit : t.unit = some u) (ha : a.turn? ≠ some id) :
    (s.restage u x).step a = (s.step a).restage u x ∧ (s.restage u x).shows a = s.shows a := by
  have hu := hs.ledger.orderly.numbered u (hs.opened id t u ht hunit)
  -- Another task has another unit of work.
  have hother : ∀ id', some id' ≠ some id → ∀ t', s.tasks.find? id' = some t' →
      t'.unit ≠ some u := by
    intro id' hne t' ht' hunit'
    exact hne (by rw [hs.apart id' id t' t u ht' ht hunit' hunit])
  cases a with
  | configure settings => exact ⟨rfl, rfl⟩
  | submit op => exact ⟨rfl, rfl⟩
  | pass d => exact ⟨rfl, rfl⟩
  | advance id' =>
    have h := advance_restage (x := x) hu (hother id' ha)
    exact ⟨congrArg Prod.fst h, by simp only [shows, h]⟩
  | interrupt id' =>
    have h := interrupt_restage (x := x) (hother id' ha)
    exact ⟨congrArg Prod.fst h, by simp only [shows, h]⟩
  | abort id' =>
    have h := abort_restage (x := x) (hother id' ha)
    exact ⟨congrArg Prod.fst h, by simp only [shows, h]⟩
  | ledger action =>
    have howned : ∀ u', (s.restage u x).Owned u' ↔ s.Owned u' := fun _ => .rfl
    simp only [Service.step, shows, howned]
    split
    · exact ⟨rfl, rfl⟩
    · rename_i hforeign
      have hne : action.unit? ≠ some u := by
        intro heq
        exact hforeign (by simpa [heq] using owned_iff.mpr ⟨id, t, ht, hunit⟩)
      have h : (s.restage u x).ledger.step action = restaged u x (s.ledger.step action) :=
        Ledger.step_restage hne hu
      rw [h]
      exact ⟨rfl, rfl⟩

/-- The same for all that everybody else does until the task itself goes on. -/
theorem Lawful.run_restage (hs : s.Lawful) (ht : s.tasks.find? id = some t)
    (hunit : t.unit = some u) {others : List Action} (hothers : ∀ a ∈ others, a.turn? ≠ some id) :
    (s.restage u x).run others = (s.run others).restage u x ∧
      (s.restage u x).shown others = s.shown others := by
  induction others generalizing s with
  | nil => exact ⟨rfl, rfl⟩
  | cons a rest ih =>
    have ha := hothers a List.mem_cons_self
    obtain ⟨hstep, hshows⟩ := hs.step_restage (x := x) ht hunit ha
    have htask := ((s.step_goes a).leaves hs (by simp [ht]) ha).task
    obtain ⟨hrun, hshown⟩ := ih (hs.step a) (htask.trans ht)
      fun b hb => hothers b (List.mem_cons_of_mem a hb)
    simp only [run, List.foldl_cons, shown, hstep, hshows] at hrun hshown ⊢
    exact ⟨hrun, by rw [hshown]⟩

end Service
end FundsLedger
