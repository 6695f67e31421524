import FundsLedger.Proofs.Service.Runs

/-!
Polls. A poll lets a task take one step after the other until it ends or has to pause, and then cuts
it short if an interrupt is due. So a poll is a run of turns of the one task, and what holds in
every run of single steps holds for polls as well.
-/

namespace FundsLedger

/-- The process does not go on without a pause from where it stands. -/
def Process.Pauses {α : Type} : Process α → Prop
  | ask .. | sleep .. => True
  | done _ | note .. | panic _ => False

namespace Service

open Ledger

variable {s : Service} {id : TaskId} {t : Task}

/-- So many steps of one task. -/
def turns (id : TaskId) (n : Nat) : List Action := List.replicate n (.advance id)

theorem run_turns_succ (s : Service) (id : TaskId) (n : Nat) :
    s.run (turns id (n + 1)) = (s.advance id).1.run (turns id n) := by
  rw [turns, List.replicate_succ]
  rfl

/-- Taking a step first makes no difference to what is settled later. -/
theorem settle_advance {l' : Ledger} {unit : Option UnitId} {p : Process Answer}
    {moved : Moved Answer} :
    settle { s with ledger := l', tasks := s.tasks.insert id { t with process := p, unit } } id
        { t with process := p, unit } moved = s.settle id t moved := by
  unfold settle
  split
  · simp only [Table.erase_insert]
  · simp only [Table.insert_insert]

/-- How a task comes to where it is after going on as far as it can: by single steps, and if it
ends, it ends with the last of them. -/
inductive Drives (s : Service) (id : TaskId) (t : Task) (moved : Moved Answer) : Prop
  | ended {n : Nat} {how : Settled Answer} (standing : moved.standing = .settled how)
      (last : ((s.run (turns id n)).advance id).1 = (s.settle id t moved).1)
      (how : ((s.run (turns id n)).advance id).2.2 = some how)
  | paused {n : Nat} {p : Process Answer} (standing : moved.standing = .suspended p)
      (pauses : p.Pauses) (run : s.run (turns id n) = (s.settle id t moved).1)

theorem Drives.step {l' : Ledger} {unit : Option UnitId} {p : Process Answer} {events : List Event}
    {moved : Moved Answer} (ht : s.tasks.find? id = some t)
    (hadvance : t.process.advance s.ledger t.unit = ⟨l', unit, events, .suspended p⟩)
    (hd : Drives { s with ledger := l', tasks := s.tasks.insert id { t with process := p, unit } }
      id { t with process := p, unit } moved) : s.Drives id t moved := by
  have hnext : (s.advance id).1 =
      { s with ledger := l', tasks := s.tasks.insert id { t with process := p, unit } } := by
    simp [advance, ht, hadvance, settle]
  cases hd with
  | ended standing last how =>
    rw [settle_advance, ← hnext, ← run_turns_succ] at last
    rw [← hnext, ← run_turns_succ] at how
    exact .ended standing last how
  | @paused n p standing pauses run =>
    rw [settle_advance, ← hnext, ← run_turns_succ] at run
    exact .paused standing pauses run

/-- What is reported on the way does not matter to where a task comes. -/
theorem Drives.events {moved : Moved Answer} (events : List Event) (hd : s.Drives id t moved) :
    s.Drives id t { moved with events } := by
  have hsettle : (s.settle id t { moved with events }).1 = (s.settle id t moved).1 := by
    unfold settle
    cases moved.standing <;> rfl
  cases hd with
  | ended standing last how =>
    rw [← hsettle] at last
    exact .ended standing last how
  | paused standing pauses run =>
    rw [← hsettle] at run
    exact .paused standing pauses run

theorem drive_drives (hurried : Bool) {p : Process Answer} (ht : s.tasks.find? id = some t)
    (hp : t.process = p) : s.Drives id t (p.drive hurried s.ledger t.unit) := by
  -- Induction on the process: each step of the drive is one turn of the task.
  induction p generalizing s t with
  | done a =>
    refine .ended (n := 0) rfl ?_ ?_ <;>
      simp only [turns, List.replicate_zero, run, List.foldl_nil, advance, ht, hp, Process.advance,
        Process.drive, settle]
  | panic message =>
    refine .ended (n := 0) rfl ?_ ?_ <;>
      simp only [turns, List.replicate_zero, run, List.foldl_nil, advance, ht, hp, Process.advance,
        Process.drive, settle]
  | note event rest ih =>
    have hadvance : t.process.advance s.ledger t.unit =
        ⟨s.ledger, t.unit, [event], .suspended rest⟩ := by
      rw [hp]
      rfl
    exact .step ht hadvance ((ih (by simp) rfl).events _)
  | sleep longest rest ih =>
    simp only [Process.drive]
    split
    · refine .paused (n := 0) rfl trivial ?_
      show s = _
      simp only [settle, ← hp]
      rw [Table.insert_self ht]
    · have hadvance : t.process.advance s.ledger t.unit =
          ⟨s.ledger, t.unit, [], .suspended rest⟩ := by
        rw [hp]
        rfl
      exact .step ht hadvance (ih (by simp) rfl)
  | ask request next ih =>
    simp only [Process.drive]
    cases hreply : (s.ledger.respond t.unit request).reply with
    | some reply =>
      have hadvance : t.process.advance s.ledger t.unit =
          ⟨(s.ledger.respond t.unit request).ledger, (s.ledger.respond t.unit request).unit, [],
            .suspended (next reply)⟩ := by
        simp only [hp, Process.advance, hreply]
      exact .step ht hadvance (ih reply (by simp) rfl)
    -- The call has been made and waits, which takes a turn as well.
    | none =>
      refine .paused (n := 1) rfl trivial ?_
      show (s.advance id).1 = _
      simp only [advance, ht, hp, Process.advance, hreply]

/-- How a poll goes: there is no such task; or the task takes steps and ends with the last of them;
or it takes steps until it pauses, and is then cut short if it has to be. -/
inductive Polls (s : Service) (id : TaskId) : Prop
  | absent (task : s.tasks.find? id = none) (same : (s.poll id).1 = s)
  | ended {n : Nat} {how : Settled Answer}
      (last : (s.poll id).1 = ((s.run (turns id n)).advance id).1)
      (how : (s.poll id).2.2 = some how ∧ ((s.run (turns id n)).advance id).2.2 = some how)
  | paused {n : Nat} {t : Task} (task : (s.run (turns id n)).tasks.find? id = some t)
      (pauses : t.process.Pauses)
      (last : (s.poll id).1 = ((s.run (turns id n)).interrupt id).1)

theorem poll_polls (s : Service) (id : TaskId) : s.Polls id := by
  cases ht : s.tasks.find? id with
  | none => exact .absent ht (by simp [poll, ht])
  | some t =>
    have hdrives := drive_drives (t.interrupts.any (·.due ≤ s.now)) ht rfl
    cases hdrives with
    | ended standing last how =>
      refine .ended ?_ ⟨?_, how⟩
      · rw [last]
        simp [poll, ht, settle, standing]
      · simp [poll, ht, settle, standing]
    | @paused n p standing pauses run =>
      refine .paused (n := n)
        (t := { t with
          process := p
          unit := (t.process.drive (t.interrupts.any (·.due ≤ s.now)) s.ledger t.unit).unit })
        ?_ pauses ?_
      · rw [run]
        simp [settle, standing]
      · rw [run]
        simp [poll, ht, settle, standing]

/-- A poll is a run of turns of the task. -/
theorem poll_run (s : Service) (id : TaskId) :
    ∃ actions, (s.poll id).1 = s.run actions ∧ ∀ a ∈ actions, a.turn? = some id := by
  have hturns : ∀ n last, last.turn? = some id →
      ∀ a ∈ turns id n ++ [last], a.turn? = some id := by
    intro n last hlast a ha
    rcases List.mem_append.mp ha with ha | ha
    · rw [List.eq_of_mem_replicate ha]
      rfl
    · rw [List.mem_singleton.mp ha]
      exact hlast
  cases poll_polls s id with
  | absent task same => exact ⟨[], same, fun a ha => nomatch ha⟩
  | @ended n _ last how =>
    exact ⟨turns id n ++ [.advance id], by rw [run_concat, last]; rfl, hturns n _ rfl⟩
  | @paused n _ task pauses last =>
    exact ⟨turns id n ++ [.interrupt id], by rw [run_concat, last]; rfl, hturns n _ rfl⟩

end Service
end FundsLedger
