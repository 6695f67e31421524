import FundsLedger.Proofs.Conduct
import FundsLedger.Proofs.Service.Turns

/-!
Following a task. A task whose process keeps some rules goes on keeping them, whatever happens
around it: turns of others leave its view right, and its own turns go as the rules foresee. Its
history grows turn by turn, and at the end it is one for which the rules vouch.
-/

namespace FundsLedger

open Ledger

variable {α : Type} {K : Rules} {l l' : Ledger} {h h' : History}

namespace Process

/-- The call that a process makes or waits in. -/
def call? : Process α → Option Call
  | ask (.call c) _ => some c
  | _ => none

end Process

/-- The view is right about the unit of work that a process has open; if that waits, it is in the
call of the process. -/
inductive View.Attached (l : Ledger) : Option UnitId → Option View → Process α → Prop
  | idle {p : Process α} : Attached l none none p
  | busy {u : UnitId} {v : View} {q : Option Call} {p : Process α} (fits : v.Fits l u q)
      (pending : q = none ∨ q = p.call?) : Attached l (some u) (some v) p

/-- How a turn adds to the history of a task: it finds the books as they are, or it publishes. -/
inductive History.Passes (h : History) (l l' : Ledger) : History → Prop
  | idle (books : l'.books = l.books) (commits : l'.commits = l.commits) : Passes h l l' h
  | saw (books : l'.books = l.books) (commits : l'.commits = l.commits) :
      Passes h l l' (h.see l.books)
  | published (unpublished : h.published = none) (commits : l'.commits = l.commits + 1) :
      Passes h l l' { h with published := some (l.books, l'.books) }

/-- A unit of work is kept open or is over. -/
def Ledger.Releases (unit : Option UnitId) (l' : Ledger) (unit' : Option UnitId) : Prop :=
  ∀ u : Int, unit = some u → unit' = some u ∨ l'.Over u

/-- What has become of a process that keeps the rules after one step: it has answered as the rules
say and left the ledger alone, or it goes on keeping them. -/
inductive Process.Advanced (K : Rules) (post : History → α → Prop) (h : History) (l : Ledger)
    (unit : Option UnitId) : Moved α → Prop
  | answered {a : α} (answers : post h a) (free : unit = none) :
      Advanced K post h l unit ⟨l, none, [], .settled (.answered a)⟩
  | went {l' : Ledger} {unit' : Option UnitId} {events : List Event} {p : Process α}
      {view : Option View} {h' : History} (keeps : p.Keeps K post h' view)
      (attached : View.Attached l' unit' view p) (passes : h.Passes l l' h')
      (releases : Releases unit l' unit') :
      Advanced K post h l unit ⟨l', unit', events, .suspended p⟩

theorem Ledger.Releases.refl (l : Ledger) (unit : Option UnitId) : Releases unit l unit :=
  fun _ hu => Or.inl hu

theorem Ledger.Releases.of_none (l : Ledger) (unit' : Option UnitId) : Releases none l unit' :=
  fun _ hu => nomatch hu

/-- Whoever closes a unit of work is rid of it. -/
theorem Ledger.Releases.close {u : UnitId} (hl : l.Lawful) (hopen : (l.units.find? u).isSome)
    (hbegins : l'.begins = l.begins) (hunits : l'.units = l.units.erase u) :
    Releases (some u) l' none := by
  intro u' hu'
  cases hu'
  right
  refine ⟨?_, by simp [hunits]⟩
  rw [hbegins]
  exact hl.orderly.numbered u hopen

namespace Process.Keeps

variable {post : History → α → Prop} {view : Option View} {unit : Option UnitId}

/-- One step of a process that keeps the rules. -/
theorem advance {p : Process α} (hk : p.Keeps K post h view) (hl : l.Lawful) (hr : K.relies l)
    (ha : View.Attached l unit view p) : Advanced K post h l unit (p.advance l unit) := by
  cases p with
  | done a =>
    obtain ⟨rfl, hpost⟩ := hk
    cases ha
    exact .answered hpost rfl
  | note event rest =>
    refine .went hk ?_ (.idle rfl rfl) (.refl l unit)
    cases ha with
    | idle => exact .idle
    | busy fits pending => exact .busy fits (Or.inl (by simpa [Process.call?] using pending))
  | sleep longest rest =>
    obtain ⟨-, rfl, hrest⟩ := hk
    cases ha
    exact .went hrest .idle (.idle rfl rfl) (.refl l none)
  | panic message => exact hk.elim
  | ask request next =>
    cases request with
    | begin =>
      obtain ⟨-, rfl, hnext⟩ := hk
      cases ha
      exact .went hnext (.busy (View.Fits.begin hl) (Or.inl rfl)) (.idle rfl rfl)
        (.of_none _ _)
    -- A call that waits changes nothing for the task; one that is answered is one more thing seen.
    | call c =>
      obtain ⟨hnone, v, rfl, hcalls, hnext⟩ := hk
      cases ha with
      | @busy u v q p fits pending =>
        have hresponds := fits.respond_call hl pending
        simp only [Process.advance]
        cases hresponse : l.respond (some u) (.call c) with
        | mk l' unit' reply =>
          rw [hresponse] at hresponds
          cases hresponds with
          | waits row? waits fits' called =>
            exact .went ⟨hnone, v, rfl, hcalls, hnext⟩ (.busy fits' (Or.inr rfl))
              (.idle called.books called.commits) (.refl l' (some u))
          | answered answers fits' called =>
            exact .went (hnext l u q _ _ ⟨hl, hr, fits⟩ answers) (.busy fits' (Or.inl rfl))
              (.saw called.books called.commits) (.refl l' (some u))
    | commit =>
      obtain ⟨hnone, v, rfl, hcommits, hnext⟩ := hk
      cases ha with
      | @busy u v q p fits pending =>
        have hq : q = none := by simpa [Process.call?] using pending
        subst hq
        have hkeeps := hnext l u ⟨hl, hr, fits⟩
        have hcommitted := commitUnit_committed l u v.staged
        have hopen : (l.units.find? u).isSome := by simp [fits.stands]
        simp only [Process.advance, fits.respond_commit]
        generalize l.commitUnit u v.staged = committed at hcommitted hkeeps ⊢
        obtain ⟨l', r⟩ := committed
        -- Published or not, the unit of work is closed.
        cases hcommitted with
        | failed e conflicts => exact .went hkeeps .idle (.saw rfl rfl) (.close hl hopen rfl rfl)
        | published unique =>
          exact .went hkeeps .idle (.published hnone rfl) (.close hl hopen rfl rfl)
    | rollback =>
      obtain ⟨hnone, hsome, hnext⟩ := hk
      cases ha with
      | idle => cases hsome
      | @busy u v q p fits pending =>
        have hq : q = none := by simpa [Process.call?] using pending
        subst hq
        simp only [Process.advance, fits.respond_rollback]
        exact .went hnext .idle (.idle rfl rfl) (.close hl (by simp [fits.stands]) rfl rfl)

/-- Where a process can be cut short or dropped, it has published nothing. -/
theorem unpublished {p : Process α} (hk : p.Keeps K post h view)
    (hp : ∀ event rest, p ≠ .note event rest) (hdone : ∀ a, p ≠ .done a) :
    h.published = none := by
  cases p with
  | done a => exact absurd rfl (hdone a)
  | note event rest => exact absurd rfl (hp event rest)
  | sleep longest rest => exact hk.1
  | panic message => exact hk.elim
  | ask request next =>
    cases request with
    | begin => exact hk.1
    | call c => exact hk.1
    | commit => exact hk.1
    | rollback => exact hk.1

end Process.Keeps

namespace Service

variable {s s' : Service} {turn : Option TaskId} {id : TaskId} {t : Task}
variable {post : History → Answer → Prop}

/-- The task is in the service and keeps the rules. -/
def Follows (s : Service) (K : Rules) (post : History → Answer → Prop) (id : TaskId)
    (h : History) : Prop :=
  ∃ t view, s.tasks.find? id = some t ∧ View.Attached s.ledger t.unit view t.process ∧
    t.process.Keeps K post h view

/-- The task has been in the service and is so no longer. -/
structure Past (s : Service) (id : Int) : Prop where
  numbered : id ≤ s.submitted
  absent : s.tasks.find? id = none

/-- A task that ends leaves the books alone, and its unit of work is over. -/
structure Stopped (s s' : Service) (id : TaskId) : Prop where
  absent : s'.tasks.find? id = none
  books : s'.ledger.books = s.ledger.books
  commits : s'.ledger.commits = s.ledger.commits
  opens : ∀ u, (s'.ledger.units.find? u).isSome → (s.ledger.units.find? u).isSome
  released : ∀ t u, s.tasks.find? id = some t → t.unit = some u → s'.ledger.Over u

namespace Follows

/-- A task that has just been submitted. -/
theorem submit {op : Operation}
    (hk : (op.process s.settings.policy).Keeps K post History.empty none) :
    (s.submit op).1.Follows K post (s.submit op).2 History.empty :=
  ⟨⟨op.process s.settings.policy, none, op.interrupts s.settings.timeout s.now⟩, none,
    by simp [Service.submit, addTask], .idle, hk⟩

/-- A task that stands at a call makes one that the rules allow. -/
theorem calls {c : Call} {next : c.Result → Process Answer} (hf : s.Follows K post id h)
    (ht : s.tasks.find? id = some t) (hp : t.process = .ask (.call c) next) :
    ∃ u v q, t.unit = some u ∧ View.Fits v s.ledger u q ∧ (q = none ∨ q = some c) ∧
      K.calls v c := by
  obtain ⟨t', view, ht', ha, hk⟩ := hf
  rw [ht, Option.some.injEq] at ht'
  subst ht'
  rw [hp] at hk ha
  obtain ⟨-, v, rfl, hcalls, -⟩ := hk
  generalize t.unit = unit at ha
  cases ha with
  | busy fits pending => exact ⟨_, v, _, rfl, fits, pending, hcalls⟩

/-- A turn of others. -/
theorem leaves (hf : s.Follows K post id h) (hl : s.Leaves s' id)
    (hup : s.ledger.drawn.UpTo s'.ledger.drawn) : s'.Follows K post id h := by
  obtain ⟨t, view, ht, ha, hk⟩ := hf
  refine ⟨t, view, hl.task.trans ht, ?_, hk⟩
  have hspares := hl.spares t
  generalize t.unit = unit at ha hspares
  cases ha with
  | idle => exact .idle
  | busy fits pending => exact .busy (fits.spares (hspares _ ht rfl) hup) pending

/-- A turn of the task itself: it answers, or it goes on. -/
theorem advance (hf : s.Follows K post id h) (hs : s.Lawful) (hr : K.relies s.ledger) :
    (∃ a, (s.advance id).2.2 = some (.answered a) ∧ post h a ∧ s.Stopped (s.advance id).1 id) ∨
      (s.advance id).2.2 = none ∧ ∃ h', h.Passes s.ledger (s.advance id).1.ledger h' ∧
        (s.advance id).1.Follows K post id h' ∧
        ∀ t t', s.tasks.find? id = some t → (s.advance id).1.tasks.find? id = some t' →
          Releases t.unit (s.advance id).1.ledger t'.unit := by
  obtain ⟨t, view, ht, ha, hk⟩ := hf
  have hadvanced := hk.advance hs.ledger hr ha
  simp only [Service.advance, ht]
  generalize t.process.advance s.ledger t.unit = moved at hadvanced
  cases hadvanced with
  | answered answers free =>
    refine Or.inl ⟨_, rfl, answers, by simp [settle], rfl, rfl, fun _ hu => hu,
      fun t' u ht' hu => ?_⟩
    rw [ht] at ht'
    cases ht'
    rw [free] at hu
    cases hu
  | @went l' unit' events p view' h' keeps attached passes releases =>
    refine Or.inr ⟨rfl, h', passes, ⟨{ t with process := p, unit := unit' }, view',
      by simp [settle], attached, keeps⟩, fun t₁ t₂ ht₁ ht₂ => ?_⟩
    cases ht₁
    simp only [settle, Table.find?_insert, if_pos] at ht₂
    cases ht₂
    exact releases

/-- Dropping the unit of work of a task is all that happens when the task is cut short. -/
theorem stopped (hs : s.Lawful) (ht : s.tasks.find? id = some t) :
    s.Stopped
      { s with ledger := (s.ledger.abandonAny t.unit).1, tasks := s.tasks.erase id } id := by
  have hledger : (s.ledger.abandonAny t.unit).1.books = s.ledger.books ∧
      (s.ledger.abandonAny t.unit).1.commits = s.ledger.commits ∧
      (∀ u, ((s.ledger.abandonAny t.unit).1.units.find? u).isSome →
        (s.ledger.units.find? u).isSome) ∧
      Releases t.unit (s.ledger.abandonAny t.unit).1 none := by
    -- There is something to drop only if the task has a unit of work open.
    cases hu : t.unit with
    | none => exact ⟨rfl, rfl, fun _ h => h, .of_none _ _⟩
    | some u =>
      have hopen := hs.opened id t u ht hu
      simp only [abandonAny, abandon]
      split
      · rename_i hnone
        simp [hnone] at hopen
      · refine ⟨rfl, rfl, fun u' hu' => ?_, .close hs.ledger hopen rfl rfl⟩
        simp only [Ledger.close, Table.find?_erase] at hu'
        split at hu'
        · cases hu'
        · exact hu'
  obtain ⟨hbooks, hcommits, hopens, hreleases⟩ := hledger
  refine ⟨by simp, hbooks, hcommits, hopens, fun t' u ht' hu => ?_⟩
  rw [ht] at ht'
  cases ht'
  exact (hreleases u hu).resolve_left (by simp)

/-- An interrupt does nothing, or ends a task that has published nothing, with the error of the
interrupt. -/
theorem interrupt (hf : s.Follows K post id h) (hs : s.Lawful) :
    ((s.interrupt id).1 = s ∧ (s.interrupt id).2.2 = none) ∨
      (h.published = none ∧ s.Stopped (s.interrupt id).1 id ∧
        ∃ i : Interrupt, i.Proper ∧
          (s.interrupt id).2.2 = some (.answered (.receipt (.error i.error)))) := by
  obtain ⟨t, view, ht, ha, hk⟩ := hf
  simp only [Service.interrupt, ht]
  split
  · exact Or.inl ⟨rfl, rfl⟩
  · rename_i i hi
    split
    · rename_i hinterruptible
      refine Or.inr ⟨?_, stopped hs ht, i, hs.interrupts id t i ht (List.mem_of_find?_eq_some hi),
        rfl⟩
      refine hk.unpublished (fun event rest hp => ?_) fun a hp => ?_
      · simp [Task.Interruptible, hp] at hinterruptible
      · simp [Task.Interruptible, hp] at hinterruptible
    · exact Or.inl ⟨rfl, rfl⟩

/-- Dropping a task does nothing, or ends a task that has published nothing. -/
theorem abort (hf : s.Follows K post id h) (hs : s.Lawful) :
    (s.abort id).1 = s ∨ (h.published = none ∧ s.Stopped (s.abort id).1 id) := by
  obtain ⟨t, view, ht, ha, hk⟩ := hf
  simp only [Service.abort, ht]
  split
  · rename_i hstoppable
    refine Or.inr ⟨?_, stopped hs ht⟩
    refine hk.unpublished (fun event rest hp => ?_) fun a hp => ?_
    · simp [Task.Stoppable, hp] at hstoppable
    · simp [Task.Stoppable, hp] at hstoppable
  · exact Or.inl rfl

end Follows
end Service
end FundsLedger
