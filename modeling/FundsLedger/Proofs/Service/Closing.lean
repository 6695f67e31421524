import FundsLedger.Proofs.Service.Atomicity

/-!
Tasks that make do with one unit of work. Such a task ends its unit of work once, and from then on
it only reports and answers; so it has been decided in one turn what it answers, and that is the
turn in which it has closed its unit of work. If its calls never wait, it has ended after so many
steps, however others go on in between.
-/

namespace FundsLedger

open Ledger

variable {α β ε : Type} {K : Rules} {h : History} {view : Option View}

namespace Process

/-- All that is left to do is to report and to give this answer. -/
inductive Tells : Process α → α → Prop
  | done (a : α) : Tells (.done a) a
  | note {event : Event} {p : Process α} {a : α} (rest : Tells p a) : Tells (.note event p) a

/-- The process has a unit of work open, and once it has ended that, it has only to tell its
answer. -/
def Closing : Process α → Prop
  | done _ => False
  | ask .begin _ => False
  | ask (.call _) next => ∀ r, (next r).Closing
  | ask .commit next => ∀ r, ∃ a, (next r).Tells a
  | ask .rollback next => ∀ r, ∃ a, (next r).Tells a
  | note _ rest => rest.Closing
  | sleep _ _ => False
  | panic _ => True

/-- The process ends within so many steps, if it never has to wait. -/
def Within : Process α → Nat → Prop
  | _, 0 => False
  | done _, _ + 1 => True
  | ask _ next, n + 1 => ∀ r, (next r).Within n
  | note _ rest, n + 1 => rest.Within n
  | sleep _ rest, n + 1 => rest.Within n
  | panic _, _ + 1 => True

theorem Tells.bind {p : Process α} {f : α → Process β} {a : α} {b : β} (hp : p.Tells a)
    (hf : (f a).Tells b) : (p.bind f).Tells b := by
  induction hp with
  | done a => exact hf
  | note rest ih => exact .note (ih hf)

theorem Closing.bind {p : Process α} {f : α → Process β} (hp : p.Closing)
    (hf : ∀ a, ∃ b, (f a).Tells b) : (p.bind f).Closing := by
  have htells : ∀ {q : Process α}, (∃ a, q.Tells a) → ∃ b, (q.bind f).Tells b := by
    rintro q ⟨a, ha⟩
    obtain ⟨b, hb⟩ := hf a
    exact ⟨b, ha.bind hb⟩
  induction p with
  | done a => exact hp.elim
  | ask request next ih =>
    cases request with
    | begin => exact hp.elim
    | call c => exact fun r => ih r (hp r)
    | commit => exact fun r => htells (hp r)
    | rollback => exact fun r => htells (hp r)
  | note event rest ih => exact ih hp
  | sleep longest rest ih => exact hp.elim
  | panic message => trivial

variable {post : History → α → Prop}

/-- The rules vouch for an answer that is only to be told. -/
theorem Tells.keeps {p : Process α} {a : α} (ht : p.Tells a) (hk : p.Keeps K post h view) :
    post h a := by
  induction ht with
  | done a => exact hk.2
  | note rest ih => exact ih hk

/-- Who has a unit of work open has published nothing. -/
theorem Keeps.unpublished_of_open {p : Process α} {v : View} (hk : p.Keeps K post h (some v)) :
    h.published = none := by
  induction p with
  | done a => cases hk.1
  | ask request next ih =>
    cases request with
    | begin => exact hk.1
    | call c => exact hk.1
    | commit => exact hk.1
    | rollback => exact hk.1
  | note event rest ih => exact ih hk
  | sleep longest rest ih => exact hk.1
  | panic message => exact hk.elim

end Process

/-- Work, with the end of its unit of work, leads to a result to be told. -/
theorem Work.finishing_closing [OfStoreError ε] (w : Work ε α) : w.finishing.Closing := by
  induction w with
  | done result =>
    cases result with
    | ok a =>
      intro r
      cases r with
      | ok => exact ⟨_, .done _⟩
      | error e => exact ⟨_, .done _⟩
    | error e =>
      intro r
      cases r with
      | ok => exact ⟨_, .note (.done _)⟩
      | error e => exact ⟨_, .note (.done _)⟩
  | call c next ih => exact fun r => ih r
  | note event rest ih => exact ih
  | panic message => trivial

/-- Only a process that has come to its answer answers in its next step. -/
theorem Process.eq_done_of_advance {p : Process α} {l : Ledger} {unit : Option UnitId} {a : α}
    (h : (p.advance l unit).standing = .settled (.answered a)) : p = .done a := by
  cases p with
  | done a' =>
    cases h
    rfl
  | note | sleep | panic => cases h
  | ask request next =>
    simp only [advance] at h
    split at h <;> cases h

/-- A call is made in the unit of work that is open, which stays open. -/
theorem Ledger.respond_call_unit (l : Ledger) (u : UnitId) (c : Call) :
    (l.respond (some u) (.call c)).unit = some u := by
  simp only [respond]
  split <;> rfl

/-- A unit of work is ended, or nothing happens. -/
theorem Ledger.respond_end {request : Request} (l : Ledger) (u : UnitId)
    (h : request = .commit ∨ request = .rollback) :
    l.respond (some u) request = ⟨l, some u, none⟩ ∨
      ∃ l' reply, l.respond (some u) request = ⟨l', none, some reply⟩ := by
  have hending : ∀ ended : Option (Ledger × request.Reply),
      l.endingResponse (some u) ended = ⟨l, some u, none⟩ ∨
        ∃ l' reply, l.endingResponse (some u) ended = ⟨l', none, some reply⟩ := by
    rintro (_ | ⟨l', reply⟩)
    · exact Or.inl rfl
    · exact Or.inr ⟨l', reply, rfl⟩
  rcases h with rfl | rfl
  · exact hending _
  · exact hending _

namespace Service

variable {s : Service} {id : TaskId} {t t' : Task} {a : Action} {actions : List Action}
variable {answer : Answer}

/-- In its turn after `pre` the task ends its unit of work, and from then on it has only to tell this
answer. -/
def Decides (s : Service) (id : TaskId) (pre : List Action) (answer : Answer) : Prop :=
  ∃ t u t', (s.run pre).tasks.find? id = some t ∧ t.unit = some u ∧
    (s.run (pre ++ [.advance id])).tasks.find? id = some t' ∧ t'.unit = none ∧
    t'.process.Tells answer

/-- How far a task has come that makes do with one unit of work. -/
inductive Course (s : Service) (id : TaskId) (actions : List Action) (t : Task) : Prop
  | waiting {next : Request.begin.Reply → Process Answer} (unit : t.unit = none)
      (process : t.process = .ask .begin next) (closing : (next (.ok ())).Closing) :
      Course s id actions t
  | working {u : UnitId} (unit : t.unit = some u) (closing : t.process.Closing) :
      Course s id actions t
  | telling {pre post : List Action} {answer : Answer} (unit : t.unit = none)
      (turn : actions = pre ++ .advance id :: post) (decides : s.Decides id pre answer)
      (tells : t.process.Tells answer) : Course s id actions t

/-- A task that goes on after its step is where its process has come to. -/
theorem eq_of_advance (ht : s.tasks.find? id = some t)
    (ht' : (s.advance id).1.tasks.find? id = some t') :
    ∃ l' unit events p, t.process.advance s.ledger t.unit = ⟨l', unit, events, .suspended p⟩ ∧
      t' = { t with process := p, unit } := by
  simp only [advance, ht, settle] at ht'
  cases hmoved : t.process.advance s.ledger t.unit with
  | mk l' unit events standing =>
    rw [hmoved] at ht'
    cases standing with
    | settled how => simp at ht'
    | suspended p =>
      simp only [Table.find?_insert, if_pos, Option.some.injEq] at ht'
      exact ⟨l', unit, events, p, rfl, ht'.symm⟩

/-- What a task of which nothing is cut short keeps in its own steps, it keeps: nothing else moves
it. -/
theorem Lawful.task_induction {P : List Action → Task → Prop} (hs : s.Lawful)
    (ht : s.tasks.find? id = some t) (hnever : t.interrupts = []) (start : P [] t)
    (others : ∀ as a t, P as t → a.advances id = false → P (as ++ [a]) t)
    (own : ∀ as t t', (s.run as).tasks.find? id = some t → P as t →
      ((s.run as).advance id).1.tasks.find? id = some t' → P (as ++ [.advance id]) t')
    (actions : List Action) (t' : Task) (ht' : (s.run actions).tasks.find? id = some t') :
    P actions t' := by
  refine run_induction (s := s) (P := fun as s' => ∀ t', s'.tasks.find? id = some t' → P as t')
    ?_ (fun as a ih t₂ ht₂ => ?_) actions t' ht'
  · intro t' ht'
    rw [ht, Option.some.injEq] at ht'
    exact ht' ▸ start
  · rcases hs.interrupts_run ht as with hpast | ⟨t₁, ht₁, hsame⟩
    · rw [(hpast.goes ((s.run as).step_goes a)).absent] at ht₂
      cases ht₂
    · cases ha : a.advances id with
      | false =>
        have heq := task_of_not_advances (hs.run as) ht₁ (hsame.trans hnever) ha ht₂
        exact heq ▸ others as a t₁ (ih t₁ ht₁) ha
      | true =>
        obtain rfl := Action.eq_of_advances ha
        exact own as t₁ t₂ ht₁ (ih t₁ ht₁) ht₂

namespace Course

theorem append (h : s.Course id actions t) (more : List Action) :
    s.Course id (actions ++ more) t := by
  cases h with
  | waiting unit process closing => exact .waiting unit process closing
  | working unit closing => exact .working unit closing
  | @telling pre post answer unit turn decides tells =>
    have hturn : actions ++ more = pre ++ .advance id :: (post ++ more) := by simp [turn]
    exact .telling unit hturn decides tells

/-- A step of the task. -/
theorem advance (h : s.Course id actions t) (ht : (s.run actions).tasks.find? id = some t)
    (ht' : ((s.run actions).advance id).1.tasks.find? id = some t') :
    s.Course id (actions ++ [.advance id]) t' := by
  obtain ⟨l', unit', events, p, hmoved, rfl⟩ := eq_of_advance ht ht'
  obtain ⟨process, unit, interrupts⟩ := t
  cases h with
  | waiting hunit hprocess closing =>
    cases hunit
    cases hprocess
    cases hmoved
    exact .working rfl closing
  | telling hunit turn decides tells =>
    cases hunit
    cases tells with
    | done answer => cases hmoved
    | note rest =>
      cases hmoved
      have hturn := congrArg (· ++ [Action.advance id]) turn
      simp only [List.append_assoc, List.cons_append] at hturn
      exact .telling rfl hturn decides rest
  | @working u hunit closing =>
    cases hunit
    -- What ends the unit of work decides what is to be told.
    have hends : ∀ {request : Request} {next : request.Reply → Process Answer},
        request = .commit ∨ request = .rollback → (∀ r, ∃ a, (next r).Tells a) →
        Process.advance (s.run actions).ledger (some u) (.ask request next) =
          ⟨l', unit', events, .suspended p⟩ →
        (p = .ask request next → p.Closing) →
        s.Course id (actions ++ [.advance id]) ⟨p, unit', interrupts⟩ := by
      intro request next hrequest htells hmoved hstill
      simp only [Process.advance] at hmoved
      rcases (s.run actions).ledger.respond_end u hrequest with heq | ⟨l, reply, heq⟩
      · rw [heq] at hmoved
        cases hmoved
        exact .working rfl (hstill rfl)
      · rw [heq] at hmoved
        cases hmoved
        obtain ⟨answer, hanswer⟩ := htells reply
        refine .telling rfl rfl ⟨_, u, ⟨next reply, none, interrupts⟩, ht, rfl, ?_, rfl, hanswer⟩
          hanswer
        rw [run_concat]
        exact ht'
    cases process with
    | done | sleep => exact closing.elim
    | panic message => simp [Process.advance] at hmoved
    | note event rest =>
      cases hmoved
      exact .working rfl closing
    | ask request next =>
      cases request with
      | begin => exact closing.elim
      | commit => exact hends (Or.inl rfl) closing hmoved fun heq => heq ▸ closing
      | rollback => exact hends (Or.inr rfl) closing hmoved fun heq => heq ▸ closing
      | call c =>
        have hunit := (s.run actions).ledger.respond_call_unit u c
        simp only [Process.advance] at hmoved
        cases hreply : ((s.run actions).ledger.respond (some u) (.call c)).reply with
        | none =>
          rw [hreply] at hmoved
          cases hmoved
          exact .working hunit closing
        | some reply =>
          rw [hreply] at hmoved
          cases hmoved
          exact .working hunit (closing reply)

/-- A task that answers has been decided in a turn of its own. -/
theorem decided (h : s.Course id actions t) (ht : (s.run actions).tasks.find? id = some t)
    (hended : (s.run actions).ended? id (.advance id) = some (.answered answer)) :
    ∃ pre post, actions = pre ++ .advance id :: post ∧ s.Decides id pre answer := by
  obtain ⟨process, unit, interrupts⟩ := t
  have hdone : process = .done answer := by
    simp only [ended?, if_pos, Service.advance, ht, settle] at hended
    apply Process.eq_done_of_advance
    split at hended
    · rename_i how hstanding
      rw [hstanding]
      cases hended
      rfl
    · cases hended
  subst hdone
  cases h with
  | waiting unit process closing => cases process
  | working unit closing => exact closing.elim
  | telling unit turn decides tells =>
    cases tells
    exact ⟨_, _, turn, decides⟩

end Course

/-- A task that makes do with one unit of work and that nothing cuts short goes through its
stages. -/
theorem Lawful.course (hs : s.Lawful) (ht : s.tasks.find? id = some t)
    (hnever : t.interrupts = []) (hstart : s.Course id [] t) (actions : List Action) (t' : Task)
    (ht' : (s.run actions).tasks.find? id = some t') : s.Course id actions t' :=
  hs.task_induction ht hnever hstart (fun _ a _ h _ => h.append [a])
    (fun _ _ _ ht₁ h ht₂ => h.advance ht₁ ht₂) actions t' ht'

/-- A task that only has to give its answer never has a unit of work. -/
theorem Lawful.not_had_of_done (hs : s.Lawful) (ht : s.tasks.find? id = some t)
    (hnever : t.interrupts = []) (hdone : t.process = .done answer) (hunit : t.unit = none)
    (actions : List Action) (u : UnitId) : ¬ s.Had id actions u := by
  rintro ⟨pre, post, t', -, ht', hu⟩
  have hidle : t'.process = .done answer ∧ t'.unit = none := by
    refine hs.task_induction (P := fun _ t => t.process = .done answer ∧ t.unit = none) ht hnever
      ⟨hdone, hunit⟩ (fun _ _ _ h _ => h) (fun as t₁ t₂ ht₁ h ht₂ => ?_) pre t' ht'
    obtain ⟨l', unit, events, p, hmoved, -⟩ := eq_of_advance ht₁ ht₂
    rw [h.1] at hmoved
    cases hmoved
  rw [hidle.2] at hu
  cases hu

end Service

/-! ## Ending in time -/

/-- No call that the rules allow has to wait. -/
def Rules.Prompt (K : Rules) : Prop :=
  ∀ v l u q c, K.Finds v l u q → K.calls v c → q = none ∨ q = some c →
    (l.respond (some u) (.call c)).reply.isSome

namespace Process

variable {post : History → α → Prop} {l l' : Ledger} {unit unit' : Option UnitId}
variable {events : List Event} {p p' : Process α} {n : Nat}

theorem Within.pos {p : Process α} (h : p.Within n) : 0 < n := by
  cases n with
  | zero => cases p <;> exact h.elim
  | succ n => exact Nat.succ_pos n

/-- A process that keeps such rules gets a reply to every request. -/
theorem Keeps.replied {request : Request} {next : request.Reply → Process α}
    (hk : (ask request next).Keeps K post h view)
    (ha : View.Attached l unit view (ask request next)) (hl : l.Lawful) (hr : K.relies l)
    (hK : K.Prompt) : (l.respond unit request).reply.isSome := by
  cases request with
  | begin => rfl
  | call c =>
    obtain ⟨-, v, rfl, hcalls, -⟩ := hk
    cases ha with
    | busy fits pending => exact hK v l _ _ c ⟨hl, hr, fits⟩ hcalls pending
  | commit =>
    obtain ⟨-, v, rfl, -⟩ := hk
    cases ha with
    | busy fits pending =>
      obtain rfl := pending.elim id id
      rw [fits.respond_commit]
      rfl
  | rollback =>
    obtain ⟨-, hsome, -⟩ := hk
    cases ha with
    | idle => cases hsome
    | busy fits pending =>
      obtain rfl := pending.elim id id
      rw [fits.respond_rollback]
      rfl

/-- Each step of a process brings its end closer. -/
theorem Within.advance (hw : p.Within n) (hk : p.Keeps K post h view)
    (ha : View.Attached l unit view p) (hl : l.Lawful) (hr : K.relies l) (hK : K.Prompt)
    (hmoved : p.advance l unit = ⟨l', unit', events, .suspended p'⟩) : p'.Within (n - 1) := by
  obtain ⟨n, rfl⟩ := Nat.exists_eq_add_of_lt hw.pos
  cases p with
  | done a => cases hmoved
  | panic message => cases hmoved
  | note event rest =>
    cases hmoved
    exact hw
  | sleep longest rest =>
    cases hmoved
    exact hw
  | ask request next =>
    obtain ⟨reply, hreply⟩ := Option.isSome_iff_exists.mp (hk.replied ha hl hr hK)
    simp only [Process.advance, hreply] at hmoved
    cases hmoved
    exact hw reply

end Process

namespace Service

variable {s : Service} {post : History → Answer → Prop} {actions : List Action} {n : Nat}

/-- The steps that a task may still take, if it is an operation that never waits and that nothing
cuts short. -/
theorem Lawful.within {op : Operation} {t : Service × TaskId} (hs : s.Lawful)
    (ht : s.submit op = t)
    (hkeeps : (op.process s.settings.policy).Keeps K post History.empty none)
    (hnever : op.interrupts s.settings.timeout s.now = [])
    (hrelies : ∀ pre rest, actions = pre ++ rest → K.relies (t.1.run pre).ledger)
    (hK : K.Prompt) (hw : (op.process s.settings.policy).Within n) (task : Task)
    (htask : (t.1.run actions).tasks.find? t.2 = some task) :
    task.process.Within (n - actions.countP (·.advances t.2)) := by
  have hlawful := hs.of_submit ht
  have hfound := find?_submit s op
  rw [ht] at hfound
  refine hlawful.task_induction
    (P := fun as task => (∀ pre rest, as = pre ++ rest → K.relies (t.1.run pre).ledger) →
      task.process.Within (n - as.countP (·.advances t.2)))
    hfound hnever (fun _ => hw) ?_ ?_ actions task htask hrelies
  · intro as a task hwithin ha hrelies
    rw [List.countP_append, List.countP_singleton, ha]
    exact hwithin fun pre rest heq => hrelies pre (rest ++ [a]) (by rw [heq, List.append_assoc])
  · intro as task task' htask hwithin htask' hrelies
    have hbefore : ∀ pre rest, as = pre ++ rest → K.relies (t.1.run pre).ledger :=
      fun pre rest heq => hrelies pre (rest ++ [_]) (by rw [heq, List.append_assoc])
    obtain ⟨h, -, t₀, view, ht₀, hattached, hk⟩ :=
      (hs.came ht hkeeps hbefore).live (by rw [htask]; rfl)
    rw [htask, Option.some.injEq] at ht₀
    subst ht₀
    obtain ⟨l', unit, events, p, hmoved, rfl⟩ := eq_of_advance htask htask'
    have hcloser := (hwithin hbefore).advance hk hattached (hlawful.run as).ledger
      (hbefore as [] (by simp)) hK hmoved
    rw [List.countP_append, List.countP_singleton]
    simpa [Action.advances, Nat.sub_sub] using hcloser

end Service
end FundsLedger
