import FundsLedger.Proofs.Service.Errands
import FundsLedger.Proofs.Timeless.Ledger
import FundsLedger.Proofs.Timeless.Operations

/-!
Two services side by side. The same errand is carried out in two services whose ledgers hold the
same but for times, with the same requests for rows in line. Then it is answered the same but for
times, or given up in both, and it leaves the ledgers as much the same as it has found them, with
those requests and no others: `Service.carry_alike`. What else has happened to the services, and how
many units of work there have been, makes no difference.
-/

namespace FundsLedger

open Ledger

variable {α β γ : Type} {f : α → γ} {others : List LockRequest} {l l' : Ledger}
variable {unit unit' : Option UnitId} {isOpen : Bool} {q : Option Call}

/-- Changes the answer of a process that has ended. -/
def Settled.map (f : α → β) : Settled α → Settled β
  | answered a => answered (f a)
  | panicked message => panicked message

/-! ## Processes -/

/-- A process does not go on where it stands: it sleeps, or it waits in a call that is blocked. -/
inductive Process.Halts (others : List LockRequest) : Process α → Option Call → Prop
  | sleep {longest : Duration} {rest : Process α} : Halts others (sleep longest rest) none
  | call {c : Call} {next : c.Result → Process α} (blocked : Blocks others c) :
      Halts others (ask (.call c) next) (some c)

theorem Process.Halts.call? {p : Process α} (h : p.Halts others q) : q = none ∨ q = p.call? := by
  cases h with
  | sleep => exact Or.inl rfl
  | call blocked => exact Or.inr rfl

/-- Two processes have gone on alike: both have ended, with the same answer but for times, or both
stand where they do not go on. -/
inductive Moved.Alike (f : α → γ) (others : List LockRequest) : Moved α → Moved α → Prop
  | settled {l l' : Ledger} {events events' : List Event} {how how' : Settled α}
      (same : how.map f = how'.map f) (rest : AtRest others l l') :
      Alike f others ⟨l, none, events, .settled how⟩ ⟨l', none, events', .settled how'⟩
  | suspended {l l' : Ledger} {unit unit' : Option UnitId} {events events' : List Event}
      {p p' : Process α} {isOpen : Bool} {q : Option Call} (alike : p.Alike f isOpen p')
      (beside : Beside others l l' unit unit' isOpen q) (halts : p.Halts others q) :
      Alike f others ⟨l, unit, events, .suspended p⟩ ⟨l', unit', events', .suspended p'⟩

/-- What has been reported on the way makes no difference. -/
theorem Moved.Alike.report {moved moved' : Moved α} (h : Moved.Alike f others moved moved')
    (events events' : List Event) :
    Moved.Alike f others { moved with events } { moved' with events := events' } := by
  cases h with
  | settled same rest => exact .settled same rest
  | suspended alike beside halts => exact .suspended alike beside halts

/-- Two processes that are alike go on alike: induction on what they have in common. -/
theorem Process.Alike.drive {p p' : Process α} (h : p.Alike f isOpen p') (hurried : Bool)
    (hb : Beside others l l' unit unit' isOpen q) (hq : q = none ∨ q = p.call?) :
    Moved.Alike f others (p.drive hurried l unit) (p'.drive hurried l' unit') := by
  induction h generalizing l l' unit unit' q with
  | done same =>
    cases hb with
    | idle rest => exact .settled (congrArg Settled.answered same) rest
  | begin rest ih =>
    cases hb with
    | idle hrest =>
      simp only [Process.drive]
      exact ih hrest.begin (Or.inl rfl)
  | @call c next next' rest ih =>
    obtain ⟨u, u', rfl, rfl⟩ := hb.exists_units
    have hrespond := hb.respond_call hq
    simp only [Process.drive]
    generalize l.respond (some u) (.call c) = response,
      l'.respond (some u') (.call c) = response' at hrespond
    cases hrespond with
    | waits blocked beside => exact .suspended (.call rest) beside (.call blocked)
    | answered same beside => exact ih _ _ same beside (Or.inl rfl)
  | commit rest ih =>
    obtain ⟨u, u', rfl, rfl⟩ := hb.exists_units
    obtain rfl : q = none := by simpa [Process.call?] using hq
    obtain ⟨l₁, l₁', r, hrespond, hrespond', hrest⟩ := hb.respond_commit
    simp only [Process.drive, hrespond, hrespond']
    exact ih r (.idle hrest) (Or.inl rfl)
  | rollback rest ih =>
    obtain ⟨u, u', rfl, rfl⟩ := hb.exists_units
    obtain rfl : q = none := by simpa [Process.call?] using hq
    obtain ⟨hrespond, hrespond'⟩ := hb.respond_rollback
    simp only [Process.drive, hrespond, hrespond']
    exact ih (.idle hb.close) (Or.inl rfl)
  | note rest ih =>
    obtain rfl : q = none := by simpa [Process.call?] using hq
    exact (ih hb (Or.inl rfl)).report _ _
  | sleep rest ih =>
    cases hb with
    | idle hrest =>
      simp only [Process.drive]
      split
      · exact .suspended (.sleep rest) (.idle hrest) .sleep
      · exact ih (.idle hrest) (Or.inl rfl)
  | panic isOpen message => exact .settled rfl hb.abandonAny

/-- A process that is like one that does not go on does not go on either. -/
theorem Process.Halts.alike {p p' : Process α} (h : p.Halts others q) (ha : p.Alike f isOpen p') :
    p'.Halts others q := by
  cases h with
  | sleep =>
    cases ha with
    | sleep rest => exact .sleep
  | call blocked =>
    cases ha with
    | call rest => exact .call blocked

/-- Where a process does not go on, its task can be cut short or dropped. -/
theorem Process.Halts.interruptible {p : Process Answer} (h : p.Halts others q)
    (hb : Beside others l l' unit unit' isOpen q) (interrupts : List Interrupt) :
    Task.Interruptible l ⟨p, unit, interrupts⟩ ∧ Task.Stoppable l ⟨p, unit, interrupts⟩ := by
  cases h with
  | sleep => exact ⟨trivial, trivial⟩
  | @call c next blocked =>
    cases hb with
    | @busy u u' w w' _ alike stands stands' same pending =>
      obtain ⟨row, hrow, hasked⟩ := stands.asks c pending
      have htaken : ¬ l.Holds u row := by
        obtain ⟨r, hr, hblocks⟩ := blocked
        rw [hrow, Option.some.injEq] at hblocks
        exact fun hholds => (stands.holds_iff hasked).mp hholds r hr hblocks.symm
      constructor
      · simp [Task.Interruptible, hrow, Waits, hasked, htaken]
      · simp [Task.Stoppable, stands.isOpen, pending]

/-! ## Interrupts, counted from the start of a task -/

/-- The interrupt so much later. -/
def Interrupt.delay (n : Nat) (i : Interrupt) : Interrupt := { i with due := n + i.due }

/-- An operation that starts later is interrupted as much later. -/
theorem Operation.interrupts_delay (op : Operation) (timeout : Option Duration) (start : Nat) :
    op.interrupts timeout start = (op.interrupts timeout 0).map (Interrupt.delay start) := by
  cases op with
  | transfer request limit =>
    cases limit with
    | usual => cases timeout <;> simp [interrupts, deadlineAt, Interrupt.delay]
    | deadline within => simp [interrupts, deadlineAt, Interrupt.delay]
    | cancel after =>
      cases timeout <;> cases after <;>
        simp [interrupts, deadlineAt, cancelAt, Interrupt.delay]
  | _ => rfl

theorem Chore.interrupts_delay (chore : Chore) (timeout : Option Duration) (start : Nat) :
    chore.interrupts timeout start =
      (chore.interrupts timeout 0).map (Interrupt.delay start) := by
  cases chore with
  | operation op => exact op.interrupts_delay timeout start
  | own process => rfl

/-- The least of some moments, all of them as much later. -/
theorem min?_map_add (n : Nat) (ms : List Nat) :
    (ms.map (n + ·)).min? = ms.min?.map (n + ·) := by
  cases ms with
  | nil => rfl
  | cons m rest =>
    simp only [List.map_cons, List.min?_cons', Option.map_some, Option.some.injEq]
    induction rest generalizing m with
    | nil => rfl
    | cons m' rest ih =>
      rw [List.map_cons, List.foldl_cons, List.foldl_cons, Nat.add_min_add_left, ih]

namespace Service

variable {s s' : Service} {id id' : TaskId} {since : List Interrupt} {k : Nat}
variable {p p' p₁ : Process Answer} {events : List Event}

/-- The task has that process, which started `k` nanoseconds ago with these interrupts. -/
def Attends (s : Service) (id : TaskId) (since : List Interrupt) (k : Nat) (p : Process Answer)
    (unit : Option UnitId) : Prop :=
  ∃ start, s.now = start + k ∧
    s.tasks.find? id = some ⟨p, unit, since.map (Interrupt.delay start)⟩

namespace Attends

/-- What is due does not depend on when the process has started. -/
theorem due_comp_delay (start : Nat) :
    (fun i => decide (i.due ≤ start + k)) ∘ Interrupt.delay start = fun i => decide (i.due ≤ k) := by
  funext i
  exact decide_eq_decide.mpr (Nat.add_le_add_iff_left)

theorem any_due (start : Nat) :
    (since.map (Interrupt.delay start)).any (·.due ≤ start + k) = since.any (·.due ≤ k) := by
  rw [List.any_map, due_comp_delay]

theorem find?_due (start : Nat) :
    (since.map (Interrupt.delay start)).find? (·.due ≤ start + k) =
      (since.find? (·.due ≤ k)).map (Interrupt.delay start) := by
  rw [List.find?_map, due_comp_delay]

/-- A turn in which the process ends. -/
theorem poll_settled {how : Settled Answer} (h : s.Attends id since k p unit)
    (hd : p.drive (since.any (·.due ≤ k)) s.ledger unit = ⟨l, none, events, .settled how⟩) :
    ∃ s₁, s.poll id = (s₁, events, some how) ∧ s₁.ledger = l := by
  obtain ⟨start, hnow, ht⟩ := h
  refine ⟨{ s with ledger := l, tasks := s.tasks.erase id }, ?_, rfl⟩
  simp only [poll, ht, hnow, any_due, hd, settle]

/-- A turn after which the process does not go on, and no interrupt is due. -/
theorem poll_waits (h : s.Attends id since k p unit)
    (hd : p.drive (since.any (·.due ≤ k)) s.ledger unit = ⟨l, unit', events, .suspended p₁⟩)
    (hdue : since.find? (·.due ≤ k) = none) :
    ∃ s₁, s.poll id = (s₁, events, none) ∧ s₁.ledger = l ∧ s₁.Attends id since k p₁ unit' := by
  obtain ⟨start, hnow, ht⟩ := h
  refine ⟨{ s with
    ledger := l
    tasks := s.tasks.insert id ⟨p₁, unit', since.map (Interrupt.delay start)⟩ },
    ?_, rfl, start, hnow, by simp⟩
  simp only [poll, ht, hnow, any_due, hd, settle, interrupt, Table.find?_insert, if_true,
    find?_due, hdue, Option.map_none, List.append_nil]

/-- A turn after which the process does not go on, and an interrupt is due. -/
theorem poll_interrupted {i : Interrupt} (h : s.Attends id since k p unit)
    (hd : p.drive (since.any (·.due ≤ k)) s.ledger unit = ⟨l, unit', events, .suspended p₁⟩)
    (hstands : ∀ interrupts, Task.Interruptible l ⟨p₁, unit', interrupts⟩)
    (hdue : since.find? (·.due ≤ k) = some i) :
    ∃ s₁ events₁, s.poll id = (s₁, events₁, some (.answered (.receipt (.error i.error)))) ∧
      s₁.ledger = (l.abandonAny unit').1 := by
  obtain ⟨start, hnow, ht⟩ := h
  refine ⟨{ s with ledger := (l.abandonAny unit').1, tasks := s.tasks.erase id },
    events ++ ((l.abandonAny unit').2 ++ [i.event]), ?_, rfl⟩
  simp only [poll, ht, hnow, any_due, hd, settle, interrupt, Table.find?_insert, if_true,
    find?_due, hdue, Option.map_some, if_pos (hstands _), Table.erase_insert]
  rfl

/-- The moment for which somebody waits who waits no longer than so long, and where the task stands
at any moment. -/
theorem nextDue? (h : s.Attends id since k p unit) (d : Nat) :
    ∃ start, s.now = start + k ∧
      (∀ m, ({ s with now := start + m } : Service).Attends id since m p unit) ∧
      (s.nextDue? id).filter (· ≤ s.now + d) =
        ((since.map (·.due)).min?.filter (· ≤ k + d)).map (start + ·) := by
  obtain ⟨start, hnow, ht⟩ := h
  refine ⟨start, hnow, fun m => ⟨start, rfl, ht⟩, ?_⟩
  have hdues : (since.map (Interrupt.delay start)).map (·.due) =
      (since.map (·.due)).map (start + ·) := by
    simp [Interrupt.delay]
  rw [Service.nextDue?, ht, hnow, Option.map_some, Option.bind_some, hdues, min?_map_add]
  cases (since.map (·.due)).min? with
  | none => rfl
  | some m =>
    simp only [Option.map_some, Option.filter_some, Nat.add_assoc, Nat.add_le_add_iff_left]
    split <;> rfl

end Attends

/-! ## Two services -/

/-- In two services a task has been started equally long ago, the processes are alike, and so are
the ledgers. The first of them has come to `p`; its unit of work waits in the call `q`, or in
none. -/
inductive Abreast (others : List LockRequest) (since : List Interrupt) (k : Nat) (s : Service)
    (id : TaskId) (s' : Service) (id' : TaskId) : Process Answer → Option Call → Prop
  | intro {p p' : Process Answer} {unit unit' : Option UnitId} {isOpen : Bool} {q : Option Call}
      (attends : s.Attends id since k p unit) (attends' : s'.Attends id' since k p' unit')
      (alike : p.Alike Answer.timeless isOpen p')
      (beside : Beside others s.ledger s'.ledger unit unit' isOpen q) :
      Abreast others since k s id s' id' p q

/-- Both tasks have ended, with the same answer but for times, or both stand where they do not go
on. -/
inductive TurnAlike (others : List LockRequest) (since : List Interrupt) (k : Nat)
    (id id' : TaskId) :
    Service × List Event × Option (Settled Answer) →
      Service × List Event × Option (Settled Answer) → Prop
  | settled {s s' : Service} {events events' : List Event} {how how' : Settled Answer}
      (same : how.map Answer.timeless = how'.map Answer.timeless)
      (rest : AtRest others s.ledger s'.ledger) :
      TurnAlike others since k id id' (s, events, some how) (s', events', some how')
  | waits {s s' : Service} {events events' : List Event} {p : Process Answer} {q : Option Call}
      (abreast : s.Abreast others since k id s' id' p q) (halts : p.Halts others q) :
      TurnAlike others since k id id' (s, events, none) (s', events', none)

theorem Abreast.poll (h : s.Abreast others since k id s' id' p q) (hq : q = none ∨ q = p.call?) :
    TurnAlike others since k id id' (s.poll id) (s'.poll id') := by
  cases h with
  | @intro p' unit unit' isOpen _ attends attends' alike beside =>
    have hdrive := alike.drive (since.any (·.due ≤ k)) beside hq
    generalize hd : p.drive (since.any (·.due ≤ k)) s.ledger unit = moved,
      hd' : p'.drive (since.any (·.due ≤ k)) s'.ledger unit' = moved' at hdrive
    cases hdrive with
    | settled same rest =>
      obtain ⟨s₁, hpoll, hledger⟩ := attends.poll_settled hd
      obtain ⟨s₁', hpoll', hledger'⟩ := attends'.poll_settled hd'
      rw [hpoll, hpoll']
      exact .settled same (by rw [hledger, hledger']; exact rest)
    | suspended alike beside halts =>
      cases hdue : since.find? (·.due ≤ k) with
      | none =>
        obtain ⟨s₁, hpoll, hledger, hattends⟩ := attends.poll_waits hd hdue
        obtain ⟨s₁', hpoll', hledger', hattends'⟩ := attends'.poll_waits hd' hdue
        rw [hpoll, hpoll']
        exact .waits (.intro hattends hattends' alike (by rw [hledger, hledger']; exact beside))
          halts
      | some i =>
        obtain ⟨s₁, events₁, hpoll, hledger⟩ :=
          attends.poll_interrupted hd (fun is => (halts.interruptible beside is).1) hdue
        obtain ⟨s₁', events₁', hpoll', hledger'⟩ :=
          attends'.poll_interrupted hd'
            (fun is => ((halts.alike alike).interruptible beside.symm is).1) hdue
        rw [hpoll, hpoll']
        exact .settled rfl (by rw [hledger, hledger']; exact beside.abandonAny)

/-- What has been reported on the way makes no difference. -/
theorem TurnAlike.report {r r' : Service × List Event × Option (Settled Answer)}
    (h : TurnAlike others since k id id' r r') (events events' : List Event) :
    TurnAlike others since k id id' (r.1, events, r.2.2) (r'.1, events', r'.2.2) := by
  cases h with
  | settled same rest => exact .settled same rest
  | waits abreast halts => exact .waits abreast halts

/-- Waiting for two tasks that are abreast: for the first moment at which one would be cut short the
other would be cut short as well. -/
theorem Abreast.await (h : s.Abreast others since k id s' id' p q) (hq : q = none ∨ q = p.call?)
    (patience : Duration) :
    ∃ k, TurnAlike others since k id id' (s.await id patience) (s'.await id' patience) := by
  have hpoll := h.poll hq
  unfold Service.await
  generalize s.poll id = r, s'.poll id' = r' at hpoll
  cases hpoll with
  | settled same rest => exact ⟨k, .settled same rest⟩
  | @waits s₁ s₁' events events' p q abreast halts =>
    cases abreast with
    | intro attends attends' alike beside =>
      obtain ⟨start, hnow, hattends, hnext⟩ := attends.nextDue? patience.nanos
      obtain ⟨start', hnow', hattends', hnext'⟩ := attends'.nextDue? patience.nanos
      dsimp only
      rw [hnext, hnext']
      cases ((since.map (·.due)).min?.filter (· ≤ k + patience.nanos)) with
      | none =>
        rw [hnow, hnow', Nat.add_assoc, Nat.add_assoc]
        exact ⟨k + patience.nanos, .waits (.intro (hattends _) (hattends' _) alike beside) halts⟩
      | some m =>
        have habreast : Abreast others since m { s₁ with now := start + m } id
            { s₁' with now := start' + m } id' p q :=
          .intro (hattends m) (hattends' m) alike beside
        exact ⟨m, (habreast.poll halts.call?).report _ _⟩

/-- A task that does not go on is gone once it is dropped. -/
theorem Abreast.abort (h : s.Abreast others since k id s' id' p q) (hp : p.Halts others q) :
    AtRest others (s.abort id).1.ledger (s'.abort id').1.ledger := by
  cases h with
  | intro attends attends' alike beside =>
    obtain ⟨start, -, ht⟩ := attends
    obtain ⟨start', -, ht'⟩ := attends'
    have hstops := (hp.interruptible beside (since.map (Interrupt.delay start))).2
    have hstops' :=
      ((hp.alike alike).interruptible beside.symm (since.map (Interrupt.delay start'))).2
    simp only [Service.abort, ht, ht', if_pos hstops, if_pos hstops']
    exact beside.abandonAny

end Service

/-! ## Errands -/

/-- The chore does not look at times. No operation does. -/
def Chore.TimeBlind : Chore → Prop
  | operation _ => True
  | own process => process.Alike Answer.timeless false process

theorem Chore.TimeBlind.process_alike {chore : Chore} (h : chore.TimeBlind)
    (policy : RetryPolicy) :
    (chore.process policy).Alike Answer.timeless false (chore.process policy) := by
  cases chore with
  | operation op => exact op.process_alike policy
  | own process => exact h

/-- A unit of work does not look at times if the work in it does not. -/
theorem Chore.timeBlind_atomically {ε : Type} [OfStoreError ε] {w : Work ε α} (h : w.Alike f w)
    {answer : Except ε α → Answer} (hanswer : ∀ r r', r.map f = r'.map f →
      (answer r).timeless = (answer r').timeless) :
    (Chore.own (w.atomically.map answer)).TimeBlind :=
  h.atomically.map hanswer

/-- The errand without its time. -/
def Errand.timeless (e : Errand) : Errand := { e with clock := Timestamp.epoch }

/-- What has come of an errand, without the times in it. -/
def Served.timeless (r : Served) : Served := ⟨r.chore, r.how.map (Settled.map Answer.timeless)⟩

namespace Service

variable {s s' : Service} {e e' : Errand}

/-- The task of an errand before its first turn. -/
theorem commission_attends (s : Service) (e : Errand) :
    (s.commission e).1.Attends (s.commission e).2
      (e.chore.interrupts e.settings.timeout 0) 0 (e.chore.process e.settings.policy) none := by
  refine ⟨s.now, rfl, ?_⟩
  rw [← Chore.interrupts_delay]
  exact s.find?_commission e

/-- An errand in two services whose ledgers are the same but for times. -/
theorem carry_alike (h : AtRest others s.ledger s'.ledger) (he : e.timeless = e'.timeless)
    (hblind : e.chore.TimeBlind) :
    (s.carry e).2.timeless = (s'.carry e').2.timeless ∧
      AtRest others (s.carry e).1.ledger (s'.carry e').1.ledger := by
  obtain ⟨chore, settings, clock, patience⟩ := e
  obtain ⟨chore', settings', clock', patience'⟩ := e'
  cases he
  have hstart : AtRest others (s.ledger.setClock clock) (s'.ledger.setClock clock') :=
    ⟨⟨h.alike.books, h.alike.drawn, h.alike.failPoint, h.alike.conflicts⟩,
      ⟨h.rests.requests, h.rests.numbered⟩, ⟨h.rests'.requests, h.rests'.numbered⟩⟩
  have habreast := Abreast.intro (s.commission_attends ⟨chore, settings, clock, patience⟩)
    (s'.commission_attends ⟨chore, settings, clock', patience⟩)
    (hblind.process_alike settings.policy) (.idle hstart)
  obtain ⟨k, hawait⟩ := habreast.await (Or.inl rfl) patience
  unfold carry
  dsimp only
  generalize (s.commission _).1.await _ _ = r, (s'.commission _).1.await _ _ = r' at hawait ⊢
  cases hawait with
  | settled same rest =>
    refine ⟨?_, rest⟩
    simp only [Served.timeless, Option.map_some, same]
  | waits abreast halts => exact ⟨rfl, abreast.abort halts⟩

end Service
end FundsLedger
