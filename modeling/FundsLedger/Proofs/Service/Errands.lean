import FundsLedger.Proofs.Service.Polls
import FundsLedger.Session

/-!
Errands: chores that are carried out one after the other. Somebody starts an operation, or a process
of his own, waits for it as long as his patience lasts, and then gives up what has not come to an
end, as a session does with an operation that it performs. Nothing else goes on meanwhile; but units
of work that were open before may hold rows for which the chore has to wait.
-/

namespace FundsLedger

/-- What somebody has carried out: an operation, or a process of his own, such as units of work in
which one call depends on what another has been answered. -/
inductive Chore where
  | operation (op : Operation)
  | own (process : Process Answer)

namespace Chore

/-- The process that carries the chore out. -/
def process (policy : RetryPolicy) : Chore → Process Answer
  | operation op => op.process policy
  | own process => process

/-- The interrupts of a chore that starts now: only an operation has any. -/
def interrupts (timeout : Option Duration) (now : Nat) : Chore → List Interrupt
  | operation op => op.interrupts timeout now
  | own _ => []

theorem interrupts_proper {chore : Chore} {timeout : Option Duration} {now : Nat} {i : Interrupt}
    (hi : i ∈ chore.interrupts timeout now) : i.Proper := by
  cases chore with
  | operation op => exact Operation.interrupts_proper hi
  | own process => cases hi

end Chore

/-- A chore that somebody has carried out: on which terms, at what time, and for how long he waits
for it at most. -/
structure Errand where
  chore : Chore
  settings : Settings
  clock : Timestamp
  patience : Duration

/-- What has come of an errand: how the chore has ended, unless it was given up. -/
structure Served where
  chore : Chore
  how : Option (Settled Answer)

namespace Service

variable {s : Service} {id : TaskId} {e : Errand}

/-- Starts the chore of an errand as a task. -/
def commission (s : Service) (e : Errand) : Service × TaskId :=
  { s with settings := e.settings, ledger := s.ledger.setClock e.clock }.addTask
    ⟨e.chore.process e.settings.policy, none, e.chore.interrupts e.settings.timeout s.now⟩

/-- Carries an errand out. -/
def carry (s : Service) (e : Errand) : Service × Served :=
  let (s, id) := s.commission e
  match s.await id e.patience with
  | (s, _, some how) => (s, ⟨e.chore, some how⟩)
  | (s, _, none) => ((s.abort id).1, ⟨e.chore, none⟩)

/-- Carries errands out one after the other. -/
def serve (s : Service) : List Errand → Service × List Served
  | [] => (s, [])
  | e :: rest =>
    let (s, served) := s.carry e
    let (s, others) := s.serve rest
    (s, served :: others)

theorem find?_commission (s : Service) (e : Errand) :
    (s.commission e).1.tasks.find? (s.commission e).2 =
      some ⟨e.chore.process e.settings.policy, none,
        e.chore.interrupts e.settings.timeout s.now⟩ := by
  simp [commission, addTask]

theorem serve_cons (s : Service) (e : Errand) (rest : List Errand) :
    s.serve (e :: rest) =
      (((s.carry e).1.serve rest).1, (s.carry e).2 :: ((s.carry e).1.serve rest).2) := rfl

@[simp] theorem carry_chore (s : Service) (e : Errand) : (s.carry e).2.chore = e.chore := by
  unfold carry
  dsimp only
  split <;> rfl

/-- A session performs an operation as an errand with the patience of sessions. -/
theorem perform_operation (session : Session) (op : Operation) :
    (session.perform (.operation op)).1.service = (session.service.carry ⟨.operation op,
      session.service.settings, session.service.ledger.clock, Session.patience⟩).1 := by
  have hcommission : session.service.commission ⟨.operation op, session.service.settings,
      session.service.ledger.clock, Session.patience⟩ = session.service.submit op := rfl
  rw [carry, hcommission, Session.perform, Session.launch]
  dsimp only
  obtain ⟨s, events, how⟩ :=
    (session.service.submit op).1.await (session.service.submit op).2 Session.patience
  cases how <;> rfl

/-! ## What turns of the task keep -/

variable {P : Service → Prop}

theorem poll_induction (hturn : ∀ s a, a.turn? = some id → P s → P (s.step a)) (h : P s) :
    P (s.poll id).1 := by
  obtain ⟨actions, heq, hactions⟩ := s.poll_run id
  rw [heq]
  clear heq
  induction actions generalizing s with
  | nil => exact h
  | cons a rest ih =>
    exact ih (hturn s a (hactions a List.mem_cons_self) h) fun b hb =>
      hactions b (List.mem_cons_of_mem a hb)

/-- What the turns of a task keep, whatever the time, is kept while somebody waits for it. -/
theorem await_induction (hturn : ∀ s a, a.turn? = some id → P s → P (s.step a))
    (hnow : ∀ s n, P s → P { s with now := n }) (h : P s) (patience : Duration) :
    P (s.await id patience).1 := by
  have hpoll : P (s.poll id).1 := poll_induction hturn h
  unfold await
  split
  · rename_i s' events how heq
    rwa [heq] at hpoll
  · rename_i s' events heq
    rw [heq] at hpoll
    dsimp only
    split
    · exact hnow s' _ hpoll
    · exact poll_induction hturn (hnow s' _ hpoll)

/-- What the start of the task and its turns keep is kept by the errand. -/
theorem carry_induction
    (hturn : ∀ s' a, a.turn? = some (s.commission e).2 → P s' → P (s'.step a))
    (hnow : ∀ s' n, P s' → P { s' with now := n }) (h : P (s.commission e).1) :
    P (s.carry e).1 := by
  have hawait := await_induction hturn hnow h e.patience
  unfold carry
  dsimp only
  split
  · rename_i s' events how heq
    rwa [heq] at hawait
  · rename_i s' events heq
    rw [heq] at hawait
    exact hturn s' (.abort (s.commission e).2) rfl hawait

theorem Lawful.commission (hs : s.Lawful) (e : Errand) : (s.commission e).1.Lawful :=
  ((hs.step (.configure e.settings)).step (.ledger (.setClock e.clock))).added rfl
    fun _ hi => Chore.interrupts_proper hi

theorem Lawful.at (hs : s.Lawful) (now : Nat) : ({ s with now } : Service).Lawful :=
  ⟨hs.ledger, hs.opened, hs.apart, hs.numbered, hs.interrupts⟩

theorem Lawful.carry (hs : s.Lawful) (e : Errand) : (s.carry e).1.Lawful :=
  carry_induction (fun _ a _ h => h.step a) (fun _ n h => h.at n) (hs.commission e)

end Service
end FundsLedger
