import FundsLedger.Proofs.Service.Clients
import FundsLedger.Proofs.Timeless.Service
import FundsLedger.Proofs.Transfer.Linearizable

/-!
Reading disturbs nothing. An inquiry runs in units of work of its own, which end with real commits,
and a reconciliation locks a row and is tried again. All the same the books stay as they are in
every step of an inquiry, whatever others do in between; and errands that are carried out one after
the other come to the same, but for times, with inquiries among them as without.
-/

namespace FundsLedger

open Ledger

variable {α : Type} {l l' l'' : Ledger} {u : UnitId} {unit : Option UnitId} {w : UnitOfWork}
variable {c : Call}

/-- The operation only asks what is in the books. -/
def Operation.inquires : Operation → Bool
  | getAccount _ | listAccounts .. | getTransfer _ | listTransfers .. | listEntries ..
  | reconcile _ => true
  | openAccount .. | transfer .. | script .. => false

/-- The chore only asks what is in the books. -/
def Chore.inquires : Chore → Bool
  | operation op => op.inquires
  | own _ => false

theorem Chore.timeBlind_of_inquires {chore : Chore} (h : chore.inquires = true) :
    chore.TimeBlind := by
  cases chore with
  | operation op => exact trivial
  | own process => cases h

/-! ## What turns do to the store -/

namespace Ledger

/-- The store fails at the same place, and it has no more conflicts to come. -/
structure NoWorse (l l' : Ledger) : Prop where
  failPoint : l'.failPoint = l.failPoint
  conflicts : l'.conflicts ≤ l.conflicts

/-- Nothing has been written to the books, and no identifier has been given out. -/
structure Unwritten (l l' : Ledger) : Prop where
  books : l'.books = l.books
  drawn : l'.drawn = l.drawn

theorem NoWorse.refl (l : Ledger) : l.NoWorse l := ⟨rfl, Nat.le_refl _⟩

theorem NoWorse.trans (h : l.NoWorse l') (h' : l'.NoWorse l'') : l.NoWorse l'' :=
  ⟨h'.failPoint.trans h.failPoint, Nat.le_trans h'.conflicts h.conflicts⟩

theorem Unwritten.refl (l : Ledger) : l.Unwritten l := ⟨rfl, rfl⟩

theorem Unwritten.trans (h : l.Unwritten l') (h' : l'.Unwritten l'') : l.Unwritten l'' :=
  ⟨h'.books.trans h.books, h'.drawn.trans h.drawn⟩

theorem Called.noWorse {o : Outcome c} (h : l.Called u c l' o) : l.NoWorse l' := by
  cases h with
  | refused | waiting => exact .refl l
  | performed isOpen ready granted =>
    exact ⟨granted.failPoint, Nat.le_of_eq granted.conflicts⟩
  | queued => exact ⟨request_failPoint, Nat.le_of_eq request_conflicts⟩

/-- A call that writes nothing gives out no identifier and stages nothing. -/
theorem perform_of_not_isWrite (l : Ledger) (w : UnitOfWork) (hc : ¬ c.IsWrite) :
    (l.perform w c).drawn = l.drawn ∧ (l.perform w c).unit = w := by
  cases c with
  | getForUpdate id =>
    simp only [perform]
    split <;> exact ⟨rfl, rfl⟩
  | createAccount | addBalance | appendEntry | appendTransfer => exact absurd trivial hc
  | _ => exact l.perform_reads w trivial

theorem Called.unwritten {o : Outcome c} (h : l.Called u c l' o) (hc : ¬ c.IsWrite) :
    l.Unwritten l' := by
  refine ⟨h.books, ?_⟩
  cases h with
  | refused | waiting => rfl
  | performed isOpen ready granted =>
    exact granted.drawn_finish.trans (l.perform_of_not_isWrite _ hc).1
  | queued => exact request_drawn

theorem commitUnit_noWorse (l : Ledger) (u : UnitId) (w : UnitOfWork) :
    l.NoWorse (l.commitUnit u w).1 := by
  unfold commitUnit
  split
  · exact ⟨rfl, Nat.le_refl _⟩
  · split
    · exact ⟨rfl, Nat.sub_le _ _⟩
    · split <;> exact ⟨rfl, Nat.le_refl _⟩

theorem commitUnit_unwritten (l : Ledger) (u : UnitId) :
    l.Unwritten (l.commitUnit u UnitOfWork.fresh).1 := by
  have hcommitted := l.commitUnit_committed u UnitOfWork.fresh
  generalize l.commitUnit u UnitOfWork.fresh = committed at hcommitted ⊢
  obtain ⟨l', r⟩ := committed
  cases hcommitted with
  | failed e conflicts => exact ⟨rfl, rfl⟩
  | published unique => exact ⟨rfl, rfl⟩

theorem respond_noWorse (l : Ledger) (unit : Option UnitId) (r : Request) :
    l.NoWorse (l.respond unit r).ledger := by
  cases unit with
  | none => cases r <;> exact ⟨rfl, Nat.le_refl _⟩
  | some u =>
    cases r with
    | begin => exact ⟨rfl, Nat.le_refl _⟩
    | call c =>
      simp only [respond, Option.bind_some]
      cases h : (l.resume? u c).or (l.call? u c) with
      | none => exact .refl l
      | some p =>
        obtain ⟨l', o⟩ := p
        have hcalled : l.Called u c l' o := by
          rcases Option.or_eq_some_iff.mp h with h | ⟨-, h⟩
          · exact resume?_called h
          · exact call?_called h
        cases o <;> exact hcalled.noWorse
    | commit =>
      simp only [respond, Option.bind_some]
      cases h : l.commit? u with
      | none => exact .refl l
      | some p =>
        obtain ⟨w, -, -, heq⟩ := commit?_eq_some h
        have hworse := l.commitUnit_noWorse u w
        rwa [← heq] at hworse
    | rollback =>
      simp only [respond, Option.bind_some]
      cases h : l.rollback? u with
      | none => exact .refl l
      | some p =>
        obtain ⟨l', r⟩ := p
        obtain ⟨w, -, -, rfl, -⟩ := rollback?_eq_some h
        exact ⟨rfl, Nat.le_refl _⟩

theorem abandonAny_noWorse (l : Ledger) (unit : Option UnitId) :
    l.NoWorse (l.abandonAny unit).1 := by
  cases unit with
  | none => exact .refl l
  | some u =>
    simp only [abandonAny, abandon]
    split <;> exact ⟨rfl, Nat.le_refl _⟩

theorem abandonAny_unwritten (l : Ledger) (unit : Option UnitId) :
    l.Unwritten (l.abandonAny unit).1 := by
  cases unit with
  | none => exact .refl l
  | some u =>
    simp only [abandonAny, abandon]
    split <;> exact ⟨rfl, rfl⟩

end Ledger

theorem Process.advance_noWorse (l : Ledger) (unit : Option UnitId) (p : Process α) :
    l.NoWorse (p.advance l unit).ledger := by
  cases p with
  | done a => exact .refl l
  | ask request next =>
    have h := l.respond_noWorse unit request
    simp only [advance]
    split <;> exact h
  | note event rest => exact .refl l
  | sleep longest rest => exact .refl l
  | panic message => exact l.abandonAny_noWorse unit

/-! ## Rules for who only reads -/

/-- Who only reads makes no call that writes, and ends its units of work with nothing staged. It
relies on nothing. -/
def Rules.reading : Rules where
  relies _ := True
  calls _ c := ¬ c.IsWrite
  commits v := v.staged = UnitOfWork.fresh

theorem Rules.reading_allowReading : Rules.reading.AllowReading where
  calls _ c hc := by cases c <;> first | exact id | exact hc.elim
  commits := rfl

/-- A call that writes nothing leaves what is staged as it is. -/
theorem View.Answers.staged_of_not_isWrite {v v' : View} {r : c.Result} (h : v.Answers l c r v')
    (hc : ¬ c.IsWrite) : v'.staged = v.staged := by
  cases h with
  | refused refusal => rfl
  | performed => exact (l.perform_of_not_isWrite v.staged hc).2

/-- A reconciliation locks the row of the account, which is no writing. -/
theorem Inquiries.reconcile_keeps_reading (policy : RetryPolicy) (id : AccountId) :
    (reconcile policy id).Keeps Rules.reading (fun _ _ => True) History.empty none := by
  refine reconcile_keeps_of_once policy fun seen => ?_
  have honly : (reconcileOnce id).Only fun c => ¬ c.IsWrite :=
    .ask nofun fun _ => .ask nofun fun _ => trivial
  have hmeets : (reconcileOnce id).Meets Rules.reading
      (fun _ v _ => v.staged = UnitOfWork.fresh) seen View.fresh :=
    honly.meets (I := fun v => v.staged = UnitOfWork.fresh) rfl (fun _ _ _ hc => hc)
      fun _ _ _ _ _ hv hc ha => (ha.staged_of_not_isWrite hc).trans hv
  exact Work.Meets.atomically (hmeets.mono (.refl _) fun _ _ _ hv => .of_commits fun _ _ => hv)

/-- Inquiries only read. -/
theorem Operation.keeps_reading {op : Operation} (h : op.inquires = true) (policy : RetryPolicy) :
    (op.process policy).Keeps Rules.reading (fun _ _ => True) History.empty none := by
  have hK := Rules.reading_allowReading
  cases op with
  | openAccount | transfer | script => cases h
  | getAccount id => exact .map (Accounts.getAccount_keeps hK id)
  | listAccounts owner pageId pageSize =>
    exact .map (Accounts.listAccounts_keeps hK owner pageId pageSize)
  | getTransfer id => exact .map (Inquiries.getTransfer_keeps hK id)
  | listTransfers fromId toId pageId pageSize =>
    exact .map (Inquiries.listTransfers_keeps hK fromId toId pageId pageSize)
  | listEntries accountId pageId pageSize =>
    exact .map (Inquiries.listEntries_keeps hK accountId pageId pageSize)
  | reconcile accountId => exact .map (Inquiries.reconcile_keeps_reading policy accountId)

/-- No step of who only reads writes anything. -/
theorem Process.Keeps.unwritten {p : Process α} {post : History → α → Prop} {h : History}
    {view : Option View} (hk : p.Keeps Rules.reading post h view)
    (ha : View.Attached l unit view p) (hl : l.Lawful) :
    l.Unwritten (p.advance l unit).ledger := by
  cases p with
  | done a => exact .refl l
  | note event rest => exact .refl l
  | sleep longest rest => exact .refl l
  | panic message => exact hk.elim
  | ask request next =>
    have hledger :
        ((ask request next).advance l unit).ledger = (l.respond unit request).ledger := by
      simp only [Process.advance]
      split <;> rfl
    rw [hledger]
    cases request with
    | begin => exact ⟨rfl, rfl⟩
    | call c =>
      obtain ⟨-, v, rfl, hcalls, -⟩ := hk
      cases ha with
      | @busy u v q p fits pending =>
        have hresponds := fits.respond_call hl pending
        generalize l.respond (some u) (.call c) = response at hresponds
        cases hresponds with
        | waits row? waits fits' called => exact called.unwritten hcalls
        | answered answers fits' called => exact called.unwritten hcalls
    | commit =>
      obtain ⟨-, v, rfl, hcommits, -⟩ := hk
      cases ha with
      | @busy u v q p fits pending =>
        obtain rfl : q = none := by simpa [Process.call?] using pending
        rw [fits.respond_commit, hcommits]
        exact l.commitUnit_unwritten u
    | rollback =>
      obtain ⟨-, hsome, -⟩ := hk
      cases ha with
      | idle => cases hsome
      | @busy u v q p fits pending =>
        obtain rfl : q = none := by simpa [Process.call?] using pending
        rw [fits.respond_rollback]
        exact ⟨rfl, rfl⟩

/-! ## Turns of a task -/

namespace Service

variable {s s' : Service} {id : TaskId} {t : Task} {a : Action} {e : Errand}

/-- What the turn of a task does to the ledger: its process takes a step, or its unit of work is
dropped, or nothing happens. -/
theorem turn_ledger (ht : s.tasks.find? id = some t) (hturn : a.turn? = some id) :
    (s.step a).ledger = (t.process.advance s.ledger t.unit).ledger ∨
      (s.step a).ledger = (s.ledger.abandonAny t.unit).1 ∨ (s.step a).ledger = s.ledger := by
  cases a <;> simp only [Action.turn?, reduceCtorEq, Option.some.injEq] at hturn
  case advance =>
    subst hturn
    exact Or.inl (ledger_advance ht)
  case interrupt =>
    subst hturn
    simp only [step, interrupt, ht]
    split
    · exact Or.inr (Or.inr rfl)
    · split
      · exact Or.inr (Or.inl rfl)
      · exact Or.inr (Or.inr rfl)
  case abort =>
    subst hturn
    simp only [step, abort, ht]
    split
    · exact Or.inr (Or.inl rfl)
    · exact Or.inr (Or.inr rfl)

theorem step_noWorse (hturn : a.turn? = some id) : s.ledger.NoWorse (s.step a).ledger := by
  cases ht : s.tasks.find? id with
  | none =>
    rw [step_of_absent hturn ht]
    exact .refl _
  | some t =>
    rcases turn_ledger ht hturn with heq | heq | heq <;> rw [heq]
    · exact t.process.advance_noWorse s.ledger t.unit
    · exact s.ledger.abandonAny_noWorse t.unit
    · exact .refl _

/-- The task only reads, or it has ended. -/
def Reads (s : Service) (id : TaskId) : Prop :=
  s.tasks.find? id = none ∨ ∃ h, s.Follows Rules.reading (fun _ _ => True) id h

/-- A turn of a task that only reads writes nothing, and the task goes on reading. -/
theorem Reads.turn (h : s.Reads id) (hs : s.Lawful) (hturn : a.turn? = some id) :
    (s.step a).Reads id ∧ s.ledger.Unwritten (s.step a).ledger := by
  rcases h with habsent | ⟨history, hf⟩
  · rw [step_of_absent hturn habsent]
    exact ⟨Or.inl habsent, .refl _⟩
  · constructor
    · rcases hf.turn_cases hs trivial hturn with heq | hstopped | ⟨history', hf', -⟩
      · rw [heq]
        exact Or.inr ⟨history, hf⟩
      · exact Or.inl hstopped.absent
      · exact Or.inr ⟨history', hf'⟩
    · obtain ⟨t, view, ht, hattached, hk⟩ := hf
      rcases turn_ledger ht hturn with heq | heq | heq <;> rw [heq]
      · exact hk.unwritten hattached hs.ledger
      · exact s.ledger.abandonAny_unwritten t.unit
      · exact .refl _

/-- An inquiry only reads, at every moment of a run. -/
theorem reads_run {op : Operation} {t : Service × TaskId} (hs : s.Lawful)
    (hop : op.inquires = true) (ht : s.submit op = t) (actions : List Action) :
    (t.1.run actions).Reads t.2 := by
  have hcame : t.1.Came Rules.reading (fun _ _ => True) t.2 actions :=
    hs.came ht (Operation.keeps_reading hop s.settings.policy) fun _ _ _ => trivial
  cases hcame with
  | following chronicle follows freed => exact Or.inr ⟨_, follows⟩
  | past past freed => exact Or.inl past.absent

/-! ## Errands -/

theorem carry_noWorse (s : Service) (e : Errand) : s.ledger.NoWorse (s.carry e).1.ledger :=
  carry_induction (P := fun s' => s.ledger.NoWorse s'.ledger)
    (fun _ _ hturn h => h.trans (step_noWorse hturn)) (fun _ _ h => h) ⟨rfl, Nat.le_refl _⟩

/-- An errand that only asks begins as a task that only reads. -/
theorem commission_reads (he : e.chore.inquires = true) :
    (s.commission e).1.Reads (s.commission e).2 := by
  obtain ⟨chore, settings, clock, patience⟩ := e
  cases chore with
  | operation op =>
    exact Or.inr ⟨_, Follows.submit (Operation.keeps_reading he settings.policy)⟩
  | own process => cases he

/-- An inquiry writes nothing. -/
theorem carry_unwritten (hs : s.Lawful) (he : e.chore.inquires = true) :
    s.ledger.Unwritten (s.carry e).1.ledger := by
  have hend := carry_induction
    (P := fun s' => s'.Lawful ∧ s'.Reads (s.commission e).2 ∧ s.ledger.Unwritten s'.ledger)
    (fun s' a hturn h => ?_) (fun s' n h => ⟨h.1.at n, h.2⟩)
    ⟨hs.commission e, commission_reads he, ⟨rfl, rfl⟩⟩
  · exact hend.2.2
  · obtain ⟨hlawful, hreads, hunwritten⟩ := h
    obtain ⟨hreads', hunwritten'⟩ := hreads.turn hlawful hturn
    exact ⟨hlawful.step a, hreads', hunwritten.trans hunwritten'⟩

/-- An inquiry leaves the ledger as it is, but for the clock and the counts of units of work, if no
conflict is to come. -/
theorem carry_inquiry (hs : s.Lawful) (hc : s.ledger.conflicts = 0)
    (he : e.chore.inquires = true) :
    AtRest s.ledger.requests (s.carry e).1.ledger s.ledger := by
  have hself : AtRest s.ledger.requests s.ledger s.ledger :=
    ⟨.refl _, .of_lawful hs.ledger, .of_lawful hs.ledger⟩
  have hblind := Chore.timeBlind_of_inquires he
  have hrests := (carry_alike hself (rfl : e.timeless = e.timeless) hblind).2.rests
  have hunwritten := carry_unwritten hs he
  have hworse := s.carry_noWorse e
  refine ⟨⟨?_, hunwritten.drawn, hworse.failPoint, ?_⟩, hrests, hself.rests⟩
  · rw [hunwritten.books]
  · have hle := hworse.conflicts
    omega

/-- Errands that come to the same without the inquiries among them. -/
theorem serve_alike {others : List LockRequest} {es ws : List Errand} (hs : s.Lawful)
    (hc : s.ledger.conflicts = 0) (h : AtRest others s.ledger s'.ledger)
    (hblind : ∀ e ∈ es, e.chore.TimeBlind)
    (hws : (es.filter fun e => !e.chore.inquires).map Errand.timeless =
      ws.map Errand.timeless) :
    ((s.serve es).2.filter fun r => !r.chore.inquires).map Served.timeless =
        (s'.serve ws).2.map Served.timeless ∧
      AtRest others (s.serve es).1.ledger (s'.serve ws).1.ledger := by
  induction es generalizing s s' ws with
  | nil =>
    obtain rfl : ws = [] := by simpa using hws.symm
    exact ⟨rfl, h⟩
  | cons e rest ih =>
    have hlawful := hs.carry e
    have hnone : (s.carry e).1.ledger.conflicts = 0 := by
      have hle := (s.carry_noWorse e).conflicts
      omega
    rw [serve_cons]
    have hothers : ∀ e ∈ rest, e.chore.TimeBlind := fun e he => hblind e (List.mem_cons_of_mem _ he)
    cases he : e.chore.inquires with
    | true =>
      have hcarried := carry_inquiry hs hc he
      rw [h.rests.requests] at hcarried
      rw [List.filter_cons_of_neg (by simp [he])] at hws ⊢
      exact ih hlawful hnone ⟨hcarried.alike.trans h.alike, hcarried.rests, h.rests'⟩ hothers hws
    | false =>
      rw [List.filter_cons_of_pos (by simp [he])] at hws ⊢
      cases ws with
      | nil => cases hws
      | cons w ws =>
        obtain ⟨hfirst, hwrites⟩ := List.cons.inj hws
        obtain ⟨hanswer, hrest⟩ := carry_alike h hfirst (hblind e List.mem_cons_self)
        obtain ⟨hanswers, hlast⟩ := ih hlawful hnone hrest hothers hwrites
        refine ⟨?_, hlast⟩
        rw [serve_cons, List.map_cons, List.map_cons, hanswer, hanswers]

/-- Inquiries disturb nothing. Of errands that do not look at times, and are carried out one after
the other while no conflict is to come, those that are no inquiries are answered, but for times, as
they are without the inquiries before, between and after them, if at other times; and they leave the
same books but for times, the same counts of identifiers, and the line of lock requests as it was.
And whatever others do in between, no turn of an inquiry changes the books, or gives out an
identifier. -/
theorem inquiries_disturb_nothing (hs : s.Reachable) :
    (s.ledger.conflicts = 0 → ∀ es ws : List Errand, (∀ e ∈ es, e.chore.TimeBlind) →
      (es.filter fun e => !e.chore.inquires).map Errand.timeless = ws.map Errand.timeless →
      ((s.serve es).2.filter fun r => !r.chore.inquires).map Served.timeless =
          (s.serve ws).2.map Served.timeless ∧
        (s.serve es).1.ledger.books.timeless = (s.serve ws).1.ledger.books.timeless ∧
        (s.serve es).1.ledger.drawn = (s.serve ws).1.ledger.drawn ∧
        (s.serve es).1.ledger.requests = s.ledger.requests) ∧
    ∀ op : Operation, op.inquires = true → ∀ t, s.submit op = t →
      ∀ actions turn, turn.turn? = some t.2 →
        ((t.1.run actions).step turn).ledger.books = (t.1.run actions).ledger.books ∧
        ((t.1.run actions).step turn).ledger.drawn = (t.1.run actions).ledger.drawn := by
  refine ⟨fun hc es ws hblind hws => ?_, fun op hop t ht actions turn hturn => ?_⟩
  · have hself : AtRest s.ledger.requests s.ledger s.ledger :=
      ⟨.refl _, .of_lawful hs.lawful.ledger, .of_lawful hs.lawful.ledger⟩
    obtain ⟨hanswers, hrest⟩ := serve_alike hs.lawful hc hself hblind hws
    exact ⟨hanswers, hrest.alike.books, hrest.alike.drawn, hrest.rests.requests⟩
  · have hlawful := (hs.lawful.of_submit ht).run actions
    have hunwritten := ((reads_run hs.lawful hop ht actions).turn hlawful hturn).2
    exact ⟨hunwritten.books, hunwritten.drawn⟩

/-- The sample, and outside all tasks a unit of work that holds the row of the first account. -/
def guarded : Service := sample.run [.ledger .begin, .ledger (.call 3 (.getForUpdate 1))]

/-- The second account gets as much as it has. -/
def doubling : Work AccountError Account := do
  let a ← Work.ask (.getAccount 2)
  Work.ask (.addBalance a.id a.balance)

/-- The doubling of the second account as a unit of work. -/
def doublingChore : Chore := .own (doubling.atomically.map .account)

/-- Twelve hours after the epoch. -/
def noon : Timestamp := (Timestamp.of? Timestamp.epoch.date 12 0 0 0).getD Timestamp.epoch

/-- An errand at a time, for somebody who does not wait. -/
def errandAt (clock : Timestamp) (chore : Chore) : Errand :=
  ⟨chore, ⟨RetryPolicy.once, none⟩, clock, Duration.zero⟩

/-- An account is opened, the second account is doubled, and a payment waits in vain for the guarded
row. -/
def guardedWrites : List Errand :=
  [errandAt Timestamp.epoch (.operation (.openAccount "carol" "EUR" Amount.zero)),
    errandAt Timestamp.epoch doublingChore,
    errandAt Timestamp.epoch (.operation (.transfer payment (.deadline Duration.zero)))]

/-- The same at noon, among inquiries of which one waits in vain for the guarded row, one finds
nothing and one is refused. -/
def guardedErrands : List Errand :=
  [errandAt noon (.operation (.reconcile 1)),
    errandAt noon (.operation (.openAccount "carol" "EUR" Amount.zero)),
    errandAt noon (.operation (.getTransfer 7)), errandAt noon doublingChore,
    errandAt noon (.operation (.transfer payment (.deadline Duration.zero))),
    errandAt noon (.operation (.listEntries 1 0 5))]

set_option maxRecDepth 8000 in
/-- In the guarded sample nobody notices the inquiries. The lock of the row stays where it was; and
a reconciliation that waits for it changes nothing in its next turn either. -/
theorem guarded_inquiries :
    guarded.ledger.conflicts = 0 ∧ (∀ e ∈ guardedErrands, e.chore.TimeBlind) ∧
      (guardedErrands.filter fun e => !e.chore.inquires).map Errand.timeless =
        guardedWrites.map Errand.timeless ∧
      ((guarded.serve guardedErrands).2.filter fun r => !r.chore.inquires).map Served.timeless =
        (guarded.serve guardedWrites).2.map Served.timeless ∧
      (guarded.serve guardedErrands).1.ledger.books.timeless =
        (guarded.serve guardedWrites).1.ledger.books.timeless ∧
      (guarded.serve guardedErrands).1.ledger.drawn =
        (guarded.serve guardedWrites).1.ledger.drawn ∧
      (guarded.serve guardedErrands).1.ledger.requests = [⟨3, 1⟩] ∧
      (Operation.reconcile 1).inquires = true ∧ (guarded.submit (.reconcile 1)).2 = 3 ∧
      (((guarded.submit (.reconcile 1)).1.run (turns 3 2)).step (.advance 3)).ledger.books =
        ((guarded.submit (.reconcile 1)).1.run (turns 3 2)).ledger.books := by
  have hs : guarded.Reachable :=
    ⟨_, openings ++ [.ledger .begin, .ledger (.call 3 (.getForUpdate 1))], by
      rw [run_append]
      rfl⟩
  have hwork : doubling.Alike Account.timeless doubling := by
    have hread : (Work.ask (.getAccount 2) : Work AccountError Account).Alike Account.timeless
        (Work.ask (.getAccount 2)) := .ask (.getAccount 2)
    refine hread.bind fun a a' ha => ?_
    obtain ⟨t, rfl⟩ := Account.timeless_eq_iff.mp ha
    exact .ask (.addBalance a.id a.balance)
  have hdoubling : doublingChore.TimeBlind :=
    Chore.timeBlind_atomically hwork fun _ _ => congrArg Answer.account
  have hblind : ∀ e ∈ guardedErrands, e.chore.TimeBlind := by
    intro e he
    simp only [guardedErrands, List.mem_cons, List.not_mem_nil, or_false] at he
    rcases he with rfl | rfl | rfl | rfl | rfl | rfl <;> first | exact trivial | exact hdoubling
  have hrequests : guarded.ledger.requests = [⟨3, 1⟩] := rfl
  obtain ⟨hsequence, hturns⟩ := inquiries_disturb_nothing hs
  obtain ⟨hanswers, hbooks, hdrawn, hline⟩ :=
    hsequence rfl guardedErrands guardedWrites hblind rfl
  have hturn := hturns (.reconcile 1) rfl _ rfl (turns 3 2) (.advance 3) rfl
  exact ⟨rfl, hblind, rfl, hanswers, hbooks, hdrawn, hline.trans hrequests, rfl, rfl, hturn.1⟩

end Service
end FundsLedger
