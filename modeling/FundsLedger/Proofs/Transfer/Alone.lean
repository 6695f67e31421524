import FundsLedger.Proofs.Ledger.Unique
import FundsLedger.Proofs.LockOrder
import FundsLedger.Proofs.Service.Alone
import FundsLedger.Proofs.Transfer.Commuting
import FundsLedger.Proofs.Transfer.Linearizable

/-!
Transfers that are alone. If nobody else asks for the rows of its two accounts and the store does
not fail, a transfer is answered without a pause, after a single attempt, and the answer and the
books after it are those of the sequential reference on the books before it.
-/

namespace FundsLedger

open Ledger

variable {r : TransferRequest} {o : TransferOrder} {b : Books} {rows : AccountId → Prop}

/-- The account is one of the two that the request names. -/
def TransferRequest.Concerns (r : TransferRequest) (id : AccountId) : Prop :=
  id = r.fromId ∨ id = r.toId

/-- What a task has found are these books. -/
theorem Work.Meets.seeing {ε α : Type} {K : Rules} {w : Work ε α}
    {post : List Books → View → Except ε α → Prop} {seen : List Books} {v : View}
    (h : w.Meets K post seen v) (hK : ∀ l, K.relies l → l.books = b) (hseen : ∀ b' ∈ seen, b' = b) :
    w.Meets K (fun seen v result => (∀ b' ∈ seen, b' = b) ∧ post seen v result) seen v := by
  induction w generalizing seen v with
  | done result => exact ⟨hseen, h⟩
  | call c next ih =>
    refine ⟨h.1, fun l u p answer v' hf ha => ih answer (h.2 l u p answer v' hf ha) ?_⟩
    exact List.forall_mem_cons.mpr ⟨hK l hf.relied, hseen⟩
  | note event rest ih => exact ih h hseen
  | panic message => exact h.elim

theorem TransferError.IsVerdict.not_retryable {e : TransferError} (h : e.IsVerdict) :
    ¬ e.retryable = true := by
  cases e <;> first | exact h.elim | exact Bool.false_ne_true

/-- The answer is that of the reference on these books, and so is what the task has published. -/
def TransferRequest.Carried (r : TransferRequest) (b : Books) (h : History)
    (answer : Except TransferError Receipt) : Prop :=
  ∃ k, r.serial k b = (answer, h.after b)

namespace TransferOrder

variable {source destination : Account} {v : View} {seen : List Books}

/-- No account that an attempt has staged is a new one. -/
theorem Stages.unique {l : Ledger} {u : UnitId} {receipt : Receipt}
    (h : Stages r o v source destination receipt) (hf : Rules.accounting.Finds v l u none) :
    v.staged.firstDuplicate? l.books = none := by
  cases hfirst : v.staged.firstDuplicate? l.books with
  | none => rfl
  | some a =>
    obtain ⟨⟨id, ha⟩, hnew, -⟩ := UnitOfWork.firstDuplicate?_eq_some hfirst
    have hid : a.id = id := by
      refine ((Rules.accounting.sound hf).staged u id a ?_).1
      rw [hf.fits.unit_eq]
      exact ha
    obtain ⟨hsource, hdestination⟩ := h.locked.stand hf
    rw [h.accounts, Table.find?_insert, Table.find?_insert] at ha
    rw [hid] at hnew
    split at ha
    · rename_i heq
      rw [heq, hdestination] at hnew
      cases hnew
    · split at ha
      · rename_i heq
        rw [heq, hsource] at hnew
        cases hnew
      · simp at ha

/-- One attempt of a task that is alone is answered as by the reference. -/
theorem atomically_alone (h : r.Asks o) :
    o.attempt.atomically.Keeps (Rules.calm b) (r.Carried b) History.empty none := by
  have hmeets : o.attempt.Meets (Rules.calm b) (Attempted (Rules.calm b) r o) [] View.fresh :=
    attempt_meets (o.assured_lenient.trans (Rules.calm_lenient b)) h
  -- The books that the attempt has found are those that it may rely on.
  have hseeing := hmeets.seeing (fun l hr => hr.2.1) (by simp)
  refine Work.Meets.atomically (hseeing.mono (.refl _) fun seen v result hattempted => ?_)
  obtain ⟨hseen, hattempted⟩ := hattempted
  cases result with
  | error e =>
    rcases hattempted with ⟨b', hb', hserial⟩ | ⟨l, point, fault, hr, hinjected, -⟩
    · rw [hseen b' hb'] at hserial
      exact ⟨⟨0, .epoch, 0, .epoch, 0, .epoch⟩, hserial _⟩
    · rw [injected?, hr.2.2.1] at hinjected
      cases hinjected
  | ok receipt =>
    obtain ⟨hsettled, source, destination, hstages⟩ := hattempted
    refine ⟨hsettled, fun l u hf => ?_⟩
    have hf' := (Rules.calm_lenient b).finds hf
    obtain ⟨-, hbooks, hfailPoint, hconflicts⟩ := hf.relied
    rw [commitUnit_ok hfailPoint hconflicts (hstages.unique hf')]
    obtain ⟨k, -, hserial⟩ := hstages.commits hf'
    rw [hbooks] at hserial
    exact ⟨k, by rw [hserial, History.after, hbooks]⟩

/-- An attempt that ends otherwise than with a conflict is the only one. -/
theorem executeFrom_drive {policy : RetryPolicy} {attempt left : Nat} {hurried : Bool}
    {l l' : Ledger} {unit unit' : Option UnitId} {events : List Event}
    {answer : Except TransferError Receipt}
    (h : o.attempt.atomically.drive hurried l unit =
      ⟨l', unit', events, .settled (.answered answer)⟩)
    (hfinal : ∀ e, answer = .error e → ¬ e.retryable = true) :
    ∃ events', (o.executeFrom policy attempt left).drive hurried l unit =
      ⟨l', unit', events', .settled (.answered answer)⟩ := by
  cases answer with
  | ok receipt => cases left <;> exact ⟨_, by rw [executeFrom, Process.drive_bind h]; rfl⟩
  | error e =>
    have hno := hfinal e rfl
    cases left <;>
      exact ⟨_, by rw [executeFrom, Process.drive_bind h]; simp only [if_neg hno]; rfl⟩

theorem executeFrom_upTo {policy : RetryPolicy} {attempt left : Nat} (hurried : Bool) (l : Ledger)
    (unit : Option UnitId) :
    (o.attempt.atomically.drive hurried l unit).ledger.drawn.UpTo
      ((o.executeFrom policy attempt left).drive hurried l unit).ledger.drawn := by
  cases left <;> exact Process.drive_bind_upTo hurried l unit _ _

end TransferOrder

/-- A transfer that is alone is answered without a pause, as by the reference. -/
theorem TransferRequest.execute_alone {l : Ledger} (hrows : ∀ id, r.Concerns id → rows id)
    (policy : RetryPolicy) (hurried : Bool) (hl : l.Lawful) (hc : l.Calm rows none)
    (hr : ((r.execute policy).drive hurried l none).ledger.drawn.InRange) :
    ∃ l' events answer k, (r.execute policy).drive hurried l none =
        ⟨l', none, events, .settled (.answered answer)⟩ ∧
      r.serial k l.books = (answer, l'.books) ∧ l'.Calm rows none := by
  unfold execute at hr ⊢
  split at hr
  · rename_i o hvalid
    have hr := hr.of_upTo (TransferOrder.executeFrom_upTo hurried l none)
    have hasks := asks_of_validate hvalid
    have honly := Work.Only.mono o.attempt_within fun c hc row hrow => hrows row (by
      rw [Concerns, hasks.fromId, hasks.toId]
      exact hc row hrow)
    obtain ⟨l', events, answer, h, hdrive, ⟨k, hserial⟩, -, hcalm, hbooks⟩ :=
      (TransferOrder.atomically_alone hasks).drive_alone hurried (Work.Only.atomically honly) hl
        .idle hc rfl hr
    rw [← hbooks] at hserial
    obtain ⟨events', hdrive⟩ := TransferOrder.executeFrom_drive hdrive fun e he => by
      rw [he] at hserial
      exact (serial_eq_error hserial).1.not_retryable
    exact ⟨l', events', answer, k, hdrive, hserial, hcalm⟩
  · rename_i e hinvalid
    exact ⟨l, [], .error e, ⟨0, .epoch, 0, .epoch, 0, .epoch⟩, rfl,
      serial_of_validate_error hinvalid _ _, hc⟩

namespace Service

variable {s : Service} {limit : Limit}

/-- Submits a transfer and lets it go on as far as it can. -/
def pay (s : Service) (r : TransferRequest) (limit : Limit) : Service × Option (Settled Answer) :=
  let t := s.submit (.transfer r limit)
  ((t.1.poll t.2).1, (t.1.poll t.2).2.2)

theorem pay_run (s : Service) (r : TransferRequest) (limit : Limit) :
    ∃ actions, (s.pay r limit).1 = s.run actions := by
  obtain ⟨actions, hrun, -⟩ :=
    poll_run (s.submit (.transfer r limit)).1 (s.submit (.transfer r limit)).2
  exact ⟨.submit (.transfer r limit) :: actions, hrun⟩

theorem Lawful.pay (hs : s.Lawful) (r : TransferRequest) (limit : Limit) :
    (s.pay r limit).1.Lawful := by
  obtain ⟨actions, hrun⟩ := s.pay_run r limit
  rw [hrun]
  exact hs.run actions

theorem Lawful.pay_upTo (hs : s.Lawful) (r : TransferRequest) (limit : Limit) :
    s.ledger.drawn.UpTo (s.pay r limit).1.ledger.drawn := by
  obtain ⟨actions, hrun⟩ := s.pay_run r limit
  rw [hrun]
  exact hs.upTo_run actions

theorem interrupt_upTo (s : Service) (id : TaskId) :
    s.ledger.drawn.UpTo (s.interrupt id).1.ledger.drawn := by
  unfold interrupt
  split
  · exact .refl _
  · rename_i t ht
    split
    · exact .refl _
    · split
      · exact (s.ledger.abandonAny_serves t.unit).upTo
      · exact .refl _

theorem poll_upTo {id : TaskId} {t : Task} (ht : s.tasks.find? id = some t) :
    (t.process.drive (t.interrupts.any (·.due ≤ s.now)) s.ledger t.unit).ledger.drawn.UpTo
      (s.poll id).1.ledger.drawn := by
  simp only [poll, ht]
  cases t.process.drive (t.interrupts.any (·.due ≤ s.now)) s.ledger t.unit with
  | mk l' unit events standing =>
    cases standing with
    | settled how => exact .refl _
    | suspended process => exact interrupt_upTo { s with ledger := l', tasks := _ } id

theorem poll_of_drive {id : TaskId} {t : Task} {l' : Ledger} {unit : Option UnitId}
    {events : List Event} {how : Settled Answer} (ht : s.tasks.find? id = some t)
    (hdrive : t.process.drive (t.interrupts.any (·.due ≤ s.now)) s.ledger t.unit =
      ⟨l', unit, events, .settled how⟩) :
    s.poll id = ({ s with ledger := l', tasks := s.tasks.erase id }, events, some how) := by
  simp only [poll, ht, hdrive, settle]

/-- A transfer that is alone with its accounts is answered at once, as by the reference. -/
theorem pay_alone (hs : s.Lawful) (hc : s.ledger.Calm rows none)
    (hrows : ∀ id, r.Concerns id → rows id)
    (hr : (s.pay r limit).1.ledger.drawn.InRange) :
    ∃ answer k, (s.pay r limit).2 = some (.answered (.receipt answer)) ∧
      r.serial k s.ledger.books = (answer, (s.pay r limit).1.ledger.books) ∧
      (s.pay r limit).1.ledger.Calm rows none := by
  have hfound := find?_submit s (.transfer r limit)
  have hr := hr.of_upTo (poll_upTo hfound)
  obtain ⟨l', events, answer, k, hdrive, hserial, hcalm⟩ :=
    r.execute_alone hrows s.settings.policy _ hs.ledger hc (hr.of_upTo (Process.drive_bind_upTo ..))
  have hdrive := Process.drive_bind (f := fun answer => Process.done (Answer.receipt answer)) hdrive
  have hpoll := poll_of_drive hfound hdrive
  unfold pay
  dsimp only
  rw [hpoll]
  exact ⟨answer, k, rfl, hserial, hcalm⟩

end Service
end FundsLedger
