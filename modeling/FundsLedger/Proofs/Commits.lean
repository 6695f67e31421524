import FundsLedger.Proofs.Opening
import FundsLedger.Proofs.Service.Clients
import FundsLedger.Proofs.Transfer.Outcome

/-!
What operations commit. An opening adds one account and at most one entry, a transfer does what the
sequential reference does, and nothing else on offer writes. As long as clients only ask what is on
offer, each step that changes the books is the commit of a task, and it changes them as the
operation of that task does.
-/

namespace FundsLedger

open Ledger

variable {ε α : Type} {P Q : Books → Books → Prop} {l l' : Ledger} {v : View} {m : Move}
variable {seen : List Books}

/-- An opening with this deposit has turned the first books into the second ones. -/
structure Opened (owner currency : String) (deposit : Amount) (a : Account) (before after : Books) :
    Prop where
  accounts : after.accounts = before.accounts.insert a.id a
  new : before.accounts.find? a.id = none
  owner : a.owner = owner
  currency : a.currency.code = currency
  balance : a.balance.units = deposit.units
  unfunded : deposit.units = 0 → after.entries = before.entries
  funded : deposit.units ≠ 0 → ∃ e, before.entries.find? e.id = none ∧ e.accountId = a.id ∧
    e.amount = deposit ∧ after.entries = before.entries.insert e.id e
  transfers : after.transfers = before.transfers

/-- How the commit of an operation may change the books. -/
def Operation.Records : Operation → Books → Books → Prop
  | openAccount owner currency deposit, before, after =>
    ∃ a, Opened owner currency deposit a before after
  | transfer request _, before, after =>
    ∃ k receipt, k.NewTo before ∧ request.serial k before = (.ok receipt, after)
  | _, _, _ => False

namespace Rules

/-- The rules of a task whose commit leaves the books as they are or changes them in one way. -/
def recording (P : Books → Books → Prop) : Rules where
  relies l := l.drawn.InRange
  calls _ _ := True
  commits v := ∀ l u, accounting.Finds v l u none →
    v.staged.publish l.books = l.books ∨ P l.books (v.staged.publish l.books)

theorem recording_lenient (h : ∀ b b', P b b' → Q b b') :
    (recording P).Lenient (recording Q) where
  relies _ hr := hr
  calls _ _ hc := hc
  commits _ hv l u hf := (hv l u hf).imp_right (h l.books _)

theorem recording_of_unstaged (h : v.staged = UnitOfWork.fresh) : (recording P).commits v := by
  intro l u _
  rw [h]
  exact Or.inl rfl

theorem recording_allowReading (P : Books → Books → Prop) : (recording P).AllowReading :=
  ⟨fun _ _ _ => trivial, recording_of_unstaged rfl⟩

/-- What these rules allow leaves the books as they are or changes them as they say. -/
theorem recording_books (h : (recording P).Allows l m) (hm : l.Makes m l') :
    l'.books = l.books ∨ P l.books l'.books := by
  cases hm with
  | rest books => exact Or.inl books
  | performed isOpen ready granted => exact Or.inl granted.books
  | queued => exact Or.inl request_books
  | withdrawn isOpen pending => exact h.elim
  | opened | closed => exact Or.inl rfl
  | published isOpen idle unique =>
    obtain ⟨v, hf, hcommits⟩ := h
    rw [hf.fits.stands] at isOpen
    cases isOpen
    exact hcommits l _ ⟨hf.lawful, hf.relied, hf.fits⟩

end Rules

/-- Work that keeps the rules of accounting, its unit of work begun and ended. -/
theorem Work.Meets.records [OfStoreError ε] {w : Work ε α}
    {post : List Books → View → Except ε α → Prop}
    (h : w.Meets Rules.accounting post seen View.fresh)
    (hpost : ∀ seen v a, post seen v (.ok a) → (Rules.recording P).commits v) :
    w.atomically.Keeps (Rules.recording P) History.Spotless ⟨seen, none⟩ none := by
  refine Work.Meets.atomically (h.under (fun _ hr => hr) (fun _ _ _ => trivial) ?_)
  intro seen v result hresult
  refine .of_commits fun a ha => ?_
  subst ha
  exact hpost seen v a hresult

namespace Accounts

variable {owner currency : String} {deposit : Amount} {a : Account} {u : UnitId}

/-- What an opening has staged is one account more. -/
theorem Funded.opened (h : Funded v a deposit) (howner : a.owner = owner)
    (hcurrency : a.currency.code = currency) (hf : Rules.accounting.Finds v l u none) :
    Opened owner currency deposit a l.books (v.staged.publish l.books) where
  accounts := by
    rw [UnitOfWork.publish, h.accounts]
    rfl
  new := h.new hf
  owner := howner
  currency := hcurrency
  balance := h.balance
  unfunded hzero := by
    rw [UnitOfWork.publish, h.unfunded hzero]
    rfl
  funded hnonzero := by
    obtain ⟨e, hentries, haccount, hamount⟩ := h.funded hnonzero
    have hstaged : (l.unit u).entries = [e] := by
      rw [hf.fits.unit_eq]
      exact hentries
    refine ⟨e, ?_, haccount, hamount, ?_⟩
    · exact (Rules.accounting.sound hf).entries.unpublished u e (by simp [hstaged])
    · rw [UnitOfWork.publish, hentries]
      rfl
  transfers := by
    rw [UnitOfWork.publish, h.transfers]
    rfl

theorem openAccount_records (owner currency : String) (deposit : Amount) :
    (openAccount owner currency deposit).Keeps
      (Rules.recording (Operation.openAccount owner currency deposit).Records) (fun _ _ => True)
      History.empty none := by
  refine openAccount_keeps_of_work fun c hchecked => ?_
  obtain ⟨hcode, hdeposit⟩ := of_checkOpening hchecked
  refine (openingWork_meets Rules.opening_lenient hdeposit).records fun _ v a hopens l u hf => ?_
  obtain ⟨howner, rfl, hfunded⟩ := hopens
  exact Or.inr ⟨a, hfunded.opened howner hcode hf⟩

end Accounts

theorem TransferRequest.execute_records (request : TransferRequest) (limit : Limit)
    (policy : RetryPolicy) :
    (request.execute policy).Keeps (Rules.recording (Operation.transfer request limit).Records)
      (fun _ _ => True) History.empty none := by
  refine execute_keeps_of_attempt policy fun o hasks seen => ?_
  refine (TransferOrder.attempt_meets o.assured_lenient hasks).records fun _ v receipt hattempted l u hf => ?_
  obtain ⟨-, source, destination, hstages⟩ := hattempted
  obtain ⟨k, hnew, hserial⟩ := hstages.commits hf
  exact Or.inr ⟨k, receipt, hnew, hserial⟩

/-- A reconciliation stages nothing. -/
theorem Inquiries.reconcile_records (policy : RetryPolicy) (id : AccountId) :
    (reconcile policy id).Keeps (Rules.recording P) (fun _ _ => True) History.empty none := by
  refine reconcile_keeps_of_once policy fun seen => ?_
  have hwork : (reconcileOnce id).Meets Rules.accounting
      (fun _ v r => ∀ a, r = .ok a → v.staged = UnitOfWork.fresh) seen View.fresh := by
    refine .ask trivial fun l u p r v _ hanswers => ?_
    rcases View.answers_getForUpdate hanswers with ⟨-, rfl⟩ | ⟨a, -, rfl, rfl⟩
    · exact fun _ h => nomatch h
    refine .ask trivial fun l u p r v _ hanswers => ?_
    rcases View.answers_entrySum hanswers with ⟨-, e, rfl, -⟩ | ⟨sum, -, rfl, rfl⟩
    · exact fun _ h => nomatch h
    · exact fun _ _ => rfl
  exact hwork.records fun _ v a hunstaged => Rules.recording_of_unstaged (hunstaged a rfl)

/-- Every operation on offer commits what it is for. -/
theorem Operation.process_records {op : Operation} (hoffered : op.IsOffered)
    (policy : RetryPolicy) :
    (op.process policy).Keeps (Rules.recording op.Records) (fun _ _ => True) History.empty none := by
  refine process_keeps hoffered policy (Rules.recording_allowReading _) ?_ ?_ ?_
  · rintro owner currency deposit rfl
    exact Accounts.openAccount_records owner currency deposit
  · rintro request limit rfl
    exact request.execute_records limit policy
  · rintro id rfl
    exact Inquiries.reconcile_records policy id

/-- A step of clients leaves the books as they are, unless it is the commit of a task: then it
changes them as the rules of that task say. -/
theorem Service.Governed.books {s : Service} {P : TaskId → Books → Books → Prop}
    {a : Service.Action} (h : s.Governed fun id => Rules.recording (P id)) (hs : s.Lawful)
    (hr : s.ledger.drawn.InRange) (ha : a.IsClient) :
    (s.step a).ledger.books = s.ledger.books ∨
      ∃ id, a = .advance id ∧ P id s.ledger.books (s.step a).ledger.books := by
  rcases h.allows hs (fun _ => hr) ha with hall | ⟨id, heq, m, hm, hallows⟩
  · obtain ⟨m, hm, hallows⟩ := hall (Rules.recording fun _ _ => False)
    exact Or.inl ((Rules.recording_books hallows hm).resolve_right False.elim)
  · exact (Rules.recording_books hallows hm).imp_right fun hP => ⟨id, heq, hP⟩

end FundsLedger
