import FundsLedger.Proofs.Service.Polls
import FundsLedger.Proofs.Transfer.Outcome

/-!
Linearizability of transfers. However many transfers, other operations and units of work of any kind
share a ledger, every transfer that is answered has been carried out, or refused, as if at one
instant: in one of its turns between its start and its end the sequential reference gives that
answer on the committed books of the moment, and leaves the books that the turn leaves.
-/

namespace FundsLedger

open Service

/-- The call has been decided: it has succeeded or has been refused on its merits. -/
def Decided : Except TransferError Receipt → Prop
  | .ok _ => True
  | .error e => e.IsVerdict

/-- The answer of a task that executes a transfer, and its history, are as the reference says. -/
def TransferRequest.Concluded (r : TransferRequest) (h : History) (a : Answer) : Prop :=
  ∃ answer, a = .receipt answer ∧ r.Outcome h answer

theorem TransferRequest.process_keeps (r : TransferRequest) (limit : Limit)
    (policy : RetryPolicy) :
    ((Operation.transfer r limit).process policy).Keeps Rules.accounting r.Concluded
      History.empty none :=
  .map ((r.execute_keeps policy).mono (.refl _) fun _ answer houtcome => ⟨answer, rfl, houtcome⟩)

theorem Interrupt.Proper.not_verdict {i : Interrupt} (h : i.Proper) : ¬ i.error.IsVerdict := by
  rcases h with h | h
  · rw [h]
    exact id
  · rw [h]
    exact id

namespace Service

variable {s : Service} {t : Service × TaskId} {request : TransferRequest} {limit : Limit}
variable {actions : List Action}

/-- A transfer that has been submitted to a service which may have any past has kept its rules,
unless it has ended. -/
theorem Reachable.transfer_came (hs : s.Reachable)
    (ht : s.submit (.transfer request limit) = t)
    (hrange : (t.1.run actions).ledger.drawn.InRange) :
    t.1.Lawful ∧ t.1.Came Rules.accounting request.Concluded t.2 actions := by
  have hlawful := hs.lawful.of_submit ht
  refine ⟨hlawful, hs.lawful.came ht (request.process_keeps limit s.settings.policy) ?_⟩
  rintro pre rest rfl
  exact hlawful.inRange_of_append hrange

/-- Every transfer that is decided takes effect in one of its turns, as the reference says. -/
theorem transfer_linearizable (hs : s.Reachable) (ht : s.submit (.transfer request limit) = t)
    (last : Action) {answer : Except TransferError Receipt}
    (hended : (t.1.run actions).ended? t.2 last = some (.answered (.receipt answer)))
    (hdecided : Decided answer)
    (hrange : (t.1.run (actions ++ [last])).ledger.drawn.InRange) :
    ∃ k before after, t.1.Turn t.2 (actions ++ [last]) before after ∧
      ((∃ receipt, answer = .ok receipt) → k.NewTo before) ∧
      request.serial k before = (answer, after) := by
  obtain ⟨hlive, hgone⟩ := gone_of_ended hended
  have hlawful : t.1.Lawful := by
    rw [← ht]
    exact hs.lawful.submit (.transfer request limit)
  have hrange' : (t.1.run actions).ledger.drawn.InRange := by
    have hup := (hlawful.run actions).upTo_run [last]
    rw [← run_append] at hup
    exact hrange.of_upTo hup
  obtain ⟨-, hcame⟩ := hs.transfer_came ht hrange'
  cases hcame with
  | past past =>
    rw [past.absent] at hlive
    cases hlive
  | @following h hc hf hfreed =>
    obtain ⟨hends, hstopped⟩ := hf.ends (hlawful.run actions) hrange' hgone
    rw [hended] at hends
    cases hends with
    | interrupted proper unpublished => exact absurd hdecided proper.not_verdict
    | answered answers =>
      obtain ⟨_, heq, houtcome⟩ := answers
      cases heq
      cases answer with
      | ok receipt =>
        obtain ⟨b, k, hpublished, hnew, hserial⟩ := houtcome
        exact ⟨k, b, receipt.post b, (hc.published _ hpublished).append _, fun _ => hnew, hserial⟩
      | error e =>
        have hnot : ¬ ∃ receipt, (Except.error e : Except TransferError Receipt) = .ok receipt := by
          rintro ⟨receipt, h⟩
          cases h
        have k : Stamps := ⟨0, .epoch, 0, .epoch, 0, .epoch⟩
        -- A refusal is right for books that were seen in a turn, or for all books.
        rcases houtcome.2 hdecided with ⟨b, hb, hserial⟩ | hserial
        · exact ⟨k, b, b, (hc.seen b hb).append _, fun h => absurd h hnot, hserial k⟩
        · refine ⟨k, (t.1.run actions).ledger.books, (t.1.run actions).ledger.books, ?_,
            fun h => absurd h hnot, hserial k _⟩
          have hturn := Turn.last t.1 t.2 actions
          have hbooks : ((t.1.run actions).advance t.2).1.ledger.books = _ := hstopped.books
          rwa [hbooks] at hturn

/-- Two owners open accounts, one with 100 cents and the other one with 30. -/
def openings : List Action :=
  .submit (.openAccount "alice" "USD" ⟨100, by decide, by decide⟩) :: turns 1 7 ++
    .submit (.openAccount "bob" "USD" ⟨30, by decide, by decide⟩) :: turns 2 7

/-- A service in which both accounts are open. -/
def sample : Service := (start ⟨RetryPolicy.once, none⟩).run openings

/-- The first owner is to pay the second one 40 cents. -/
def payment : TransferRequest := ⟨1, 2, ⟨40, by decide, by decide⟩, "USD"⟩

set_option maxRecDepth 8000 in
/-- The payment in the sample succeeds in its twelfth turn. -/
theorem payment_linearizable :
    ∃ receipt k before after,
      ((sample.submit (.transfer payment .usual)).1.run (turns 3 11)).ended? 3 (.advance 3) =
        some (.answered (.receipt (.ok receipt))) ∧
      (sample.submit (.transfer payment .usual)).1.Turn 3 (turns 3 11 ++ [.advance 3])
        before after ∧
      k.NewTo before ∧ payment.serial k before = (.ok receipt, after) := by
  have hended : ∃ receipt,
      ((sample.submit (.transfer payment .usual)).1.run (turns 3 11)).ended? 3 (.advance 3) =
        some (.answered (.receipt (.ok receipt))) := ⟨_, rfl⟩
  obtain ⟨receipt, hended⟩ := hended
  obtain ⟨k, before, after, hturn, hnew, hserial⟩ :=
    transfer_linearizable ⟨_, _, rfl⟩ rfl (.advance 3) hended trivial (by decide)
  exact ⟨receipt, k, before, after, hended, hturn, hnew ⟨receipt, rfl⟩, hserial⟩

end Service
end FundsLedger
