import FundsLedger.Proofs.Service.Atomicity
import FundsLedger.Proofs.Transfer.Alone

/-!
What the checks of an attempt are good for. An attempt checks copies of its two accounts, and writes
only later; but it holds the rows of both, so the accounts that it writes are those that it has
checked. Every write is therefore answered at once and does what it is for, unless the store has
been told to fail; and so a transfer ends with an internal failure only if a fault was injected
while it was under way.
-/

namespace FundsLedger

open Ledger

/-- The place at which the ledger can be told to fail a call. -/
def Call.point? : Call → Option FailPoint
  | addBalance .. => some .addBalance
  | appendEntry .. => some .appendEntry
  | appendTransfer .. => some .appendTransfer
  | _ => none

/-- A call fails because the ledger has been told to fail it. -/
def Ledger.FailsCall (l : Ledger) : Answered → Prop
  | ⟨c, r⟩ => ∃ point e, c.point? = some point ∧ l.injected? point = some e ∧ r = .error e

/-- A call whose row the task has locked is answered without waiting. -/
theorem View.Fits.reply_of_locked {v : View} {l : Ledger} {u : UnitId} {q : Option Call} {c : Call}
    (h : v.Fits l u q) (hl : l.Lawful) (hq : q = none ∨ q = some c)
    (hlocked : ∀ row, c.row? = some row → (v.locked.find? row).isSome) :
    ∃ r v', (l.respond (some u) (.call c)).reply = some r ∧ v.Answers l c r v' := by
  have hresponds := h.respond_call hl hq
  generalize l.respond (some u) (.call c) = response at hresponds
  cases hresponds with
  | answered answers fits called => exact ⟨_, _, rfl, answers⟩
  | waits row? waits fits called =>
    obtain ⟨a, ha⟩ := Option.isSome_iff_exists.mp (hlocked _ row?)
    exact absurd (fits.held _ a ha) waits.2

theorem Interrupt.Proper.not_internal {i : Interrupt} {text : String} (h : i.Proper) :
    i.error ≠ .internal text := by
  rcases h with h | h
  · rw [h]
    exact nofun
  · rw [h]
    exact nofun

namespace TransferOrder

variable {o : TransferOrder} {r : TransferRequest} {source destination : Account}
variable {v v' : View} {l : Ledger} {u : UnitId} {q : Option Call} {c : Call} {seen : List Books}

/-- A write has done what it is for: the amount has gone from the source, which has not been
overdrawn, to the destination, which still holds a balance that fits a word, and is on record. -/
inductive Written (o : TransferOrder) (source destination : Account) : Answered → Prop
  | debit {left : Amount} (units : left.units = source.balance.units - o.amount.units)
      (nonneg : 0 ≤ left.units) :
      Written o source destination
        ⟨.addBalance o.fromId o.amount.neg, .ok { source with balance := left }⟩
  | credit {sum : Amount} (units : sum.units = destination.balance.units + o.amount.units)
      (fits : sum.units ≤ 9223372036854775807) :
      Written o source destination
        ⟨.addBalance o.toId o.amount, .ok { destination with balance := sum }⟩
  | debitEntry {e : Entry} (account : e.accountId = o.fromId)
      (amount : e.amount.units = -o.amount.units) :
      Written o source destination ⟨.appendEntry o.fromId o.amount.neg, .ok e⟩
  | creditEntry {e : Entry} (account : e.accountId = o.toId) (amount : e.amount = o.amount) :
      Written o source destination ⟨.appendEntry o.toId o.amount, .ok e⟩
  | transfer {t : Transfer} (ends : t.fromId = o.fromId ∧ t.toId = o.toId)
      (amount : t.amount = o.amount) :
      Written o source destination ⟨.appendTransfer o.fromId o.toId o.amount, .ok t⟩

theorem Locked.isSome {id : AccountId} (h : o.Locked v source destination)
    (hid : id = o.fromId ∨ id = o.toId) : (v.locked.find? id).isSome := by
  rcases hid with rfl | rfl
  · simp [h.source]
  · simp [h.destination]

/-- A write needs no other row than those of the two accounts. -/
theorem Writes.locked {row : AccountId} (h : o.Writes v c) (hl : o.Locked v source destination)
    (hrow : c.row? = some row) : (v.locked.find? row).isSome := by
  cases h <;> cases hrow
  case debit => exact hl.isSome (Or.inl rfl)
  case credit => exact hl.isSome (Or.inr rfl)

/-- An account that has not been changed is seen as it is in the books. -/
theorem sees?_of_unstaged {id : AccountId} (h : v.staged.accounts.find? id = none) :
    v.sees? l id = l.books.accounts.find? id := by
  rw [View.sees?, UnitOfWork.visible?, h, Option.none_or]

/-- The accounts that a write finds are those that have been checked, so none of its own reasons to
fail applies. -/
theorem Writes.answered {result : c.Result} (hw : o.Writes v c)
    (hl : o.Locked v source destination) (hp : o.Passes source destination)
    (hf : Rules.accounting.Finds v l u q) (ha : v.Answers l c result v') :
    o.Written source destination ⟨c, result⟩ ∨ l.FailsCall ⟨c, result⟩ := by
  have hstand := hl.stand hf
  have hneg := Amount.neg_units o.amount_pos
  have hfunds := hp.funds
  obtain ⟨hdebit, hcredit⟩ := hp.add?
  cases hw with
  | debit unstaged =>
    have hfound : v.sees? l o.fromId = some source :=
      (sees?_of_unstaged unstaged).trans hstand.source
    rcases View.answers_addBalance ha with
      ⟨e, rfl, hinjected | ⟨hnone, -⟩ | ⟨a, hsees, hnone⟩⟩ | ⟨a, left, hsees, hleft, rfl, -, -⟩
    · exact Or.inr ⟨_, e, rfl, hinjected, rfl⟩
    · exact absurd hnone (hstand.sees (Or.inl rfl))
    · rw [hfound] at hsees
      cases hsees
      exact absurd hnone hdebit
    · rw [hfound] at hsees
      cases hsees
      rw [Amount.add?_eq_some_iff] at hleft
      exact Or.inl (.debit (by omega) (by omega))
  | credit unstaged =>
    have hfound : v.sees? l o.toId = some destination :=
      (sees?_of_unstaged unstaged).trans hstand.destination
    rcases View.answers_addBalance ha with
      ⟨e, rfl, hinjected | ⟨hnone, -⟩ | ⟨a, hsees, hnone⟩⟩ | ⟨a, sum, hsees, hsum, rfl, -, -⟩
    · exact Or.inr ⟨_, e, rfl, hinjected, rfl⟩
    · exact absurd hnone (hstand.sees (Or.inr rfl))
    · rw [hfound] at hsees
      cases hsees
      exact absurd hnone hcredit
    · rw [hfound] at hsees
      cases hsees
      exact Or.inl (.credit (Amount.add?_eq_some_iff.mp hsum) sum.upper)
  | debitEntry =>
    rcases View.answers_appendEntry ha with
      ⟨e, rfl, hinjected | ⟨hnone, -⟩⟩ | ⟨e, haccount, hamount, rfl, -⟩
    · exact Or.inr ⟨_, e, rfl, hinjected, rfl⟩
    · exact absurd hnone (hstand.sees (Or.inl rfl))
    · exact Or.inl (.debitEntry haccount (by rw [hamount, hneg]))
  | creditEntry =>
    rcases View.answers_appendEntry ha with
      ⟨e, rfl, hinjected | ⟨hnone, -⟩⟩ | ⟨e, haccount, hamount, rfl, -⟩
    · exact Or.inr ⟨_, e, rfl, hinjected, rfl⟩
    · exact absurd hnone (hstand.sees (Or.inr rfl))
    · exact Or.inl (.creditEntry haccount hamount)
  | transfer =>
    rcases View.answers_appendTransfer ha with
      ⟨e, rfl, hinjected | ⟨id, hid, hnone, -⟩⟩ | ⟨t, hfrom, hto, hamount, rfl, -⟩
    · exact Or.inr ⟨_, e, rfl, hinjected, rfl⟩
    · exact absurd hnone (hstand.sees hid)
    · exact Or.inl (.transfer ⟨hfrom, hto⟩ hamount)

/-! ## Whole transfers -/

/-- The rules of an attempt on a store that has not been told to fail. -/
def spared (o : TransferOrder) : Rules :=
  { o.assured with relies := fun l => l.drawn.InRange ∧ l.failPoint = none }

theorem assured_lenient_spared (o : TransferOrder) : o.assured.Lenient o.spared :=
  ⟨fun _ hr => hr.1, fun _ _ hc => hc, fun _ hv => hv⟩

/-- The store itself is to blame for the failure. -/
def Internal (answer : Except TransferError Receipt) : Prop :=
  ∃ text, answer = .error (.internal text)

theorem not_internal_of_verdict {e : TransferError} (h : e.IsVerdict) : ¬ Internal (.error e) := by
  rintro ⟨text, heq⟩
  cases heq
  exact h

theorem not_internal_ok (receipt : Receipt) : ¬ Internal (.ok receipt) := by
  rintro ⟨text, heq⟩
  cases heq

theorem not_internal_conflict (n : Nat) : ¬ Internal (.error (.conflict n)) := by
  rintro ⟨text, heq⟩
  cases heq

/-- An attempt that has been made in a unit of work of its own keeps its rules. -/
theorem atomically_assured (h : r.Asks o) :
    o.attempt.atomically.Keeps o.assured History.Spotless ⟨seen, none⟩ none := by
  have hmeets : o.attempt.Meets o.assured (Attempted o.assured r o) seen View.fresh :=
    attempt_meets (.refl _) h
  refine Work.Meets.atomically (hmeets.mono (.refl _) fun seen v result hattempted => ?_)
  refine .of_commits fun receipt hresult => ?_
  subst hresult
  exact hattempted.1

/-- On a store that has not been told to fail, no attempt ends with an internal failure: neither a
call nor the commit has a reason of its own for one. -/
theorem atomically_spared (h : r.Asks o) :
    o.attempt.atomically.Keeps o.spared
      (fun h answer => h.Spotless answer ∧ ¬ Internal answer) ⟨seen, none⟩ none := by
  have hmeets : o.attempt.Meets o.spared (Attempted o.spared r o) seen View.fresh :=
    attempt_meets o.assured_lenient_spared h
  refine Work.Meets.atomically (hmeets.mono (.refl _) fun seen v result hattempted => ?_)
  cases result with
  | error e =>
    refine ⟨fun _ _ => rfl, ?_⟩
    rcases hattempted with ⟨b, -, hserial⟩ | ⟨l, point, fault, hr, hinjected, -⟩
    · exact not_internal_of_verdict
        (TransferRequest.serial_eq_error (hserial ⟨0, .epoch, 0, .epoch, 0, .epoch⟩)).1
    · rw [injected?, hr.2] at hinjected
      cases hinjected
  | ok receipt =>
    obtain ⟨hsettled, source, destination, hstages⟩ := hattempted
    refine ⟨hsettled, fun l u hf => ?_⟩
    cases hr : (l.commitUnit u v.staged).2 with
    | ok =>
      refine ⟨?_, not_internal_ok receipt⟩
      rintro e ⟨⟩
    | error e =>
      refine ⟨fun _ _ => rfl, ?_⟩
      rcases commitUnit_error hr with hinjected | rfl | ⟨a, hfirst, -⟩
      · rw [injected?, hf.relied.2] at hinjected
        cases hinjected
      · exact not_internal_conflict 1
      · rw [hstages.unique (accounting_finds o.assured_lenient_spared hf)] at hfirst
        cases hfirst

end TransferOrder

namespace TransferRequest

variable {r : TransferRequest} {o : TransferOrder} {limit : Limit}

theorem process_assured (hvalid : r.validate = .ok o) (policy : RetryPolicy) :
    ((Operation.transfer r limit).process policy).Keeps o.assured (fun _ _ => True) History.empty
      none := by
  have hkeeps : (r.execute policy).Keeps o.assured History.Spotless History.empty none := by
    rw [execute, hvalid]
    exact TransferOrder.executeFrom_keeps
      (fun _ => TransferOrder.atomically_assured (asks_of_validate hvalid))
      (fun h e hspotless _ => ⟨hspotless e rfl, fun n _ _ => hspotless e rfl⟩) policy 1 _
  exact .map (hkeeps.mono (.refl _) fun _ _ _ => trivial)

theorem process_spared (hvalid : r.validate = .ok o) (policy : RetryPolicy) :
    ((Operation.transfer r limit).process policy).Keeps o.spared
      (fun _ a => ∃ answer, a = .receipt answer ∧ ¬ TransferOrder.Internal answer) History.empty
      none := by
  have hkeeps : (r.execute policy).Keeps o.spared
      (fun h answer => h.Spotless answer ∧ ¬ TransferOrder.Internal answer) History.empty none := by
    rw [execute, hvalid]
    refine TransferOrder.executeFrom_keeps
      (fun _ => TransferOrder.atomically_spared (asks_of_validate hvalid)) (fun h e hpost _ => ?_)
      policy 1 _
    have hnone := hpost.1 e rfl
    exact ⟨hnone, fun n => ⟨fun _ _ => hnone, TransferOrder.not_internal_conflict n⟩⟩
  exact .map (hkeeps.mono (.refl _) fun _ answer hpost => ⟨answer, rfl, hpost.2⟩)

end TransferRequest

namespace Service

variable {s : Service} {t : Service × TaskId} {request : TransferRequest} {limit : Limit}
variable {o : TransferOrder}

/-- A transfer that stands at a write holds the rows of two accounts that have passed its checks,
and the write is answered in the next step of the transfer: it does what it is for, or the store has
been told to fail it. -/
theorem Follows.writes {post : History → Answer → Prop} {id : TaskId} {h : History} {task : Task}
    {c : Call} {next : c.Result → Process Answer} (hf : s.Follows o.assured post id h)
    (hs : s.Lawful) (hr : s.ledger.drawn.InRange) (ht : s.tasks.find? id = some task)
    (hp : task.process = .ask (.call c) next) (hc : c.IsWrite) :
    ∃ u source destination result, task.unit = some u ∧
      s.ledger.Holds u o.fromId ∧ s.ledger.Holds u o.toId ∧
      o.Stand s.ledger.books source destination ∧ o.Passes source destination ∧
      s.answered? id (.advance id) = some ⟨c, result⟩ ∧
      (o.Written source destination ⟨c, result⟩ ∨ s.ledger.FailsCall ⟨c, result⟩) := by
  obtain ⟨u, v, q, hunit, hfits, hq, -, hwrites⟩ := hf.calls ht hp
  obtain ⟨hwrites, source, destination, hlocked, hpasses⟩ := hwrites hc
  have hfinds : Rules.accounting.Finds v s.ledger u q := ⟨hs.ledger, hr, hfits⟩
  obtain ⟨result, v', hreply, hanswers⟩ :=
    hfits.reply_of_locked hs.ledger hq fun row hrow => hwrites.locked hlocked hrow
  refine ⟨u, source, destination, result, hunit, hfits.held _ _ hlocked.source,
    hfits.held _ _ hlocked.destination, hlocked.stand hfinds, hpasses, ?_,
    hwrites.answered hlocked hpasses hfinds hanswers⟩
  simp only [answered?, if_pos, ht, Option.bind_some, hp, hunit, Process.answered?, hreply,
    Option.map_some]

/-- After its checks a transfer cannot fail by itself, whatever others do at any time and whatever
balances there are. Taking the amount off is the opposite of putting it on; every write is made on
the accounts that have been checked, is answered at once and does what it is for, unless the store
has been told to fail it; and an internal failure of the transfer means that the store has been told
to fail while the transfer was under way. -/
theorem transfer_assured (hs : s.Reachable) (hvalid : request.validate = .ok o)
    (ht : s.submit (.transfer request limit) = t) (actions : List Action)
    (hr : (t.1.run actions).ledger.drawn.InRange) :
    o.amount.neg.units = -request.amount.units ∧
    (∀ task c next, (t.1.run actions).tasks.find? t.2 = some task →
      task.process = .ask (.call c) next → c.IsWrite →
      ∃ u source destination result, task.unit = some u ∧
        (t.1.run actions).ledger.Holds u request.fromId ∧
        (t.1.run actions).ledger.Holds u request.toId ∧
        o.Stand (t.1.run actions).ledger.books source destination ∧
        o.Passes source destination ∧
        (t.1.run actions).answered? t.2 (.advance t.2) = some ⟨c, result⟩ ∧
        (o.Written source destination ⟨c, result⟩ ∨
          (t.1.run actions).ledger.FailsCall ⟨c, result⟩)) ∧
    ∀ last text,
      (t.1.run actions).ended? t.2 last = some (.answered (.receipt (.error (.internal text)))) →
      ∃ pre post, actions = pre ++ post ∧ (t.1.run pre).ledger.failPoint ≠ none := by
  have hlawful := hs.lawful.of_submit ht
  have hasks := TransferRequest.asks_of_validate hvalid
  have hrange : ∀ pre rest, actions = pre ++ rest → (t.1.run pre).ledger.drawn.InRange := by
    rintro pre rest rfl
    exact hlawful.inRange_of_append hr
  refine ⟨?_, fun task c next htask hprocess hwrite => ?_, fun last text hended => ?_⟩
  · rw [Amount.neg_units o.amount_pos, hasks.amount]
  · rw [hasks.fromId, hasks.toId]
    have hcame := hs.lawful.came ht (TransferRequest.process_assured hvalid s.settings.policy) hrange
    obtain ⟨h, -, hfollows⟩ := hcame.live (by rw [htask]; rfl)
    exact hfollows.writes (hlawful.run actions) hr htask hprocess hwrite
  · by_contra hnever
    push Not at hnever
    obtain ⟨hlive, hgone⟩ := gone_of_ended hended
    obtain ⟨h, -, hends, -⟩ := hs.lawful.ends ht
      (TransferRequest.process_spared hvalid s.settings.policy)
      (fun pre rest heq => ⟨hrange pre rest heq, hnever pre rest heq⟩) hlive hgone
    rw [hended] at hends
    generalize he : TransferError.internal text = e at hends
    cases hends with
    | answered answers =>
      obtain ⟨answer, heq, hnot⟩ := answers
      cases heq
      exact hnot ⟨text, by rw [he]⟩
    | interrupted proper unpublished => exact proper.not_internal he.symm

/-- The payment in the sample, once its form has been checked. -/
def paymentOrder : TransferOrder :=
  ⟨payment.movement, dollar, by decide, by decide, by decide, by decide⟩

set_option maxRecDepth 8000 in
/-- In its fifth turn the payment in the sample takes the amount off its source, and that leaves 60
cents there. -/
theorem payment_assured :
    ∃ a source destination,
      ((sample.submit (.transfer payment .usual)).1.run (turns 3 4)).answered? 3 (.advance 3) =
        some ⟨.addBalance 1 paymentOrder.amount.neg, .ok a⟩ ∧
      a.balance.units = 60 ∧ paymentOrder.Passes source destination ∧
      paymentOrder.Written source destination
        ⟨.addBalance 1 paymentOrder.amount.neg, .ok a⟩ := by
  have hvalid : payment.validate = .ok paymentOrder := by rfl
  have hfound : ∃ a : Account,
      ((sample.submit (.transfer payment .usual)).1.run (turns 3 4)).answered? 3 (.advance 3) =
        some ⟨.addBalance 1 paymentOrder.amount.neg, .ok a⟩ ∧ a.balance.units = 60 :=
    ⟨_, rfl, rfl⟩
  obtain ⟨a, hfound, hunits⟩ := hfound
  obtain ⟨-, hwrites, -⟩ := transfer_assured ⟨_, _, rfl⟩ hvalid
    (rfl : sample.submit (.transfer payment .usual) = _) (turns 3 4) (by decide)
  obtain ⟨u, source, destination, result, -, -, -, -, hpasses, hanswered, hwritten⟩ :=
    hwrites _ _ _ rfl rfl trivial
  have hsame := Option.some.inj (hanswered.symm.trans hfound)
  rw [hsame] at hwritten
  refine ⟨a, source, destination, hfound, hunits, hpasses, hwritten.resolve_right ?_⟩
  rintro ⟨point, e, -, -, ⟨⟩⟩

end Service
end FundsLedger
