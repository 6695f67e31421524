import FundsLedger.Proofs.Ledger.Reconciled
import FundsLedger.Proofs.Opening
import FundsLedger.Proofs.Service.Clients
import FundsLedger.Proofs.Transfer.Linearizable

/-!
Reconciliation. As long as clients only ask what the ledger offers, everybody keeps the rules of
accounting, so the ledger stays reconciled: every committed balance is the exact sum of the entries
on the account, all partial sums are balances that the account could have had, and whoever compares
the two under the lock on the row finds them equal.
-/

namespace FundsLedger

open Ledger

variable {l : Ledger} {u : UnitId} {v : View} {p : Option Call} {m : Move} {id : Int}
variable {seen : List Books}

/-- The rules of accounting for a task that may rely on everybody keeping them. -/
def Rules.reconciled : Rules :=
  { Rules.accounting with relies := fun l => l.drawn.InRange ∧ l.Reconciled }

theorem Rules.accounting_lenient : Rules.accounting.Lenient Rules.reconciled :=
  ⟨fun _ h => h.1, fun _ _ h => h, fun _ h => h⟩

theorem Rules.reconciled_allowReading : Rules.reconciled.AllowReading where
  calls v c hc := by
    cases c with
    | appendEntry id amount => exact hc.elim
    | _ => trivial
  commits := View.settled_of_unstaged rfl

/-! ## Every move keeps the ledger reconciled -/

/-- The entries on a row that a task has locked start from the committed balance. -/
theorem View.start_eq {a : Option Account} (hf : Rules.accounting.Finds v l u p)
    (ha : v.locked.find? id = some a) : v.start id = l.books.balanceOf id := by
  rw [View.start, ha, Books.balanceOf, Rules.accounting.row hf ha]
  cases a <;> rfl

/-- What a task has settled is what its commit makes of the balances. -/
theorem View.Settled.publish (h : v.Settled) (hf : Rules.accounting.Finds v l u p)
    (id : AccountId) :
    (v.staged.publish l.books).balanceOf id =
      l.books.balanceOf id + (v.staged.movements id).sum := by
  have hsettled := h id
  have hpublished : (v.staged.publish l.books).accounts.find? id =
      (v.staged.accounts.find? id).or (l.books.accounts.find? id) := Table.find?_overlay _ _ _
  cases hlocked : v.locked.find? id with
  | some a =>
    have hstart := View.start_eq hf hlocked
    rw [View.balance, hstart] at hsettled
    rw [← hsettled]
    cases hs : v.staged.accounts.find? id with
    | some a => simp [Books.balanceOf, hpublished, hs]
    | none => simp [Books.balanceOf, hpublished, hs]
  | none =>
    have hstart : v.start id = 0 := by rw [View.start, hlocked]
    rw [View.balance, hstart] at hsettled
    cases hs : v.staged.accounts.find? id with
    | some a =>
      have hnew := hf.fits.new_of_unlocked hf.lawful hf.relied hs hlocked
      simpa [Books.balanceOf, hpublished, hs, hnew] using hsettled
    | none =>
      rw [hs] at hsettled
      simp only [Int.zero_add] at hsettled
      rw [← hsettled]
      simp [Books.balanceOf, hpublished, hs]

/-- Whatever the rules allow keeps a ledger reconciled. -/
theorem Rules.reconciled.guarded (h : Rules.reconciled.Allows l m) : l.Guarded m := by
  cases m with
  | performed u c =>
    obtain ⟨v, p, hf, hcalls⟩ := h
    cases c with
    | appendEntry id amount =>
      obtain ⟨hlocked, hbounds⟩ := hcalls
      obtain ⟨a, ha⟩ := Option.isSome_iff_exists.mp hlocked
      have hmovements : (l.unit u).movements id = v.staged.movements id := by
        rw [hf.fits.unit_eq]
        rfl
      have hstart := View.start_eq (Rules.accounting_lenient.finds hf) ha
      rw [hstart] at hbounds
      refine ⟨hf.fits.held id a ha, ?_⟩
      rw [hmovements]
      exact hbounds (hf.relied.2.range id).1
    | _ => trivial
  | published u =>
    obtain ⟨v, hf, hsettled⟩ := h
    intro id
    rw [hf.fits.unit_eq]
    exact View.Settled.publish hsettled (Rules.accounting_lenient.finds hf) id
  | withdrawn u => exact h.elim
  | _ => trivial

/-! ## The operation that compares -/

/-- How a reconciliation may end: with an account that is consistent; after conflicts to the last
attempt; through the fault that commits can be told to fail with; or with an account that was not in
the books. -/
def Reconciliation.Told (id : AccountId) (h : History) :
    Except TransferError Reconciliation → Prop
  | .ok r => r.accountId = id ∧ r.Consistent
  | .error e => h.published = none ∧
      ((∃ n, e = .conflict n) ∨ e = .internal "Storage error: injected failure at Commit" ∨
        (e = .accountNotFound id ∧ ∃ b ∈ h.seen, b.accounts.find? id = none))

namespace Inquiries

/-- Under the lock on its row an account is consistent. -/
theorem reconcileOnce_meets (id : AccountId) :
    (reconcileOnce id).Meets Rules.reconciled (fun seen v result =>
      match result with
      | .ok r => v.staged = UnitOfWork.fresh ∧ r.accountId = id ∧ r.Consistent
      | .error e => e = .accountNotFound id ∧ ∃ b ∈ seen, b.accounts.find? id = none)
      seen View.fresh := by
  unfold reconcileOnce
  refine .ask trivial fun l u p r v hf hanswers => ?_
  rcases View.answers_getForUpdate hanswers with ⟨hsees, rfl⟩ | ⟨a, hsees, rfl, rfl⟩
  · exact ⟨rfl, l.books, List.mem_cons_self, hsees⟩
  have ha : l.books.accounts.find? id = some a := hsees
  refine .ask trivial fun l' u p r v hf hanswers => ?_
  have hreconciled := hf.relied.2
  have hband : InBand 0 (l'.books.movements id ++ UnitOfWork.fresh.movements id) := by
    rw [show UnitOfWork.fresh.movements id = [] from rfl, List.append_nil]
    exact hreconciled.bounded id
  obtain ⟨sum, hsum, hunits⟩ := UnitOfWork.entrySum?_of_inBand hband
  rcases View.answers_entrySum hanswers with ⟨hnone, -⟩ | ⟨sum', hsum', rfl, rfl⟩
  · have hnone : UnitOfWork.fresh.entrySum? l'.books id = none := hnone
    rw [hsum] at hnone
    cases hnone
  have hsum' : UnitOfWork.fresh.entrySum? l'.books id = some sum' := hsum'
  rw [hsum] at hsum'
  cases hsum'
  -- The row is locked, so the account is still as it was when it was read.
  have hrow : l'.books.accounts.find? id = some a :=
    Rules.accounting.row (Rules.accounting_lenient.finds hf) (by simp [View.lock, ha])
  refine ⟨rfl, rfl, Amount.ext ?_⟩
  show a.balance.units = sum.units
  rw [hunits, ← hreconciled.balanced id, Books.balanceOf_of_find? hrow]
  simp [UnitOfWork.movements, UnitOfWork.entriesOn, UnitOfWork.fresh]

theorem reconcileOnce_keeps (id : AccountId) (seen : List Books) :
    (reconcileOnce id).atomically.Keeps Rules.reconciled (Reconciliation.Told id)
      ⟨seen, none⟩ none := by
  refine Work.Meets.atomically ((reconcileOnce_meets id).mono (.refl _) fun seen v result h => ?_)
  cases result with
  | error e => exact ⟨rfl, Or.inr (Or.inr h)⟩
  | ok r =>
    obtain ⟨hunstaged, hid, hconsistent⟩ := h
    refine ⟨View.settled_of_unstaged hunstaged, fun l u hf => ?_⟩
    cases hr : (l.commitUnit u v.staged).2 with
    | ok => exact ⟨hid, hconsistent⟩
    | error e =>
      refine ⟨rfl, ?_⟩
      rcases commitUnit_error hr with hinjected | rfl | ⟨a, hduplicate, -⟩
      · simp only [injected?, Option.ite_none_right_eq_some, Option.some.injEq] at hinjected
        rw [← hinjected.2]
        exact Or.inr (Or.inl rfl)
      · exact Or.inl ⟨1, rfl⟩
      · rw [hunstaged] at hduplicate
        cases hduplicate

theorem reconcile_keeps (policy : RetryPolicy) (id : AccountId) :
    (reconcile policy id).Keeps Rules.reconciled (Reconciliation.Told id) History.empty none := by
  refine .map (RetryPolicy.retryFrom_keeps (fun _ => reconcileOnce_keeps id) ?_ 1 _)
  intro h e htold _
  exact ⟨htold.1, fun n => ⟨htold.1, Or.inl ⟨n, rfl⟩⟩⟩

end Inquiries

/-- Everything on offer keeps the rules of accounting. -/
theorem Rules.reconciled_bind : Rules.reconciled.Bind := by
  intro op policy hoffered
  refine Operation.process_keeps hoffered policy reconciled_allowReading
    (fun owner currency deposit _ => ?_) (fun request limit _ => ?_) fun id _ => ?_
  · exact (Accounts.openAccount_keeps owner currency deposit).mono accounting_lenient
      fun _ _ h => h
  · exact (request.execute_keeps policy).mono accounting_lenient fun _ _ _ => trivial
  · exact (Inquiries.reconcile_keeps policy id).mono (.refl _) fun _ _ _ => trivial

/-! ## Runs of clients -/

/-- The account is reconciled: its balance is the exact sum of the entries on it, and it has been
neither negative nor too large after any of them. -/
structure Books.Reconciles (b : Books) (id : AccountId) (a : Account) : Prop where
  ascending : (b.entriesOf id).Pairwise (·.id < ·.id)
  balanced : a.balance.units = ((b.entriesOf id).map (·.amount.units)).sum
  bounded : ∀ n, 0 ≤ (((b.entriesOf id).take n).map (·.amount.units)).sum ∧
    (((b.entriesOf id).take n).map (·.amount.units)).sum ≤ 9223372036854775807
  nonnegative : 0 ≤ a.balance.units

/-- How the comparison of an account ends: the account is consistent, unless conflicts or the fault
of a commit have stopped it, or the account was not known to begin with. -/
def Settled.Compared (id : AccountId) (known : Prop) : Settled Answer → Prop
  | .answered (.reconciliation (.ok r)) => r.accountId = id ∧ r.Consistent
  | .answered (.reconciliation (.error e)) =>
    (∃ n, e = .conflict n) ∨ e = .internal "Storage error: injected failure at Commit" ∨
      (e = .accountNotFound id ∧ ¬ known)
  | _ => False

namespace Ledger.Reconciled

theorem reconciles {a : Account} (h : l.Reconciled) (hs : l.Sound)
    (ha : l.books.accounts.find? id = some a) : l.books.Reconciles id a := by
  have hbalance : a.balance.units = (l.books.movements id).sum := by
    rw [← h.balanced id, Books.balanceOf_of_find? ha]
  refine ⟨Books.entriesOf_ascending hs.keyed id, hbalance, fun n => ?_, ?_⟩
  · have := h.bounded id n
    rw [Books.movements, ← List.map_take, Int.zero_add] at this
    exact this
  · have := (h.range id).1
    rwa [Books.balanceOf_of_find? ha] at this

/-- No sum of entries overflows, whatever the unit of work that asks for it has staged. -/
theorem entrySum {w : UnitOfWork} (h : l.Reconciled) (hw : l.units.find? u = some w)
    (id : AccountId) : ∃ sum, (l.perform w (.entrySum id)).result = .ok sum := by
  have hband : InBand 0 (l.books.movements id ++ w.movements id) := by
    refine (h.bounded id).append ?_
    have hstaged := h.staged u id
    rwa [unit_of_find? hw, h.balanced id, ← Int.zero_add (l.books.movements id).sum] at hstaged
  obtain ⟨sum, hsum, -⟩ := UnitOfWork.entrySum?_of_inBand hband
  exact ⟨sum, by simp only [perform, hsum]⟩

end Ledger.Reconciled

namespace Service

variable {s : Service} {t : Service × TaskId} {actions : List Action}

/-- In every run of clients everybody keeps the rules of accounting, and the ledger is
reconciled. -/
theorem clients_reconciled (settings : Settings) (hclient : ∀ a ∈ actions, a.IsClient)
    (hr : ((start settings).run actions).ledger.drawn.InRange) :
    ((start settings).run actions).ledger.Reconciled :=
  (clients_run (D := Drawn.InRange) (fun hr hup => hr.of_upTo hup) Rules.reconciled_bind
    ⟨by decide, .empty⟩
    (fun l m l' hl hrelied hm hallows hr =>
      ⟨hr, hrelied.2.makes (hl.sound hrelied.1) hm (Rules.reconciled.guarded hallows) hr⟩)
    settings actions hclient hr).2.1.2

/-- A comparison of an account ends as it should in a run in which everybody keeps the rules. -/
theorem reconcile_compared {id : AccountId} {last : Action} {how : Settled Answer} (hs : s.Lawful)
    (ht : s.submit (.reconcile id) = t)
    (hrelies : ∀ pre rest, actions = pre ++ rest →
      Rules.reconciled.relies (t.1.run pre).ledger)
    (hended : (t.1.run actions).ended? t.2 last = some how) :
    how.Compared id (s.ledger.books.accounts.find? id).isSome := by
  have hbooks : t.1.ledger.books = s.ledger.books := by
    rw [← ht]
    rfl
  have hkeeps : ((Operation.reconcile id).process s.settings.policy).Keeps Rules.reconciled
      (fun h a => ∃ result, a = .reconciliation result ∧ Reconciliation.Told id h result)
      History.empty none :=
    .map ((Inquiries.reconcile_keeps _ id).mono (.refl _)
      fun _ result htold => ⟨result, rfl, htold⟩)
  -- A comparison has no deadline and cannot be cancelled, so it ends with an answer.
  obtain ⟨h, -, rfl, ⟨result, rfl, htold⟩, hc⟩ :=
    answered_of_ended hs ht hkeeps rfl hrelies hended
  cases result with
  | ok r => exact htold
  | error e =>
    rcases htold.2 with hconflict | hfault | ⟨he, b, hb, hnone⟩
    · exact Or.inl hconflict
    · exact Or.inr (Or.inl hfault)
    · refine Or.inr (Or.inr ⟨he, fun hknown => ?_⟩)
      -- An account that is in the books stays there, so every turn would have found it.
      obtain ⟨pre, rest, -, rfl, -⟩ := hc.seen b hb
      rw [← hbooks] at hknown
      have hthere := committed_run hknown pre
      rw [hnone] at hthere
      cases hthere

/-- In every run of clients all committed accounts are reconciled, no sum of entries overflows, and
whoever compares an account finds it consistent. -/
theorem clients_reconcile (settings : Settings) (actions : List Action)
    (hclient : ∀ a ∈ actions, a.IsClient)
    (hr : ((start settings).run actions).ledger.drawn.InRange) :
    (∀ id a, ((start settings).run actions).ledger.books.accounts.find? id = some a →
      ((start settings).run actions).ledger.books.Reconciles id a) ∧
    (∀ u w id, ((start settings).run actions).ledger.units.find? u = some w →
      ∃ sum, (((start settings).run actions).ledger.perform w (.entrySum id)).result = .ok sum) ∧
    ∀ pre id post last more t how,
      actions = pre ++ .submit (.reconcile id) :: (post ++ last :: more) →
      ((start settings).run pre).submit (.reconcile id) = t →
      (t.1.run post).ended? t.2 last = some how →
      how.Compared id
        (((start settings).run pre).ledger.books.accounts.find? id).isSome := by
  have hlawful := (Lawful.start settings).run actions
  have hreconciled := clients_reconciled settings hclient hr
  refine ⟨fun id a ha => hreconciled.reconciles (hlawful.ledger.sound hr) ha,
    fun u w id hw => hreconciled.entrySum hw id, ?_⟩
  rintro pre id post last more t how rfl ht hended
  have hs := (Lawful.start settings).run pre
  refine reconcile_compared hs ht (fun pre' rest heq => ?_) hended
  subst ht heq
  -- The state at every moment of the comparison is one of the whole run.
  have hsplit : pre ++ .submit (.reconcile id) :: (pre' ++ rest ++ last :: more) =
      (pre ++ .submit (.reconcile id) :: pre') ++ (rest ++ last :: more) := by simp
  rw [hsplit] at hclient hr
  have hup := ((Lawful.start settings).run (pre ++ .submit (.reconcile id) :: pre')).upTo_run
    (rest ++ last :: more)
  rw [← run_append] at hup
  have hr' := hr.of_upTo hup
  have hrun : (start settings).run (pre ++ .submit (.reconcile id) :: pre') =
      (((start settings).run pre).submit (.reconcile id)).1.run pre' := by
    rw [run_append]
    rfl
  rw [← hrun]
  exact ⟨hr', clients_reconciled settings (fun a ha => hclient a (List.mem_append_left _ ha)) hr'⟩

/-- A payment between two new accounts has begun: it holds the first row. -/
def paying : List Action := openings ++ .submit (.transfer payment .usual) :: turns 3 3

/-- A comparison waits for the row until the payment has been committed. -/
def comparing : List Action := turns 4 2 ++ turns 3 9 ++ turns 4 3

set_option maxRecDepth 8000 in
/-- The comparison of the first account in the middle of a payment finds it consistent. -/
theorem payment_reconciles :
    (∀ a ∈ paying ++ .submit (.reconcile 1) :: (comparing ++ [.advance 4]), a.IsClient) ∧
    ∃ r, ((((start ⟨RetryPolicy.once, none⟩).run paying).submit (.reconcile 1)).1.run
        comparing).ended? 4 (.advance 4) = some (.answered (.reconciliation (.ok r))) ∧
      r.accountId = 1 ∧ r.Consistent := by
  have hclient : ∀ a ∈ paying ++ .submit (.reconcile 1) :: (comparing ++ [.advance 4]),
      a.IsClient := by decide
  have hended : ∃ r, ((((start ⟨RetryPolicy.once, none⟩).run paying).submit (.reconcile 1)).1.run
      comparing).ended? 4 (.advance 4) = some (.answered (.reconciliation (.ok r))) := ⟨_, rfl⟩
  obtain ⟨r, hended⟩ := hended
  obtain ⟨-, -, hcompared⟩ := clients_reconcile ⟨RetryPolicy.once, none⟩ _ hclient (by decide)
  obtain ⟨hid, hconsistent⟩ := hcompared _ _ _ _ [] _ _ rfl rfl hended
  exact ⟨hclient, r, hended, hid, hconsistent⟩

end Service
end FundsLedger
