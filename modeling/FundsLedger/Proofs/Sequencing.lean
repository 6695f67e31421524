import FundsLedger.Proofs.Ledger.Sequenced
import FundsLedger.Proofs.LockOrder

/-!
Rules of sequence. Whoever appends an entry or a transfer to the history of an account has locked
the row of the account before. A transfer appends to two histories, and by then it has locked both
rows.
-/

namespace FundsLedger

open Ledger

variable {ε α : Type} {v : View} {l : Ledger} {m : Move} {seen : List Books}

/-- The rules of sequence. -/
def Rules.sequencing : Rules where
  relies l := l.drawn.InRange ∧ l.Sequenced
  calls v c := ∀ row, c.AppendsTo row → v.HasLocked row
  commits _ := True

/-- The rules allow every call that appends nothing. -/
theorem Rules.sequencing_of_silent {c : Call} (h : ∀ row, ¬ c.AppendsTo row) :
    sequencing.calls v c :=
  fun row happends => (h row happends).elim

theorem Rules.sequencing_allowReading : sequencing.AllowReading where
  calls v c hc := by
    cases c <;> simp only [Call.Reads] at hc
    all_goals exact sequencing_of_silent fun _ => id
  commits := trivial

/-- Whatever the rules allow keeps a ledger in sequence. -/
theorem Rules.sequencing.inOrder (h : sequencing.Allows l m) : l.InOrder m := by
  cases m with
  | performed u c =>
    obtain ⟨v, p, hf, hcalls⟩ := h
    intro row happends
    obtain ⟨a, ha⟩ := Option.isSome_iff_exists.mp (hcalls row happends)
    exact hf.fits.held row a ha
  | withdrawn u => exact h.elim
  | _ => trivial

/-- Work that appends only to accounts whose rows are locked already. -/
theorem Work.Only.sequenced {rows : AccountId → Prop} {w : Work ε α}
    (h : w.Only fun c => ∀ row, c.AppendsTo row → rows row)
    (hlocked : ∀ row, rows row → v.HasLocked row) :
    w.Meets Rules.sequencing (fun _ _ _ => True) seen v := by
  have hmeets : w.Meets Rules.sequencing (fun _ v _ => ∀ row, rows row → v.HasLocked row) seen v :=
    h.meets hlocked (fun v c hlocked hc row happends => hlocked row (hc row happends))
      fun v l c r v' hlocked _ ha row hrow => ha.hasLocked (hlocked row hrow)
  exact hmeets.mono (.refl _) fun _ _ _ _ => trivial

/-! ## Transfers -/

namespace TransferOrder

variable {o : TransferOrder}

/-- An attempt writes to the histories of its two accounts only. -/
theorem moving_appends (source destination : Account) :
    (o.moving source destination).Only fun c => ∀ row, c.AppendsTo row → o.Concerns row := by
  have hfrom : ∀ row, o.fromId = row → o.Concerns row := fun row heq => Or.inl heq.symm
  have hto : ∀ row, o.toId = row → o.Concerns row := fun row heq => Or.inr heq.symm
  refine .require (.require (.require (.require ?_)))
  refine .ask nofun fun _ => .ask nofun fun _ => .ask hfrom fun _ => .ask hto fun _ =>
    .ask (fun row happends => ?_) fun _ => trivial
  rcases happends with heq | heq
  · exact hfrom row heq
  · exact hto row heq

/-- Once both rows are locked, the histories of both accounts may be written. -/
theorem locking_sequenced {first second : AccountId}
    {next : Account → Account → Work TransferError Receipt}
    (hrows : ∀ row, o.Concerns row → row = first ∨ row = second)
    (hnext : ∀ a a', (next a a').Only fun c => ∀ row, c.AppendsTo row → o.Concerns row) :
    (locking first second next).Meets Rules.sequencing (fun _ _ _ => True) seen v := by
  show (Work.ask (.getForUpdate first) >>= _).Meets _ _ _ _
  refine .ask (Rules.sequencing_of_silent fun _ => id) fun l u p r v _ ha => ?_
  rcases View.answers_getForUpdate ha with ⟨-, rfl⟩ | ⟨a, -, rfl, rfl⟩
  · trivial
  refine .ask (Rules.sequencing_of_silent fun _ => id) fun l' u p r v' _ ha => ?_
  rcases View.answers_getForUpdate ha with ⟨-, rfl⟩ | ⟨a', -, rfl, rfl⟩
  · trivial
  refine (hnext a a').sequenced fun row hrow => ?_
  rcases hrows row hrow with rfl | rfl
  · exact ha.hasLocked (by simp [View.HasLocked, View.lock])
  · simp [View.HasLocked, View.lock]

theorem attempt_sequenced :
    o.attempt.Meets Rules.sequencing (fun _ _ _ => True) seen View.fresh := by
  rw [attempt_eq]
  split
  · exact locking_sequenced (fun _ h => h) moving_appends
  · exact locking_sequenced (fun _ h => h.symm) fun a a' => moving_appends a' a

end TransferOrder

/-! ## Openings and reconciliations -/

/-- The deposit is an entry on the account whose balance it has changed. -/
theorem Accounts.openingWork_sequenced (owner : String) (currency : Currency) (deposit : Amount) :
    (openingWork owner currency deposit).Meets Rules.sequencing (fun _ _ _ => True) seen
      View.fresh := by
  rw [openingWork_eq]
  refine .ask (Rules.sequencing_of_silent fun _ => id) fun l u p r v _ ha => ?_
  rcases View.answers_createAccount ha with ⟨rfl, -⟩ | ⟨a, -, rfl, rfl⟩
  · trivial
  show (funding a deposit).Meets _ _ _ _
  unfold funding
  split
  · trivial
  refine .ask (Rules.sequencing_of_silent fun _ => id) fun l u p r v _ ha => ?_
  rcases View.answers_addBalance ha with ⟨e, rfl, -⟩ | ⟨b, sum, hsees, -, rfl, hlock, -⟩
  · trivial
  have hb : b = a := by
    rw [View.sees?, UnitOfWork.visible?, View.stageAccount, Table.find?_insert, if_pos rfl] at hsees
    exact (Option.some.inj hsees).symm
  subst hb
  have hlocked : v.HasLocked b.id := by simp [View.HasLocked, hlock, View.lock]
  refine .ask (fun row happends => ?_) fun l u p r v _ ha => ?_
  · obtain rfl : b.id = row := happends
    exact hlocked
  · cases r <;> trivial

/-- A reconciliation appends nothing. -/
theorem Inquiries.reconcileOnce_sequenced (id : AccountId) :
    (reconcileOnce id).Meets Rules.sequencing (fun _ _ _ => True) seen View.fresh := by
  have hsilent : (reconcileOnce id).Only fun c => ∀ row, c.AppendsTo row → False :=
    .ask (fun _ h => h) fun _ => .ask (fun _ h => h) fun _ => trivial
  exact hsilent.sequenced fun _ h => h.elim

/-- Everything on offer keeps the rules of sequence. -/
theorem Rules.sequencing_bind : sequencing.Bind := by
  intro op policy hoffered
  have hcommits : ∀ v, sequencing.commits v := fun _ => trivial
  refine Operation.process_keeps hoffered policy sequencing_allowReading
    (fun owner currency deposit _ => ?_) (fun request limit _ => ?_) fun id _ => ?_
  · exact Accounts.openAccount_keeps_of_work fun c _ =>
      (Accounts.openingWork_sequenced owner c deposit).atomically_of_commits hcommits
  · exact request.execute_keeps_of_attempt policy fun o _ seen =>
      TransferOrder.attempt_sequenced.atomically_of_commits hcommits
  · exact Inquiries.reconcile_keeps_of_once policy fun seen =>
      (Inquiries.reconcileOnce_sequenced id).atomically_of_commits hcommits

/-! ## Runs of clients -/

namespace Service

variable {actions : List Action}

/-- In every run of clients everybody keeps the rules of sequence, and the ledger is in
sequence. -/
theorem clients_sequenced (settings : Settings) (hclient : ∀ a ∈ actions, a.IsClient)
    (hr : ((start settings).run actions).ledger.drawn.InRange) :
    ((start settings).run actions).Disciplined Rules.sequencing ∧
      ((start settings).run actions).ledger.Sequenced := by
  obtain ⟨hdisciplined, hrelies, -⟩ := clients_run (D := Drawn.InRange)
    (fun hr hup => hr.of_upTo hup) Rules.sequencing_bind ⟨by decide, .empty⟩
    (fun l m l' hl hrelies hm hallows hr =>
      ⟨hr, hrelies.2.makes (hl.sound hrelies.1) hm (Rules.sequencing.inOrder hallows) hr⟩)
    settings actions hclient hr
  exact ⟨hdisciplined, hrelies.2⟩

/-- The histories of all accounts grow at their ends while clients go on. -/
theorem clients_continue (settings : Settings) {more : List Action}
    (hclient : ∀ a ∈ actions ++ more, a.IsClient)
    (hr : ((start settings).run (actions ++ more)).ledger.drawn.InRange) :
    ((start settings).run actions).ledger.books.Continues
      ((start settings).run (actions ++ more)).ledger.books := by
  rw [run_append] at hr ⊢
  refine run_induction (s := (start settings).run actions)
    (P := fun as s => (∀ a ∈ actions ++ as, a.IsClient) → s.ledger.drawn.InRange →
      ((start settings).run actions).ledger.books.Continues s.ledger.books)
    (fun _ _ => .refl _) (fun as a ih hclient hr => ?_) more hclient hr
  have hs := ((Lawful.start settings).run actions).run as
  have hr' := hr.of_upTo ((((start settings).run actions).run as).step_goes a |>.ledger_cases hs).2.1
  have hclient' : ∀ b ∈ actions ++ as, b.IsClient := fun b hb => by
    rw [← List.append_assoc] at hclient
    exact hclient b (List.mem_append_left _ hb)
  have hcontinues := ih hclient' hr'
  rw [← run_append] at hs hr' hcontinues ⊢
  obtain ⟨hdisciplined, hsequenced⟩ := clients_sequenced settings hclient' hr'
  obtain ⟨m, hm, -⟩ := hdisciplined.allows hs ⟨hr', hsequenced⟩ (hclient a (by simp))
  exact hcontinues.trans (hsequenced.continues (hs.ledger.sound hr') hm)

end Service
end FundsLedger
