import FundsLedger.Proofs.Opening
import FundsLedger.Proofs.Service.Clients
import FundsLedger.Proofs.Transfer.Outcome

/-!
Rules of lock order. A task asks only for rows for which it may ask, and for a row that it has not
locked only if that comes after all rows that it has. Nothing in these rules depends on what others
do, so a task may rely on nothing and keeps them all the same: the first calls of a transfer take
both rows in ascending order, and all later ones come back to these two.
-/

namespace FundsLedger

open Ledger

variable {ε α β : Type} {v v' : View} {l : Ledger} {seen : List Books}
variable {may : View → AccountId → Prop} {row : Int}

namespace View

/-- The task has locked the row. -/
def HasLocked (v : View) (row : AccountId) : Prop := (v.locked.find? row).isSome

/-- The row comes after all rows that the task has locked. -/
def Below (v : View) (row : AccountId) : Prop := ∀ held : Int, v.HasLocked held → held < row

theorem not_hasLocked_of_empty (h : v.locked = Table.empty) (row : AccountId) :
    ¬ v.HasLocked row := by
  simp [HasLocked, h]

/-- No call of a task gives a lock back. -/
theorem Answers.hasLocked {c : Call} {r : c.Result} (h : v.Answers l c r v')
    (hrow : v.HasLocked row) : v'.HasLocked row := by
  cases h with
  | refused refusal => exact hrow
  | performed =>
    simp only [HasLocked, after, find?_lockedAfter]
    split
    · rfl
    · exact hrow

end View

/-- The rules of lock order for a task that may ask for these rows. -/
def Rules.ordered (may : View → AccountId → Prop) : Rules where
  relies _ := True
  calls v c := ∀ row, c.row? = some row → may v row ∧ (v.HasLocked row ∨ v.Below row)
  commits _ := True

theorem Rules.ordered_lenient {may' : View → AccountId → Prop}
    (h : ∀ v row, may v row → may' v row) : (Rules.ordered may).Lenient (Rules.ordered may') :=
  ⟨fun _ _ => trivial, fun v _ hcalls row hrow => (hcalls row hrow).imp (h v row) fun h => h,
    fun _ _ => trivial⟩

theorem Rules.ordered_allowReading (may : View → AccountId → Prop) :
    (Rules.ordered may).AllowReading where
  calls v c hc row hrow := by
    cases c <;> simp only [Call.Reads] at hc
    all_goals cases hrow
  commits := trivial

/-- A task that asks for no row keeps the order. -/
theorem Rules.ordered_of_no_row {c : Call} (h : c.row? = none) :
    (Rules.ordered may).calls v c := by
  intro row hrow
  rw [h] at hrow
  cases hrow

/-! ## Work that comes back to its rows -/

namespace Work

/-- The work asks for rows of these accounts only. -/
def Within (rows : AccountId → Prop) (w : Work ε α) : Prop :=
  w.Only fun c => ∀ row, c.row? = some row → rows row

/-- Work on rows that are locked already keeps the order. -/
theorem Within.meets {rows : AccountId → Prop} {w : Work ε α} (h : w.Within rows)
    (hmay : ∀ v row, rows row → may v row) (hlocked : ∀ row, rows row → v.HasLocked row) :
    w.Meets (Rules.ordered may) (fun _ _ _ => True) seen v := by
  -- No call gives a lock back, so the rows stay locked.
  have hmeets : w.Meets (Rules.ordered may) (fun _ v _ => ∀ row, rows row → v.HasLocked row)
      seen v :=
    Only.meets h hlocked (fun v c hlocked hc row hrow =>
      ⟨hmay v row (hc row hrow), Or.inl (hlocked row (hc row hrow))⟩)
      fun v l c r v' hlocked _ ha row hrow => ha.hasLocked (hlocked row hrow)
  exact hmeets.mono (.refl _) fun _ _ _ _ => trivial

end Work

/-- Work in a unit of its own, whatever it commits. -/
theorem Work.Meets.ordered_atomically [OfStoreError ε] {w : Work ε α}
    (h : w.Meets (Rules.ordered may) (fun _ _ _ => True) seen View.fresh) :
    w.atomically.Keeps (Rules.ordered may) History.Spotless ⟨seen, none⟩ none :=
  h.atomically_of_commits fun _ => trivial

/-! ## Transfers -/

namespace TransferOrder

variable {o : TransferOrder}

/-- A row of one of the two accounts of an order. -/
def Concerns (o : TransferOrder) (row : AccountId) : Prop := row = o.fromId ∨ row = o.toId

theorem writing_within : o.writing.Within o.Concerns := by
  have hfrom : o.Concerns o.fromId := Or.inl rfl
  have hto : o.Concerns o.toId := Or.inr rfl
  refine .ask (fun row hrow => ?_) fun _ => .ask (fun row hrow => ?_) fun _ =>
    .ask nofun fun _ => .ask nofun fun _ => .ask nofun fun _ => trivial
  · cases hrow
    exact hfrom
  · cases hrow
    exact hto

theorem moving_within (source destination : Account) :
    (o.moving source destination).Within o.Concerns :=
  .require (.require (.require (.require writing_within)))

/-- An attempt asks for no rows but those of its two accounts. -/
theorem attempt_within (o : TransferOrder) : o.attempt.Within o.Concerns := by
  have hlocking : ∀ first second next, o.Concerns first → o.Concerns second →
      (∀ a a', (next a a').Within o.Concerns) → (locking first second next).Within o.Concerns := by
    intro first second next hfirst hsecond hnext
    unfold locking
    refine Work.Only.bind trivial fun _ => Work.Only.ask (fun row hrow => ?_) fun a =>
      Work.Only.ask (fun row hrow => ?_) (hnext a)
    · cases hrow
      exact hfirst
    · cases hrow
      exact hsecond
  rw [attempt_eq]
  split
  · exact hlocking _ _ _ (Or.inl rfl) (Or.inr rfl) moving_within
  · exact hlocking _ _ _ (Or.inr rfl) (Or.inl rfl) fun a a' => moving_within a' a

/-- The two rows are locked in ascending order. -/
theorem locking_ordered {first second : Int} {next : Account → Account → Work TransferError Receipt}
    (hlt : first < second) (hrows : ∀ row, o.Concerns row → row = first ∨ row = second)
    (hmay : ∀ v row, row = first ∨ row = second → may v row)
    (hnext : ∀ a a', (next a a').Within o.Concerns) :
    (locking first second next).Meets (Rules.ordered may) (fun _ _ _ => True) seen
      View.fresh := by
  have hempty := View.not_hasLocked_of_empty (v := View.fresh) rfl
  show (Work.ask (.getForUpdate first) >>= _).Meets _ _ _ _
  refine .ask (fun row hrow => ?_) fun l u p r v _ ha => ?_
  · cases hrow
    exact ⟨hmay _ first (Or.inl rfl), Or.inr fun held hheld => absurd hheld (hempty held)⟩
  rcases View.answers_getForUpdate ha with ⟨-, rfl⟩ | ⟨a, -, rfl, rfl⟩
  · trivial
  have hfirst : ∀ held : Int, (View.fresh.lock l first).HasLocked held ↔ held = first := by
    intro held
    simp only [View.HasLocked, View.lock, View.fresh, Table.find?_insert, Table.find?_empty]
    split <;> simp_all
  refine .ask (fun row hrow => ?_) fun l' u p r v _ ha => ?_
  · cases hrow
    refine ⟨hmay _ second (Or.inr rfl), Or.inr fun held hheld => ?_⟩
    rw [(hfirst held).mp hheld]
    exact hlt
  rcases View.answers_getForUpdate ha with ⟨-, rfl⟩ | ⟨a', -, rfl, rfl⟩
  · trivial
  refine (hnext a a').meets (fun v row hrow => hmay v row (hrows row hrow)) fun row hrow => ?_
  rcases hrows row hrow with rfl | rfl
  · exact ha.hasLocked ((hfirst row).mpr rfl)
  · simp [View.HasLocked, View.lock]

theorem attempt_ordered (hmay : ∀ v row, o.Concerns row → may v row) :
    o.attempt.Meets (Rules.ordered may) (fun _ _ _ => True) seen View.fresh := by
  rw [attempt_eq]
  split
  · rename_i hle
    have hlt : o.fromId < o.toId := Int.lt_iff_le_and_ne.mpr ⟨hle, o.distinct⟩
    exact locking_ordered hlt (fun _ h => h) hmay moving_within
  · rename_i hnot
    have hlt : o.toId < o.fromId := Int.not_le.mp hnot
    exact locking_ordered hlt (fun _ h => h.symm) (fun v row h => hmay v row h.symm)
      fun a a' => moving_within a' a

end TransferOrder

theorem TransferRequest.execute_ordered (r : TransferRequest) (policy : RetryPolicy)
    (hmay : ∀ v row, row = r.fromId ∨ row = r.toId → may v row) :
    (r.execute policy).Keeps (Rules.ordered may) (fun _ _ => True) History.empty none := by
  refine execute_keeps_of_attempt policy fun o hasks _ => ?_
  rw [hasks.fromId, hasks.toId] at hmay
  exact (TransferOrder.attempt_ordered hmay).ordered_atomically

/-! ## Openings and reconciliations -/

/-- Only the row that the opening itself has staged is ever asked for. -/
theorem Accounts.openAccount_ordered (owner currency : String) (deposit : Amount)
    (hmay : ∀ v row, (v.staged.accounts.find? row).isSome → may v row) :
    (openAccount owner currency deposit).Keeps (Rules.ordered may) (fun _ _ => True)
      History.empty none := by
  have hwork : ∀ c, (openingWork owner c deposit).Meets (Rules.ordered may)
      (fun _ _ _ => True) [] View.fresh := by
    intro c
    rw [openingWork_eq]
    refine .ask (Rules.ordered_of_no_row rfl) fun l u p r v _ ha => ?_
    rcases View.answers_createAccount ha with ⟨rfl, -⟩ | ⟨a, -, rfl, rfl⟩
    · trivial
    show (funding a deposit).Meets _ _ _ _
    unfold funding
    split
    · trivial
    refine .ask (fun row hrow => ?_) fun l u p r v _ ha => ?_
    · cases hrow
      refine ⟨hmay _ a.id (by simp [View.stageAccount]), Or.inr fun held hheld => ?_⟩
      exact absurd hheld (View.not_hasLocked_of_empty rfl held)
    cases r with
    | error e => trivial
    | ok funded =>
      refine .ask (Rules.ordered_of_no_row rfl) fun l u p r v _ ha => ?_
      cases r <;> trivial
  exact openAccount_keeps_of_work fun c _ => (hwork c).ordered_atomically

/-- A reconciliation asks for one row. -/
theorem Inquiries.reconcile_ordered (policy : RetryPolicy) (id : AccountId)
    (hmay : ∀ v, may v id) :
    (reconcile policy id).Keeps (Rules.ordered may) (fun _ _ => True) History.empty none := by
  have hwork : ∀ seen, (reconcileOnce id).Meets (Rules.ordered may) (fun _ _ _ => True) seen
      View.fresh := by
    intro seen
    refine .ask (fun row hrow => ?_) fun l u p r v _ ha => ?_
    · cases hrow
      refine ⟨hmay _, Or.inr fun held hheld => ?_⟩
      exact absurd hheld (View.not_hasLocked_of_empty rfl held)
    cases r with
    | error e => trivial
    | ok account =>
      refine .ask (Rules.ordered_of_no_row rfl) fun l u p r v _ ha => ?_
      cases r <;> trivial
  exact reconcile_keeps_of_once policy fun seen => (hwork seen).ordered_atomically

namespace Operation

/-- The accounts named by an operation for whose rows it may have to wait. -/
def locks : Operation → List AccountId
  | transfer request _ => [request.fromId, request.toId]
  | reconcile id => [id]
  | _ => []

/-- The operation opens an account. -/
def Opens : Operation → Prop
  | openAccount .. => True
  | _ => False

/-- The rows for which the task of an operation may ask: those of accounts that it names and, while
it opens an account, the one that it has staged. -/
def MayAsk (op : Operation) (v : View) (row : AccountId) : Prop :=
  row ∈ op.locks ∨ (op.Opens ∧ (v.staged.accounts.find? row).isSome)

/-- Every operation on offer keeps the order, and asks only for rows for which it may ask. -/
theorem process_ordered {op : Operation} (hoffered : op.IsOffered) (policy : RetryPolicy) :
    (op.process policy).Keeps (Rules.ordered op.MayAsk) (fun _ _ => True) History.empty none := by
  refine process_keeps hoffered policy (Rules.ordered_allowReading _) ?_ ?_ ?_
  · rintro owner currency deposit rfl
    exact Accounts.openAccount_ordered owner currency deposit
      fun v row hstaged => Or.inr ⟨trivial, hstaged⟩
  · rintro request limit rfl
    exact request.execute_ordered policy fun v row hrow => Or.inl (by simpa [locks] using hrow)
  · rintro id rfl
    exact Inquiries.reconcile_ordered policy id fun v => Or.inl (by simp [locks])

end Operation

/-- Everything on offer keeps the order. -/
theorem Rules.ordered_bind : (Rules.ordered fun _ _ => True).Bind := fun _ policy hoffered =>
  (Operation.process_ordered hoffered policy).mono (ordered_lenient fun _ _ _ => trivial)
    fun _ _ h => h

end FundsLedger
