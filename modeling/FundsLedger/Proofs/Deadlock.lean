import FundsLedger.Proofs.LockOrder
import FundsLedger.Proofs.Transfer.Linearizable
import Mathlib.Logic.Relation

/-!
Deadlock freedom. A task that waits for a row holds only rows below it, so along the relation of
waiting for one another the awaited rows ascend: there is no cycle, and whoever waits waits in the
end for a task that goes on. No task keeps a lock while it sleeps or after it has ended, and each
waits only for accounts that its own call names.
-/

namespace FundsLedger

open Ledger

/-- The task is not in the middle of its work: it sleeps, or it only has to give its answer. -/
def Task.Rests (t : Task) : Prop :=
  match t.process with
  | .sleep .. | .done _ => True
  | _ => False

namespace Service

variable {s : Service} {id id' : TaskId} {row row' : Int} {actions : List Action}
variable {may : View → AccountId → Prop} {post : History → Answer → Prop} {h : History}

/-- The unit of work of the task holds the lock on the row. -/
def Holds (s : Service) (id : TaskId) (row : AccountId) : Prop :=
  ∃ t u, s.tasks.find? id = some t ∧ t.unit = some u ∧ s.ledger.Holds u row

/-- The unit of work of the task waits for the lock on the row. -/
def Waits (s : Service) (id : TaskId) (row : AccountId) : Prop :=
  ∃ t u, s.tasks.find? id = some t ∧ t.unit = some u ∧ s.ledger.Waits u row

/-- The first task waits for a row that the second one holds. -/
def WaitsFor (s : Service) (id id' : TaskId) : Prop := ∃ row, s.Waits id row ∧ s.Holds id' row

/-- Nobody is in anybody's way for good. -/
structure DeadlockFree (s : Service) : Prop where
  ascending : ∀ id row row', s.Waits id row → s.Holds id row' → row' < row
  acyclic : ∀ id, ¬ Relation.TransGen s.WaitsFor id id
  progress : ∀ id row, s.Waits id row → ∃ id', Relation.TransGen s.WaitsFor id id' ∧
    (∃ row', s.Holds id' row') ∧ ∀ row', ¬ s.Waits id' row'
  awake : ∀ u row, s.ledger.Holds u row →
    ∃ id t, s.tasks.find? id = some t ∧ t.unit = some u ∧ ¬ t.Rests

/-! ## What one task does -/

/-- A task that waits may ask for the row and holds only rows below it. -/
theorem Follows.waits (hf : s.Follows (Rules.ordered may) post id h) (hs : s.Lawful)
    (hw : s.Waits id row) :
    (∃ v u c, v.Fits s.ledger u (some c) ∧ c.row? = some row ∧ may v row) ∧
      ∀ row', s.Holds id row' → row' < row := by
  obtain ⟨t, view, ht, ha, hk⟩ := hf
  obtain ⟨t', u, ht', hunit, hmem, hnot⟩ := hw
  rw [ht] at ht'
  cases ht'
  generalize hp : t.process = p at ha hk
  rw [hunit] at ha
  cases ha with
  | @busy u v q p fits pending =>
    -- The row is not held, so it is the one that the call of the unit of work needs.
    rcases hs.ledger.orderly.served u row hmem with hholds | ⟨c, hc, hrow⟩
    · exact absurd hholds hnot
    have hq : q = some c := by
      rw [fits.unit_eq] at hc
      exact hc
    subst hq
    obtain ⟨next, rfl⟩ : ∃ next, p = .ask (.call c) next := by
      have hcall : p.call? = some c := (pending.resolve_left nofun).symm
      unfold Process.call? at hcall
      split at hcall
      · cases hcall
        exact ⟨_, rfl⟩
      · cases hcall
    obtain ⟨-, v', hv, hcalls, -⟩ := hk
    cases hv
    obtain ⟨hmay, hlocked | hbelow⟩ := hcalls row hrow
    · obtain ⟨a, ha⟩ := Option.isSome_iff_exists.mp hlocked
      exact absurd (fits.held row a ha) hnot
    refine ⟨⟨v, u, c, fits, hrow, hmay⟩, fun row' hheld => ?_⟩
    obtain ⟨t', u', ht', hunit', hholds⟩ := hheld
    rw [ht] at ht'
    cases ht'
    rw [hunit] at hunit'
    cases hunit'
    rcases fits.asked row' hholds.mem with hlocked | ⟨d, hd, hrow'⟩
    · exact hbelow row' hlocked
    · cases hd
      rw [hrow] at hrow'
      cases hrow'
      exact absurd hholds hnot

/-- A task that holds a row is in the middle of its work. -/
theorem Follows.not_rests {K : Rules} {t : Task} {u : UnitId} (hf : s.Follows K post id h)
    (ht : s.tasks.find? id = some t) (hu : t.unit = some u) : ¬ t.Rests := by
  obtain ⟨t', view, ht', ha, hk⟩ := hf
  rw [ht] at ht'
  cases ht'
  intro hrests
  have hview : view = none := by
    unfold Task.Rests at hrests
    split at hrests
    · rename_i hp
      rw [hp] at hk
      exact hk.2.1
    · rename_i hp
      rw [hp] at hk
      exact hk.1
    · exact hrests.elim
  subst hview
  rw [hu] at ha
  cases ha

/-! ## Waiting for one another -/

section Chains

variable (hascending : ∀ id, ∀ row row' : Int, s.Waits id row → s.Holds id row' → row' < row)

include hascending

/-- Along a chain of waiting tasks the rows ascend. -/
theorem chain_ascends (hchain : Relation.TransGen s.WaitsFor id id') :
    ∃ row row', s.Waits id row ∧ s.Holds id' row' ∧ row ≤ row' := by
  induction hchain with
  | single hstep =>
    obtain ⟨row, hwaits, hholds⟩ := hstep
    exact ⟨row, row, hwaits, hholds, Int.le_refl _⟩
  | tail hchain hstep ih =>
    obtain ⟨row, row', hwaits, hholds, hle⟩ := ih
    obtain ⟨row'', hwaits', hholds'⟩ := hstep
    have hlt := hascending _ row'' row' hwaits' hholds
    exact ⟨row, row'', hwaits, hholds', Int.le_trans hle (Int.le_of_lt hlt)⟩

theorem no_cycle (id : TaskId) : ¬ Relation.TransGen s.WaitsFor id id := by
  intro hcycle
  obtain ⟨row, row', hwaits, hholds, hle⟩ := chain_ascends hascending hcycle
  have := hascending id row row' hwaits hholds
  exact absurd hle (Int.not_le.mpr this)

/-- Whoever waits waits in the end for a task that does not: the rows ascend, and there are only so
many that anybody asks for. -/
theorem chain_ends (hheld : ∀ id row, s.Waits id row → ∃ id', s.Holds id' row)
    {bound : Int} (hbound : ∀ id, ∀ row : Int, s.Waits id row → row ≤ bound) (n : Nat)
    (hw : s.Waits id row) (hn : bound - row < n) :
    ∃ id', Relation.TransGen s.WaitsFor id id' ∧ (∃ row', s.Holds id' row') ∧
      ∀ row', ¬ s.Waits id' row' := by
  induction n generalizing id row with
  | zero =>
    have := hbound id row hw
    omega
  | succ n ih =>
    obtain ⟨holder, hholds⟩ := hheld id row hw
    have hstep : s.WaitsFor id holder := ⟨row, hw, hholds⟩
    by_cases hwaits : ∃ row', s.Waits holder row'
    · obtain ⟨row', hw'⟩ := hwaits
      have hlt := hascending holder row' row hw' hholds
      obtain ⟨last, hchain, hlast⟩ := ih hw' (by push_cast at hn; omega)
      exact ⟨last, .head hstep hchain, hlast⟩
    · exact ⟨holder, .single hstep, ⟨row, hholds⟩, fun row' hw' => hwaits ⟨row', hw'⟩⟩

end Chains

/-! ## Runs of clients -/

/-- Whoever waits for a row, the unit of work of a task holds it. -/
theorem Manned.exists_holder (hm : s.Manned) (hs : s.Lawful) (hw : s.Waits id row) :
    ∃ id', s.Holds id' row := by
  obtain ⟨t, u, -, -, hmem, -⟩ := hw
  obtain ⟨holder, hholds⟩ := Ledger.exists_holder hmem
  obtain ⟨id', t', ht', hunit'⟩ := hm holder (hs.ledger.orderly.opened holder row hholds.mem)
  exact ⟨id', t', holder, ht', hunit', hholds⟩

theorem exists_bound (qs : List LockRequest) : ∃ bound : Int, ∀ q ∈ qs, q.row ≤ bound := by
  induction qs with
  | nil => exact ⟨0, nofun⟩
  | cons q qs ih =>
    obtain ⟨bound, hbound⟩ := ih
    refine ⟨max q.row bound, fun q' hq' => ?_⟩
    rcases List.mem_cons.mp hq' with rfl | hq'
    · exact Int.le_max_left _ _
    · exact Int.le_trans (hbound q' hq') (Int.le_max_right _ _)

/-- Where everybody keeps the order and nobody but tasks has units of work, there is no deadlock. -/
theorem Disciplined.deadlockFree (hd : s.Disciplined (Rules.ordered fun _ _ => True))
    (hm : s.Manned) (hs : s.Lawful) : s.DeadlockFree := by
  have hascending : ∀ id, ∀ row row' : Int, s.Waits id row → s.Holds id row' → row' < row := by
    intro id row row' hw hholds
    -- Whoever waits is there, and keeps to the order.
    have hlive : (s.tasks.find? id).isSome := by
      obtain ⟨t, u, ht, -⟩ := hw
      simp [ht]
    obtain ⟨h, hf⟩ := hd id hlive
    exact (hf.waits hs hw).2 row' hholds
  refine ⟨hascending, no_cycle hascending, fun id row hw => ?_, fun u row hholds => ?_⟩
  · obtain ⟨bound, hbound⟩ := exists_bound s.ledger.requests
    have hrows : ∀ id, ∀ row : Int, s.Waits id row → row ≤ bound := by
      rintro id row ⟨t, u, -, -, hmem, -⟩
      exact hbound _ hmem
    exact chain_ends hascending (fun _ _ hw => hm.exists_holder hs hw) hrows
      (bound - row + 1).toNat hw (by have := hrows id row hw; omega)
  · obtain ⟨id, t, ht, hunit⟩ := hm u (hs.ledger.orderly.opened u row hholds.mem)
    obtain ⟨h, hf⟩ := hd id (by simp [ht])
    exact ⟨id, t, ht, hunit, hf.not_rests ht hunit⟩

/-- A task waits only for rows of accounts that its operation names; an opening would have to draw
an identifier a second time to wait at all. -/
theorem Follows.waits_named {op : Operation} (hf : s.Follows (Rules.ordered op.MayAsk) post id h)
    (hs : s.Lawful) (hw : s.Waits id row) :
    row ∈ op.locks ∨ (op.Opens ∧ ¬ s.ledger.drawn.InRange) := by
  obtain ⟨⟨v, u, c, fits, hrow, hmay⟩, -⟩ := hf.waits hs hw
  refine hmay.imp (fun h => h) fun ⟨hopens, hstaged⟩ => ⟨hopens, fun hr => ?_⟩
  have hunstaged := (hs.ledger.sound hr).awaited u c row (by rw [fits.unit_eq]) hrow
  have hunit : (s.ledger.unit u).accounts = v.staged.accounts := by
    rw [fits.unit_eq]
  rw [hunit] at hunstaged
  simp [hunstaged] at hstaged

/-- In every run of clients there is no deadlock, every task waits only for accounts that its call
names, an opening never waits before the counters leave their range, and a task that has ended asks
for nothing any more. -/
theorem clients_deadlockFree (settings : Settings) (actions : List Action)
    (hclient : ∀ a ∈ actions, a.IsClient) :
    ((start settings).run actions).DeadlockFree ∧
    ∀ pre op post t, actions = pre ++ .submit op :: post →
      ((start settings).run pre).submit op = t →
      (∀ row, (t.1.run post).Waits t.2 row →
        row ∈ op.locks ∨ (op.Opens ∧ ¬ (t.1.run post).ledger.drawn.InRange)) ∧
      ((t.1.run post).tasks.find? t.2 = none → ∀ u, t.1.Had t.2 post u → ∀ row,
        (⟨u, row⟩ : LockRequest) ∉ (t.1.run post).ledger.requests) := by
  have hlawful := (Lawful.start settings).run actions
  obtain ⟨hdisciplined, -, hmanned⟩ := clients_run (D := fun _ => True) (fun _ _ => trivial)
    Rules.ordered_bind trivial (fun _ _ _ _ _ _ _ _ => trivial) settings actions hclient trivial
  refine ⟨hdisciplined.deadlockFree hmanned hlawful, ?_⟩
  rintro pre op post t rfl rfl
  have hs := ((Lawful.start settings).run pre).submit op
  have hkeeps := Operation.process_ordered (hclient (.submit op) (by simp))
    ((start settings).run pre).settings.policy
  have hcame := (Follows.submit hkeeps).came hs fun pre rest (_ : post = pre ++ rest) => trivial
  refine ⟨fun row hw => ?_, fun hgone u hu row => ?_⟩
  · cases hcame with
    | following chronicle follows freed => exact follows.waits_named (hs.run post) hw
    | past past freed =>
      obtain ⟨t, u, ht, -⟩ := hw
      rw [past.absent] at ht
      cases ht
  · exact (hcame.released hgone hu).not_mem (hs.run post).ledger.orderly row

/-- Two payments between two accounts, one in each direction: the first holds the row for which the
second waits. -/
def reciprocal : List Action :=
  openings ++ .submit (.transfer payment .usual) :: turns 3 3 ++
    .submit (.transfer ⟨2, 1, ⟨5, by decide, by decide⟩, "USD"⟩ .usual) :: turns 4 3

/-- The second of two reciprocal payments waits for a row that it names, and in the end for a task
that goes on. -/
theorem reciprocal_goes_on :
    (∀ a ∈ reciprocal, a.IsClient) ∧
    ((start ⟨RetryPolicy.once, none⟩).run reciprocal).Waits 4 1 ∧
    ∃ id', Relation.TransGen ((start ⟨RetryPolicy.once, none⟩).run reciprocal).WaitsFor 4 id' ∧
      ∀ row, ¬ ((start ⟨RetryPolicy.once, none⟩).run reciprocal).Waits id' row := by
  have hclient : ∀ a ∈ reciprocal, a.IsClient := by decide
  have hwaits : ((start ⟨RetryPolicy.once, none⟩).run reciprocal).Waits 4 1 :=
    ⟨_, _, rfl, rfl, by decide⟩
  obtain ⟨hfree, -⟩ := clients_deadlockFree ⟨RetryPolicy.once, none⟩ reciprocal hclient
  obtain ⟨id', hchain, -, hgoes⟩ := hfree.progress 4 1 hwaits
  exact ⟨hclient, hwaits, id', hchain, hgoes⟩

end Service
end FundsLedger
