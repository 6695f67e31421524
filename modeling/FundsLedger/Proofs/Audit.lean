import FundsLedger.Proofs.DoubleEntry

/-!
The audit of a run. An auditor who knows which operation each task has been submitted for, and
watches the accounts that come into the books in its turns, has the list of all openings. After
every step of every run of clients the books are in double entry with that list.
-/

namespace FundsLedger

open Ledger

/-- The accounts that are in the second books and not in the first. -/
def Books.created (before after : Books) : List AccountId :=
  after.accounts.keys.filter fun id => !before.accounts.contains id

/-- A service under audit: the operations of its tasks, and the openings so far. -/
structure Audit where
  service : Service
  asked : Table Operation
  opened : List Opening

namespace Audit

/-- The audit of a service that has not been asked for anything. -/
def start (settings : Settings) : Audit := ⟨.start settings, .empty, []⟩

/-- The accounts opened in a step: those that are created in a turn of a task that opens one. -/
def openings (t : Audit) (action : Service.Action) : List Opening :=
  match action with
  | .advance id =>
    match t.asked.find? id with
    | some (.openAccount _ currency deposit) =>
      (t.service.ledger.books.created (t.service.step action).ledger.books).map fun account =>
        ⟨account, currency, deposit⟩
    | _ => []
  | _ => []

/-- The operations of all tasks after a step. -/
def asking (t : Audit) : Service.Action → Table Operation
  | .submit op => t.asked.insert (t.service.submit op).2 op
  | _ => t.asked

/-- The audit of one step. -/
def step (t : Audit) (action : Service.Action) : Audit where
  service := t.service.step action
  asked := t.asking action
  opened := t.opened ++ t.openings action

/-- The audit of a sequence of steps. -/
def run (t : Audit) (actions : List Service.Action) : Audit := actions.foldl step t

variable {t : Audit} {action : Service.Action} {actions : List Service.Action} {id : Int}

/-- Nothing is done otherwise because of an audit. -/
theorem run_service (t : Audit) (actions : List Service.Action) :
    (t.run actions).service = t.service.run actions := by
  induction actions generalizing t with
  | nil => rfl
  | cons action actions ih => exact ih (t.step action)

/-! ## What a step creates -/

theorem created_eq_nil (b b' : Books) (h : b'.accounts = b.accounts) : b.created b' = [] := by
  rw [Books.created, h, List.filter_eq_nil_iff]
  intro id hid
  simp [Table.contains, Table.find?_isSome_of_mem_keys hid]

/-- An opening creates its account and no other. -/
theorem created_opened {owner currency : String} {deposit : Amount} {a : Account} {b b' : Books}
    (h : Opened owner currency deposit a b b') : b.created b' = [a.id] := by
  have hperm := (Table.keys_insert_of_new a h.new).filter fun id => !b.accounts.contains id
  have hnone : b.accounts.keys.filter (fun id => !b.accounts.contains id) = [] :=
    created_eq_nil b b rfl
  rw [List.filter_cons_of_pos (by simp [Table.contains, h.new]), hnone] at hperm
  rw [Books.created, h.accounts]
  exact List.perm_singleton.mp hperm

/-! ## Everybody commits what the auditor expects -/

/-- How a task may change the books: as the operation does for which it has been submitted. -/
def records (t : Audit) (id : TaskId) (before after : Books) : Prop :=
  ∃ op, t.asked.find? id = some op ∧ op.Records before after

/-- The auditor knows the operations of all tasks, and the books are as they should be. -/
structure Approved (t : Audit) : Prop where
  governed : t.service.Governed fun id => Rules.recording (t.records id)
  doubleEntry : t.service.ledger.books.DoubleEntry t.opened

theorem Approved.start (settings : Settings) : (Audit.start settings).Approved where
  governed id hid := by simp [Audit.start, Service.start] at hid
  doubleEntry := .empty

/-- A submission concerns no task but the new one. -/
theorem records_step (hs : t.service.Lawful) (hid : (t.service.tasks.find? id).isSome) :
    (t.step action).records id = t.records id := by
  cases action with
  | submit op =>
    have hne : id ≠ (t.service.submit op).2 := by
      have := hs.numbered id hid
      show id ≠ t.service.submitted + 1
      omega
    funext before after
    simp only [records, step, asking, Table.find?_insert, if_neg hne]
  | _ => rfl

/-- A commit of a task that keeps its rules is entered as the opening that it is, or is a
transfer. -/
theorem Approved.doubleEntry_of_records (h : t.Approved)
    (hrecords : t.records id t.service.ledger.books
      (t.service.step (.advance id)).ledger.books) :
    (t.service.step (.advance id)).ledger.books.DoubleEntry
      (t.opened ++ t.openings (.advance id) : List Opening) := by
  obtain ⟨op, hop, hrecords⟩ := hrecords
  cases op with
  | openAccount owner currency deposit =>
    obtain ⟨a, hopened⟩ := hrecords
    simp only [openings, hop, created_opened hopened]
    have hentry := h.doubleEntry.opening hopened
    rw [← Multiset.singleton_add, add_comm] at hentry
    exact hentry
  | transfer request limit =>
    obtain ⟨k, receipt, hnew, hserial⟩ := hrecords
    simp only [openings, hop, List.append_nil]
    exact h.doubleEntry.transfer hserial hnew
  | _ => exact hrecords.elim

/-- Whatever leaves the books as they are is no opening. -/
theorem openings_of_books (h : (t.service.step action).ledger.books = t.service.ledger.books) :
    t.openings action = [] := by
  unfold openings
  split
  · split
    · rw [h, created_eq_nil _ _ rfl]
      rfl
    · rfl
  · rfl

/-- Every step of clients is approved. -/
theorem Approved.step (h : t.Approved) (hs : t.service.Lawful)
    (hr : t.service.ledger.drawn.InRange) (ha : action.IsClient) : (t.step action).Approved where
  governed := by
    refine h.governed.step hs (fun _ => hr) (fun id hid => ?_) fun op hop => ?_
    · rw [records_step hs hid]
    · subst hop
      refine (Operation.process_records ha _).mono
        (Rules.recording_lenient fun before after hrecords => ⟨op, ?_, hrecords⟩) fun _ _ h => h
      simp [Audit.step, asking]
  doubleEntry := by
    show (t.service.step action).ledger.books.DoubleEntry (t.opened ++ t.openings action : List _)
    rcases h.governed.books hs hr ha with hbooks | ⟨id, rfl, hrecords⟩
    · rw [openings_of_books hbooks, List.append_nil, hbooks]
      exact h.doubleEntry
    · exact h.doubleEntry_of_records hrecords

/-- Every run of clients is approved: induction on its steps. -/
theorem Approved.run (h : t.Approved) (hs : t.service.Lawful)
    (hclient : ∀ action ∈ actions, action.IsClient)
    (hr : (t.run actions).service.ledger.drawn.InRange) : (t.run actions).Approved := by
  induction actions generalizing t with
  | nil => exact h
  | cons action actions ih =>
    have hup := hs.upTo_run (action :: actions)
    rw [← run_service] at hup
    have hstep := h.step hs (hr.of_upTo hup) (hclient action List.mem_cons_self)
    exact ih hstep (hs.step action) (fun a ha => hclient a (List.mem_cons_of_mem _ ha)) hr

end Audit

namespace Service

/-- After every run of clients the committed entries are the deposits of the openings in the run and
the two halves of each committed transfer, every transfer is sound, and the balances in each
currency add up to the deposits in it. -/
theorem clients_doubleEntry (settings : Settings) (actions : List Action)
    (hclient : ∀ a ∈ actions, a.IsClient)
    (hr : ((start settings).run actions).ledger.drawn.InRange) :
    ((start settings).run actions).ledger.books.DoubleEntry
      ((Audit.start settings).run actions).opened := by
  have hservice : ((Audit.start settings).run actions).service = (start settings).run actions :=
    Audit.run_service _ actions
  have happroved := (Audit.Approved.start settings).run (Lawful.start settings) hclient
    (by rw [hservice]; exact hr)
  rw [← hservice]
  exact happroved.doubleEntry

/-- Two owners open accounts, and the first one pays the second one. -/
def paid : List Action := openings ++ .submit (.transfer payment .usual) :: turns 3 12

set_option maxRecDepth 8000 in
/-- After the payment the books are in double entry with the two openings, and there are still 130
cents. -/
theorem payment_doubleEntry :
    (∀ a ∈ paid, a.IsClient) ∧
    ((start ⟨RetryPolicy.once, none⟩).run paid).ledger.drawn.InRange ∧
    (((start ⟨RetryPolicy.once, none⟩).run paid).ledger.books.transfers.find? 1).isSome ∧
    ((start ⟨RetryPolicy.once, none⟩).run paid).ledger.books.DoubleEntry
      ([⟨1, "USD", ⟨100, by decide, by decide⟩⟩, ⟨2, "USD", ⟨30, by decide, by decide⟩⟩] :
        List Opening) ∧
    held ⟨"USD", by decide⟩ ((start ⟨RetryPolicy.once, none⟩).run paid).ledger.books.accounts.bag =
      130 := by
  have hclient : ∀ a ∈ paid, a.IsClient := by decide
  have hrange : ((start ⟨RetryPolicy.once, none⟩).run paid).ledger.drawn.InRange := by decide
  have hopened : ((Audit.start ⟨RetryPolicy.once, none⟩).run paid).opened =
      [⟨1, "USD", ⟨100, by decide, by decide⟩⟩, ⟨2, "USD", ⟨30, by decide, by decide⟩⟩] := by
    decide +kernel
  have hdouble := clients_doubleEntry ⟨RetryPolicy.once, none⟩ paid hclient hrange
  rw [hopened] at hdouble
  refine ⟨hclient, hrange, rfl, hdouble, ?_⟩
  rw [hdouble.conserved]
  rfl

end Service
end FundsLedger
