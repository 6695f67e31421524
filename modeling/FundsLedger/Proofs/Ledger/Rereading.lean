import FundsLedger.Proofs.Ledger.Answers
import FundsLedger.Proofs.Ledger.Runs
import FundsLedger.Proofs.Movements

/-!
Reading before a commit and after it. A unit of work reads what it has staged over what is
committed: accounts by putting one table over another, listings by ordering the rows of both, single
rows by looking in one place after the other. A commit merges the same rows into the books. What the
unit of work reads just before it commits is what whoever begins just after it reads.
-/

namespace FundsLedger

/-! ## Checked sums -/

/-- A checked sum that succeeds is exact. -/
theorem Amount.sum?_units {start sum : Amount} {amounts : List Amount}
    (h : Amount.sum? start amounts = some sum) :
    sum.units = start.units + (amounts.map (·.units)).sum := by
  induction amounts generalizing start with
  | nil =>
    cases h
    simp
  | cons a rest ih =>
    obtain ⟨next, hnext, hrest⟩ := Option.bind_eq_some_iff.mp h
    rw [ih hrest, Amount.add?_eq_some_iff.mp hnext, List.map_cons, List.sum_cons, Int.add_assoc]

/-- The order in which amounts are added decides whether the sum succeeds, but not which one it
is. -/
theorem Amount.sum?_perm {start sum sum' : Amount} {amounts amounts' : List Amount}
    (hperm : amounts.Perm amounts') (h : Amount.sum? start amounts = some sum)
    (h' : Amount.sum? start amounts' = some sum') : sum = sum' := by
  apply Amount.ext
  rw [Amount.sum?_units h, Amount.sum?_units h', (hperm.map _).sum_eq]

/-! ## Tables -/

/-- Rows that pass a test can be chosen before or after one table is put over another, if a row
passes exactly when the row that it covers does. -/
theorem Table.filter_overlay {α : Type} {t s : Table α} {test : α → Bool}
    (h : ∀ key r r', s.find? key = some r → t.find? key = some r' → test r = test r') :
    (t.overlay s).filter test = (t.filter test).overlay (s.filter test) := by
  apply ext_find?
  intro key
  simp only [find?_filter, find?_overlay]
  cases hs : s.find? key with
  | none => simp
  | some r =>
    cases ht : t.find? key with
    | none => simp
    | some r' =>
      have htest := h key r r' hs ht
      by_cases hr : test r
      · simp [Option.filter_some, hr]
      · simp [Option.filter_some, hr, ← htest]

theorem Table.overlay_empty {α : Type} (t : Table α) : t.overlay Table.empty = t := rfl

theorem Table.filter_empty {α : Type} (test : α → Bool) :
    (Table.empty : Table α).filter test = Table.empty := rfl

/-- The calls whose answers a commit carries over: they show rows, and no sum that might leave the
range in one order of the rows and not in another. -/
def Call.Shows : Call → Prop
  | getAccount _ | listByOwner .. | getEntry _ | listEntries .. | getTransfer _
  | listTransfers .. => True
  | createAccount .. | getForUpdate _ | addBalance .. | appendEntry .. | entrySum _
  | appendTransfer .. => False

theorem Call.Shows.reads {c : Call} (h : c.Shows) : c.Reads := by
  cases c <;> simp_all [Shows, Reads]

namespace Ledger

variable {l l' : Ledger} {u : UnitId} {w : UnitOfWork} {c : Call}

/-! ## What a fresh unit of work sees in the published books -/

theorem visible?_publish (w : UnitOfWork) (b : Books) (id : AccountId) :
    UnitOfWork.fresh.visible? (w.publish b) id = w.visible? b id := by
  simp [UnitOfWork.visible?, UnitOfWork.publish, UnitOfWork.fresh]

namespace Sound

theorem entry?_publish (h : l.Sound) (hw : l.unit u = w) (id : EntryId) :
    UnitOfWork.fresh.entry? (w.publish l.books) id = w.entry? l.books id := by
  have hasc := h.entries.ascending u
  rw [hw] at hasc
  exact Table.find?_foldl_insertById Entry.id l.books.entries hasc id

theorem transfer?_publish (h : l.Sound) (hw : l.unit u = w) (id : TransferId) :
    UnitOfWork.fresh.transfer? (w.publish l.books) id = w.transfer? l.books id := by
  have hasc := h.transfers.ascending u
  rw [hw] at hasc
  exact Table.find?_foldl_insertById Transfer.id l.books.transfers hasc id

/-- A staged row never changes the owner of the account. -/
theorem accountsOf_publish (h : l.Sound) (hw : l.unit u = w) (owner : String) :
    UnitOfWork.fresh.accountsOf (w.publish l.books) owner = w.accountsOf l.books owner := by
  have howner : ∀ id a a', w.accounts.find? id = some a →
      l.books.accounts.find? id = some a' → a.owner = a'.owner := by
    intro id a a' ha ha'
    rcases h.owned u id a (by rwa [hw]) with hnew | hcovers
    · rw [hnew.uncommitted] at ha'
      cases ha'
    · obtain ⟨b, hb, hsame⟩ := hcovers.committed
      rw [hb] at ha'
      cases ha'
      exact hsame.owner
  show (((l.books.accounts.overlay w.accounts).filter (·.owner = owner)).overlay
    (Table.empty.filter (·.owner = owner))).values = _
  rw [Table.filter_empty, Table.overlay_empty, Table.filter_overlay fun id a a' ha ha' => by
    rw [howner id a a' ha ha']]
  rfl

theorem entriesOf_eq_publish (h : l.Sound) (hw : l.unit u = w) (id : AccountId) :
    w.entriesOf l.books id = (w.publish l.books).entriesOf id := by
  have hlisted := h.entries.orderById_publish u (·.accountId = id)
  rwa [hw] at hlisted

theorem transfersBetween_eq_publish (h : l.Sound) (hw : l.unit u = w) (fromId toId : AccountId) :
    w.transfersBetween l.books fromId toId = (w.publish l.books).transfersBetween fromId toId := by
  have hlisted := h.transfers.orderById_publish u fun t => t.fromId = fromId ∨ t.toId = toId
  rwa [hw] at hlisted

/-- The amounts on an account are the same before a commit and after it, but not in one order. -/
theorem entriesOf_publish_perm (h : l.Sound) (hw : l.unit u = w) (id : AccountId) :
    ((w.publish l.books).entriesOf id).Perm
      (l.books.entriesOf id ++ w.entries.filter (·.accountId = id)) := by
  rw [← h.entriesOf_eq_publish hw]
  exact orderById_perm _ _

theorem entrySum?_publish (h : l.Sound) (hw : l.unit u = w) {id : AccountId} {sum sum' : Amount}
    (hsum : w.entrySum? l.books id = some sum)
    (hsum' : UnitOfWork.fresh.entrySum? (w.publish l.books) id = some sum') : sum = sum' := by
  refine Amount.sum?_perm ?_ hsum hsum'
  rw [← List.map_append]
  refine ((h.entriesOf_publish_perm hw id).symm.map (·.amount)).trans (.of_eq ?_)
  exact (List.append_nil _).symm

/-- A call that shows rows is answered alike before a commit and after it. -/
theorem perform_publish (h : l.Sound) (h' : l'.Sound) (hw : l.unit u = w)
    (hbooks : l'.books = w.publish l.books) (hc : c.Shows) :
    (l.perform w c).result = (l'.perform UnitOfWork.fresh c).result := by
  cases c <;> simp only [Call.Shows] at hc
  case getAccount id =>
    simp only [perform, hbooks, visible?_publish]
    split <;> rfl
  case listByOwner owner page => simp only [perform, hbooks, h.accountsOf_publish hw]
  case getEntry id => simp only [perform, hbooks, h.entry?_publish hw]
  case listEntries id page =>
    simp only [perform]
    rw [UnitOfWork.fresh_entriesOf (h'.entries.table_keyed.values_ascending.filter _), hbooks,
      h.entriesOf_eq_publish hw]
  case getTransfer id => simp only [perform, hbooks, h.transfer?_publish hw]
  case listTransfers fromId toId page =>
    simp only [perform]
    rw [UnitOfWork.fresh_transfersBetween (h'.transfers.table_keyed.values_ascending.filter _),
      hbooks, h.transfersBetween_eq_publish hw]

end Sound

/-! ## Steps -/

/-- A call that only reads is answered at once, and the ledger stays as it is. -/
theorem step_reads (isOpen : l.units.find? u = some w) (idle : w.pending = none) (hc : c.Reads) :
    l.step (.call u c) = (l, .answered u ⟨c, (l.perform w c).result⟩) := by
  obtain ⟨hdrawn, hunit⟩ := l.perform_reads w hc
  have hrefusal : l.refusal? w c = none := by
    cases c <;> simp only [Call.Reads] at hc <;> rfl
  have hself : ({ w with pending := none } : UnitOfWork) = w := by rw [← idle]
  have hfinish : l.finish u w c = (l, .answered (l.perform w c).result) := by
    simp only [finish, hdrawn, hunit, hself, Table.insert_self isOpen]
  simp only [step, call?, isOpen, idle, Option.isSome_none, Bool.false_eq_true, if_false, hrefusal,
    Call.row?_of_reads hc, hfinish]
  rfl

/-- A commit that succeeds is that of an open unit of work, and publishes what it has staged. -/
theorem publishes_of_step_commit (h : (l.step (.commit u)).2 = .ended u (.ok ())) :
    ∃ w, l.units.find? u = some w ∧ w.pending = none ∧
      (l.step (.commit u)).1.books = w.publish l.books ∧
      (l.step (.commit u)).1.drawn = l.drawn := by
  simp only [step] at h ⊢
  split at h
  · rename_i l' r hcommit
    obtain ⟨w, isOpen, idle, heq⟩ := commit?_eq_some hcommit
    refine ⟨w, isOpen, idle, ?_⟩
    have hcommitted := l.commitUnit_committed u w
    rw [← heq] at hcommitted
    cases hcommitted with
    | failed e conflicts => cases h
    | published unique => exact ⟨rfl, rfl⟩
  · cases h

/-- What a unit of work reads just before its commit is what a fresh one reads just after it: the
same account, entry or transfer, the same page of every listing, and the same sum of entries if both
sums stay in range. -/
theorem reread_after_commit (hl : l.Reachable) (hr : l.drawn.InRange)
    (hok : (l.step (.commit u)).2 = .ended u (.ok ())) :
    (∀ c, c.Shows → ∃ r : c.Result,
      l.step (.call u c) = (l, .answered u ⟨c, r⟩) ∧
      (l.step (.commit u)).1.begin.1.step (.call (l.step (.commit u)).1.begin.2 c) =
        ((l.step (.commit u)).1.begin.1, .answered (l.step (.commit u)).1.begin.2 ⟨c, r⟩)) ∧
    ∀ id, ∃ r r' : (Call.entrySum id).Result,
      l.step (.call u (.entrySum id)) = (l, .answered u ⟨.entrySum id, r⟩) ∧
      (l.step (.commit u)).1.begin.1.step
          (.call (l.step (.commit u)).1.begin.2 (.entrySum id)) =
        ((l.step (.commit u)).1.begin.1,
          .answered (l.step (.commit u)).1.begin.2 ⟨.entrySum id, r'⟩) ∧
      ∀ sum sum', r = .ok sum → r' = .ok sum' → sum = sum' := by
  obtain ⟨w, isOpen, idle, hbooks, hdrawn⟩ := publishes_of_step_commit hok
  have hw := unit_of_find? isOpen
  have hs := hl.lawful.sound hr
  have hlawful := (hl.lawful.step (.commit u)).step .begin
  generalize (l.step (.commit u)).1 = l₁ at hbooks hdrawn hlawful ⊢
  have hs' : l₁.begin.1.Sound := hlawful.sound (by rwa [← hdrawn] at hr)
  have isOpen' : l₁.begin.1.units.find? l₁.begin.2 = some UnitOfWork.fresh := by
    simp [begin]
  refine ⟨fun c hc => ⟨_, step_reads isOpen idle hc.reads, ?_⟩, fun id => ⟨_, _,
    step_reads isOpen idle trivial, step_reads isOpen' rfl trivial, fun sum sum' hsum hsum' => ?_⟩⟩
  · rw [step_reads isOpen' rfl hc.reads, hs.perform_publish hs' hw hbooks hc]
  · have ok_of : ∀ {l : Ledger} {w : UnitOfWork} {sum : Amount},
        (l.perform w (.entrySum id)).result = .ok sum → w.entrySum? l.books id = some sum := by
      intro l w sum h
      simp only [perform] at h
      split at h
      · cases h
      · rename_i sum' hsum
        cases h
        exact hsum
    have hbooks' : l₁.begin.1.books = w.publish l.books := hbooks
    exact hs.entrySum?_publish hw (ok_of hsum) (hbooks' ▸ ok_of hsum')

/-- Two units of work append entries to one account in turn, and transfers as well; the second one
has committed, and the first one is still open. -/
def interleaved : List Action :=
  [.begin, .call 1 (.createAccount "ann" franc (cents 250)),
    .call 1 (.createAccount "bob" franc .zero), .commit 1, .begin, .begin,
    .call 2 (.appendEntry 1 (cents 1)), .call 2 (.appendTransfer 1 2 (cents 4)),
    .call 3 (.appendEntry 1 (cents 2)), .call 3 (.appendTransfer 2 1 (cents 5)),
    .call 2 (.appendEntry 1 (cents 3)), .call 2 (.createAccount "ann" dollar (cents 6)),
    .call 2 (.addBalance 2 (cents 7)), .commit 3]

/-- The second page of the entries on the first account is the committed entry between two staged
ones, before the commit of the first unit of work and after it; the sum, taken in two orders, is the
same. -/
theorem interleaved_reread :
    (empty.run interleaved).Reachable ∧ (empty.run interleaved).drawn.InRange ∧
    (∃ rows, rows.map (·.amount.units) = [2] ∧
      ((empty.run interleaved).step (.call 2 (.listEntries 1 ⟨1, 1⟩))).2 =
        .answered 2 ⟨.listEntries 1 ⟨1, 1⟩, .ok rows⟩ ∧
      (((empty.run interleaved).step (.commit 2)).1.begin.1.step
          (.call 4 (.listEntries 1 ⟨1, 1⟩))).2 =
        .answered 4 ⟨.listEntries 1 ⟨1, 1⟩, .ok rows⟩) ∧
    ∃ sum sum', ((empty.run interleaved).step (.call 2 (.entrySum 1))).2 =
        .answered 2 ⟨.entrySum 1, .ok sum⟩ ∧
      (((empty.run interleaved).step (.commit 2)).1.begin.1.step (.call 4 (.entrySum 1))).2 =
        .answered 4 ⟨.entrySum 1, .ok sum'⟩ ∧ sum = sum' := by
  have hreach : (empty.run interleaved).Reachable := ⟨interleaved, rfl⟩
  have hr : (empty.run interleaved).drawn.InRange := by decide
  obtain ⟨hshows, hsums⟩ := reread_after_commit (u := 2) hreach hr rfl
  refine ⟨hreach, hr, ?_, ?_⟩
  · obtain ⟨r, hbefore, hafter⟩ := hshows (.listEntries 1 ⟨1, 1⟩) trivial
    obtain ⟨rows, hrows, hlisted⟩ : ∃ rows : List Entry, rows.map (·.amount.units) = [2] ∧
        ((empty.run interleaved).step (.call 2 (.listEntries 1 ⟨1, 1⟩))).2 =
          .answered 2 ⟨.listEntries 1 ⟨1, 1⟩, .ok rows⟩ := ⟨_, by decide, rfl⟩
    refine ⟨rows, hrows, hlisted, ?_⟩
    rw [hbefore] at hlisted
    cases hlisted
    exact congrArg Prod.snd hafter
  · obtain ⟨r, r', hbefore, hafter, hsame⟩ := hsums 1
    obtain ⟨sum, hsum⟩ : ∃ sum, ((empty.run interleaved).step (.call 2 (.entrySum 1))).2 =
        .answered 2 ⟨.entrySum 1, .ok sum⟩ := ⟨_, rfl⟩
    obtain ⟨sum', hsum'⟩ : ∃ sum', (((empty.run interleaved).step (.commit 2)).1.begin.1.step
        (.call 4 (.entrySum 1))).2 = .answered 4 ⟨.entrySum 1, .ok sum'⟩ := ⟨_, rfl⟩
    refine ⟨sum, sum', hsum, hsum', ?_⟩
    rw [hbefore] at hsum
    cases hsum
    have hafter : (((empty.run interleaved).step (.commit 2)).1.begin.1.step
        (.call 4 (.entrySum 1))).2 = .answered 4 ⟨.entrySum 1, r'⟩ := congrArg Prod.snd hafter
    rw [hsum'] at hafter
    cases hafter
    exact hsame _ _ rfl rfl

end Ledger
end FundsLedger
