import FundsLedger.Proofs.Ledger.View

/-!
What calls write. A call that succeeds writes one row or none, so what a unit of work has staged is
the record of its calls, and publishing it has the same effect on the books as writing the rows to
them one after the other.
-/

namespace FundsLedger

/-- What a unit of work has staged after a call that ended like this. -/
def UnitOfWork.record (w : UnitOfWork) : Answered → UnitOfWork
  | ⟨.createAccount .., .ok a⟩ => { w with accounts := w.accounts.insert a.id a }
  | ⟨.addBalance id _, .ok a⟩ => { w with accounts := w.accounts.insert id a }
  | ⟨.appendEntry .., .ok e⟩ => { w with entries := w.entries ++ [e] }
  | ⟨.appendTransfer .., .ok t⟩ => { w with transfers := w.transfers ++ [t] }
  | _ => w

/-- The books after what a call that ended like this has written. -/
def Books.record (b : Books) : Answered → Books
  | ⟨.createAccount .., .ok a⟩ => { b with accounts := b.accounts.insert a.id a }
  | ⟨.addBalance id _, .ok a⟩ => { b with accounts := b.accounts.insert id a }
  | ⟨.appendEntry .., .ok e⟩ => { b with entries := b.entries.insert e.id e }
  | ⟨.appendTransfer .., .ok t⟩ => { b with transfers := b.transfers.insert t.id t }
  | _ => b

variable {w : UnitOfWork} {c : Call}

/-- A call that fails writes nothing. -/
theorem UnitOfWork.record_error (w : UnitOfWork) (c : Call) (e : StoreError) :
    w.record ⟨c, .error e⟩ = w := by
  cases c <;> rfl

/-- What a call has staged can be read off its answer. -/
theorem Ledger.perform_record (l : Ledger) (w : UnitOfWork) (c : Call) :
    (l.perform w c).unit = w.record ⟨c, (l.perform w c).result⟩ := by
  cases c with
  | createAccount owner currency balance =>
    simp only [perform]
    generalize idAfter l.drawn.accounts = id
    split <;> rfl
  | getAccount id => simp only [perform]; split <;> rfl
  | getForUpdate id => simp only [perform]; split <;> rfl
  | addBalance id delta =>
    simp only [perform]
    split
    · rfl
    · split <;> rfl
  | listByOwner owner page => rfl
  | appendEntry accountId amount =>
    simp only [perform]
    split
    · rfl
    · split <;> rfl
  | getEntry id => rfl
  | listEntries accountId page => rfl
  | entrySum accountId => simp only [perform]; split <;> rfl
  | appendTransfer fromId toId amount =>
    simp only [perform]
    split
    · rfl
    · split <;> rfl
  | getTransfer id => rfl
  | listTransfers fromId toId page => rfl

/-- Answered or refused, a call stages what its answer says. -/
theorem View.Answers.staged {v v' : View} {l : Ledger} {r : c.Result} (h : v.Answers l c r v') :
    v'.staged = v.staged.record ⟨c, r⟩ := by
  cases h with
  | @refused e refusal => exact (v.staged.record_error c e).symm
  | performed => exact l.perform_record v.staged c

/-- Putting a row over a table before another one is put over it. -/
theorem Table.overlay_insert {α : Type} (t s : Table α) (key : Int) (row : α) :
    t.overlay (s.insert key row) = (t.overlay s).insert key row := by
  apply Table.ext_find?
  intro k
  simp only [Table.find?_overlay, Table.find?_insert]
  split <;> rfl

/-- One more row that is staged is one more row that is published. -/
theorem UnitOfWork.publish_record (w : UnitOfWork) (b : Books) (answer : Answered) :
    (w.record answer).publish b = (w.publish b).record answer := by
  obtain ⟨c, r⟩ := answer
  cases r with
  | error e =>
    rw [UnitOfWork.record_error]
    cases c <;> rfl
  | ok a =>
    cases c with
    | createAccount owner currency balance =>
      simp [UnitOfWork.record, Books.record, UnitOfWork.publish, Table.overlay_insert]
    | addBalance id delta =>
      simp [UnitOfWork.record, Books.record, UnitOfWork.publish, Table.overlay_insert]
    | appendEntry accountId amount =>
      simp [UnitOfWork.record, Books.record, UnitOfWork.publish, List.foldl_append]
    | appendTransfer fromId toId amount =>
      simp [UnitOfWork.record, Books.record, UnitOfWork.publish, List.foldl_append]
    | _ => rfl

theorem UnitOfWork.publish_foldl (w : UnitOfWork) (b : Books) (calls : List Answered) :
    (calls.foldl UnitOfWork.record w).publish b = calls.foldl Books.record (w.publish b) := by
  induction calls generalizing w with
  | nil => rfl
  | cons answer rest ih => rw [List.foldl_cons, List.foldl_cons, ih, publish_record]

/-- A commit writes to the books, in one step, all that the calls of the unit of work have
written. -/
theorem publish_calls (b : Books) (calls : List Answered) :
    (calls.foldl UnitOfWork.record UnitOfWork.fresh).publish b = calls.foldl Books.record b := by
  rw [UnitOfWork.publish_foldl]
  rfl

end FundsLedger
