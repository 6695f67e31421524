import FundsLedger.Proofs.Inquiries
import FundsLedger.Proofs.Transfer.Attempt

/-!
How the execution of a transfer ends. Attempts that end in a conflict leave nothing behind and are
made again; the attempt that succeeds publishes, on the books of its commit, what the reference
writes on them; and a request that is refused has been refused by the reference too.
-/

namespace FundsLedger

open Ledger

variable {l : Ledger} {u : UnitId}

/-- A commit fails with a conflict, through a fault of the store or because of a duplicate
account. -/
theorem Ledger.commitUnit_error {w : UnitOfWork} {e : StoreError}
    (h : (l.commitUnit u w).2 = .error e) :
    l.injected? .commit = some e ∨ e = .conflict ∨
      ∃ a, w.firstDuplicate? l.books = some a ∧ e = .duplicateAccount a.owner a.currency.code := by
  unfold commitUnit at h
  split at h
  · rename_i hinjected
    cases h
    exact Or.inl hinjected
  · split at h
    · cases h
      exact Or.inr (Or.inl rfl)
    · split at h
      · rename_i a ha
        cases h
        exact Or.inr (Or.inr ⟨a, ha, rfl⟩)
      · cases h

/-- A failure to commit is no answer to a request. -/
theorem Ledger.commitUnit_not_verdict {w : UnitOfWork} {e : StoreError}
    (h : (l.commitUnit u w).2 = .error e) : ¬ (ofStoreError e : TransferError).IsVerdict := by
  rcases commitUnit_error h with hinjected | rfl | ⟨a, -, rfl⟩
  · exact (View.injected?_isFault hinjected).not_verdict
  · exact id
  · exact id

/-- How a call of the engine ends: with success it has published what the reference writes,
otherwise it has published nothing, and an answer to the request is the answer of the reference. -/
def TransferRequest.Outcome (r : TransferRequest) (h : History) :
    Except TransferError Receipt → Prop
  | .ok receipt =>
    ∃ b k, h.published = some (b, receipt.post b) ∧ k.NewTo b ∧
      r.serial k b = (.ok receipt, receipt.post b)
  | .error e =>
    h.published = none ∧ (e.IsVerdict →
      (∃ b ∈ h.seen, ∀ k, r.serial k b = (.error e, b)) ∨ ∀ k b, r.serial k b = (.error e, b))

namespace TransferOrder

variable {o : TransferOrder} {r : TransferRequest} {source destination : Account}
variable {v : View} {seen : List Books}

/-- What has been staged is what the receipt writes to the books. -/
theorem Stages.publish {receipt : Receipt} (h : Stages r o v source destination receipt)
    (b : Books) : v.staged.publish b = receipt.post b := by
  rw [UnitOfWork.publish, Receipt.post, h.accounts, h.entries, h.transfers, h.ends.1, h.ends.2]
  congr 1
  apply Table.ext_find?
  intro id
  rw [Table.find?_overlay]
  simp only [Table.find?_insert, Table.find?_empty]
  split
  · rfl
  · split <;> rfl

/-- The rows of the receipt are new when they are committed. -/
theorem Stages.newTo {receipt : Receipt} {k : Stamps}
    (h : Stages r o v source destination receipt) (hf : Rules.accounting.Finds v l u none)
    (htransfer : k.transfer = receipt.transfer.id) (hdebit : k.debit = receipt.fromEntry.id)
    (hcredit : k.credit = receipt.toEntry.id) : k.NewTo l.books := by
  have hs := Rules.accounting.sound hf
  have hu := hf.fits.unit_eq
  have hentries : (l.unit u).entries = [receipt.fromEntry, receipt.toEntry] := by
    rw [hu]
    exact h.entries
  have htransfers : (l.unit u).transfers = [receipt.transfer] := by
    rw [hu]
    exact h.transfers
  have hascending := hs.entries.ascending u
  rw [hentries, List.pairwise_pair] at hascending
  refine ⟨?_, ?_, ?_, ?_⟩
  · rw [htransfer]
    exact hs.transfers.unpublished u receipt.transfer (by simp [htransfers])
  · rw [hdebit]
    exact hs.entries.unpublished u receipt.fromEntry (by simp [hentries])
  · rw [hcredit]
    exact hs.entries.unpublished u receipt.toEntry (by simp [hentries])
  · rw [hdebit, hcredit]
    exact Int.ne_of_lt hascending

/-- At its commit an attempt does what the reference does on the books of the moment. -/
theorem Stages.commits {receipt : Receipt} (h : Stages r o v source destination receipt)
    (hf : Rules.accounting.Finds v l u none) :
    ∃ k : Stamps, k.NewTo l.books ∧
      r.serial k l.books = (.ok receipt, v.staged.publish l.books) := by
  obtain ⟨k, hserial, htransfer, hdebit, hcredit⟩ := h.serial l.books (h.locked.stand hf)
  refine ⟨k, h.newTo hf htransfer hdebit hcredit, ?_⟩
  rw [hserial, h.publish]

/-- One attempt, its unit of work begun and ended. -/
theorem atomically_keeps (h : r.Asks o) :
    o.attempt.atomically.Keeps Rules.accounting r.Outcome ⟨seen, none⟩ none := by
  refine Work.Meets.atomically ((attempt_meets o.assured_lenient h).mono (.refl _)
    fun seen v result hattempted => ?_)
  cases result with
  | error e => exact ⟨rfl, fun hverdict => Or.inl (hattempted.verdict hverdict)⟩
  | ok receipt =>
    obtain ⟨hsettled, source, destination, hstages⟩ := hattempted
    refine ⟨hsettled, fun l u hf => ?_⟩
    cases hr : (l.commitUnit u v.staged).2 with
    | ok =>
      obtain ⟨k, hnew, hserial⟩ := hstages.commits hf
      rw [hstages.publish] at hserial ⊢
      exact ⟨l.books, k, rfl, hnew, hserial⟩
    | error e => exact ⟨rfl, fun hverdict => absurd hverdict (commitUnit_not_verdict hr)⟩

/-- A transfer that is tried again keeps what all of its attempts keep: induction on the attempts
that are left. -/
theorem executeFrom_keeps {K : Rules} {post : History → Except TransferError Receipt → Prop}
    (hattempt : ∀ seen, o.attempt.atomically.Keeps K post ⟨seen, none⟩ none)
    (hretry : ∀ h e, post h (.error e) → e.retryable →
      h.published = none ∧ ∀ n, post h (.error (.conflict n)))
    (policy : RetryPolicy) (attempt left : Nat) :
    (o.executeFrom policy attempt left).Keeps K post ⟨seen, none⟩ none := by
  induction left generalizing attempt seen with
  | zero =>
    refine .bind ((hattempt seen).mono (.refl K) fun h result hpost => ?_)
    cases result with
    | ok receipt => exact ⟨rfl, hpost⟩
    | error e =>
      dsimp only
      split
      · rename_i hretryable
        exact ⟨rfl, (hretry h e hpost hretryable).2 attempt⟩
      · exact ⟨rfl, hpost⟩
  | succ left ih =>
    refine .bind ((hattempt seen).mono (.refl K) fun h result hpost => ?_)
    cases result with
    | ok receipt => exact ⟨rfl, hpost⟩
    | error e =>
      dsimp only
      split
      · rename_i hretryable
        obtain ⟨seen', published⟩ := h
        obtain ⟨hnone, -⟩ := hretry _ e hpost hretryable
        cases hnone
        exact ⟨rfl, rfl, ih (attempt + 1)⟩
      · exact ⟨rfl, hpost⟩

end TransferOrder

/-- A call of the engine keeps all rules that its attempts keep in units of work of their own. -/
theorem TransferRequest.execute_keeps_of_attempt {K : Rules} {r : TransferRequest}
    (policy : RetryPolicy)
    (hattempt : ∀ o, r.Asks o → ∀ seen,
      o.attempt.atomically.Keeps K History.Spotless ⟨seen, none⟩ none) :
    (r.execute policy).Keeps K (fun _ _ => True) History.empty none := by
  unfold execute
  split
  · rename_i o hvalid
    have hkeeps : (o.executeFrom policy 1 (policy.maxAttempts - 1)).Keeps K History.Spotless
        History.empty none :=
      TransferOrder.executeFrom_keeps (hattempt o (asks_of_validate hvalid))
        (fun h e hspotless _ => ⟨hspotless e rfl, fun n _ _ => hspotless e rfl⟩) policy 1 _
    exact hkeeps.mono (.refl _) fun _ _ _ => trivial
  · exact Process.done_keeps

/-- Every call of the engine keeps the rules of accounting and ends as the reference says. -/
theorem TransferRequest.execute_keeps (r : TransferRequest) (policy : RetryPolicy) :
    (r.execute policy).Keeps Rules.accounting r.Outcome History.empty none := by
  unfold execute
  split
  · rename_i o hvalid
    refine TransferOrder.executeFrom_keeps
      (fun _ => TransferOrder.atomically_keeps (asks_of_validate hvalid)) (fun h e hpost _ => ?_)
      policy 1 _
    exact ⟨hpost.1, fun n => ⟨hpost.1, False.elim⟩⟩
  · rename_i e hinvalid
    exact ⟨rfl, rfl, fun _ => Or.inr fun k b => serial_of_validate_error hinvalid k b⟩

end FundsLedger
