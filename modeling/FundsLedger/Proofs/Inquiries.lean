import FundsLedger.Operation
import FundsLedger.Proofs.Conduct
import FundsLedger.Proofs.Ledger.Answers

/-!
Inquiries and rules of conduct. Work that only reads keeps all rules that allow reading, and an
operation that is tried again after conflicts keeps the rules that each of its attempts keeps.
-/

namespace FundsLedger

open Ledger

variable {ε α : Type} {K : Rules} {v : View} {seen : List Books}

/-- The rules allow all calls that only read, and to commit when nothing else has been done. -/
structure Rules.AllowReading (K : Rules) : Prop where
  calls : ∀ v c, c.Reads → K.calls v c
  commits : K.commits View.fresh

/-- The work makes only calls that read. -/
def Work.OnlyReads (w : Work ε α) : Prop := w.Only Call.Reads

/-- A failure comes before anything has been published. -/
def History.Spotless (h : History) (result : Except ε α) : Prop :=
  ∀ e, result = .error e → h.published = none

/-- Work that may commit if it succeeds has published nothing if it fails. -/
theorem Work.Ends.of_commits [OfStoreError ε] {result : Except ε α}
    (h : ∀ a, result = .ok a → K.commits v) : Ends K History.Spotless seen v result := by
  cases result with
  | error e => exact fun _ _ => rfl
  | ok a =>
    refine ⟨h a rfl, fun l u _ => ?_⟩
    split
    · exact nofun
    · exact fun _ _ => rfl

/-- Work in a unit of its own that may commit whatever it has staged. -/
theorem Work.Meets.atomically_of_commits [OfStoreError ε] {w : Work ε α}
    (h : w.Meets K (fun _ _ _ => True) seen View.fresh) (hcommits : ∀ v, K.commits v) :
    w.atomically.Keeps K History.Spotless ⟨seen, none⟩ none :=
  Work.Meets.atomically (h.mono (.refl K) fun _ v _ _ => .of_commits fun _ _ => hcommits v)

theorem Work.OnlyReads.meets {w : Work ε α} (h : w.OnlyReads) (hK : K.AllowReading) :
    w.Meets K (fun _ v' _ => v' = v) seen v :=
  Only.meets h (I := (· = v)) rfl (fun v c _ => hK.calls v c)
    fun _ _ _ _ _ hv hc ha => (View.answers_reads hc ha).trans hv

/-- Work that only reads, its unit of work begun and ended. -/
theorem Work.OnlyReads.atomically_keeps [OfStoreError ε] {w : Work ε α} (h : w.OnlyReads)
    (hK : K.AllowReading) : w.atomically.Keeps K (fun _ _ => True) History.empty none := by
  have hkeeps : w.atomically.Keeps K History.Spotless History.empty none := by
    refine Meets.atomically ((h.meets hK).mono (.refl K) fun seen v result hv => ?_)
    subst hv
    exact .of_commits fun _ _ => hK.commits
  exact hkeeps.mono (.refl K) fun _ _ _ => trivial

/-- A process that answers without having asked for anything. -/
theorem Process.done_keeps {a : α} :
    (Process.done a).Keeps K (fun _ _ => True) History.empty none :=
  ⟨rfl, trivial⟩

namespace Accounts

theorem getAccount_keeps (hK : K.AllowReading) (id : AccountId) :
    (getAccount id).Keeps K (fun _ _ => True) History.empty none :=
  Work.OnlyReads.atomically_keeps ⟨trivial, fun _ => trivial⟩ hK

theorem listAccounts_keeps (hK : K.AllowReading) (owner : String) (pageId pageSize : Int) :
    (listAccounts owner pageId pageSize).Keeps K (fun _ _ => True) History.empty none := by
  unfold listAccounts
  split
  · exact Process.done_keeps
  · exact Work.OnlyReads.atomically_keeps ⟨trivial, fun _ => trivial⟩ hK

end Accounts

namespace Inquiries

theorem getTransfer_keeps (hK : K.AllowReading) (id : TransferId) :
    (getTransfer id).Keeps K (fun _ _ => True) History.empty none := by
  refine Work.OnlyReads.atomically_keeps ⟨trivial, fun r => ?_⟩ hK
  rcases r with e | found
  · trivial
  · cases found <;> trivial

theorem listTransfers_keeps (hK : K.AllowReading) (fromId toId : AccountId)
    (pageId pageSize : Int) :
    (listTransfers fromId toId pageId pageSize).Keeps K (fun _ _ => True) History.empty none := by
  unfold listTransfers
  split
  · exact Process.done_keeps
  · exact Work.OnlyReads.atomically_keeps ⟨trivial, fun _ => trivial⟩ hK

theorem listEntries_keeps (hK : K.AllowReading) (accountId : AccountId) (pageId pageSize : Int) :
    (listEntries accountId pageId pageSize).Keeps K (fun _ _ => True) History.empty none := by
  unfold listEntries
  split
  · exact Process.done_keeps
  · refine Work.OnlyReads.atomically_keeps ⟨trivial, fun r => ?_⟩ hK
    cases r with
    | error e => trivial
    | ok account => exact ⟨trivial, fun _ => trivial⟩

end Inquiries

/-- An operation that is tried again keeps what all of its attempts keep: induction on the attempts
that are left. -/
theorem RetryPolicy.retryFrom_keeps {policy : RetryPolicy}
    {op : Nat → Process (Except TransferError α)} {post : History → Except TransferError α → Prop}
    (hop : ∀ n seen, (op n).Keeps K post ⟨seen, none⟩ none)
    (hretry : ∀ h e, post h (.error e) → e.retryable →
      h.published = none ∧ ∀ n, post h (.error (.conflict n))) (attempt left : Nat) :
    (policy.retryFrom op attempt left).Keeps K (fun h r => post h r.result) ⟨seen, none⟩ none := by
  induction left generalizing attempt seen with
  | zero =>
    refine .bind ((hop attempt seen).mono (.refl K) fun h result hpost => ?_)
    cases result with
    | ok a => exact ⟨rfl, hpost⟩
    | error e =>
      refine ⟨rfl, ?_⟩
      dsimp only
      split
      · rename_i hretryable
        exact (hretry h e hpost hretryable).2 attempt
      · exact hpost
  | succ left ih =>
    refine .bind ((hop attempt seen).mono (.refl K) fun h result hpost => ?_)
    cases result with
    | ok a => exact ⟨rfl, hpost⟩
    | error e =>
      dsimp only
      split
      · rename_i hretryable
        obtain ⟨seen', published⟩ := h
        obtain ⟨hnone, -⟩ := hretry _ e hpost hretryable
        cases hnone
        exact ⟨rfl, rfl, ih (attempt + 1)⟩
      · exact ⟨rfl, hpost⟩

/-- A reconciliation keeps all rules that its attempts keep in units of work of their own. -/
theorem Inquiries.reconcile_keeps_of_once {id : AccountId} (policy : RetryPolicy)
    (honce : ∀ seen, (reconcileOnce id).atomically.Keeps K History.Spotless ⟨seen, none⟩ none) :
    (reconcile policy id).Keeps K (fun _ _ => True) History.empty none := by
  have hkeeps : (policy.retry fun _ => (reconcileOnce id).atomically).Keeps K
      (fun h r => h.Spotless r.result) History.empty none :=
    RetryPolicy.retryFrom_keeps (fun _ seen => honce seen)
      (fun h e hspotless _ => ⟨hspotless e rfl, fun n _ _ => hspotless e rfl⟩) 1 _
  exact .map (hkeeps.mono (.refl _) fun _ _ _ => trivial)

end FundsLedger
