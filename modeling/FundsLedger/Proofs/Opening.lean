import FundsLedger.Proofs.Accounting
import FundsLedger.Proofs.Inquiries
import FundsLedger.Proofs.Ledger.Unique
import FundsLedger.Proofs.Opening.Checks

/-!
Opening an account by the rules of accounting. The account is new, so its balance starts from
nothing; the deposit is one entry, written under a lock for which the task has never waited.
-/

namespace FundsLedger

open Ledger

variable {v v' : View} {l : Ledger} {u : UnitId} {p : Option Call} {seen : List Books}
variable {a : Account} {owner : String} {c : Currency} {deposit : Amount} {K : Rules}

/-- The rules of an opening are those of accounting, and it asks for a row only if it has staged the
account itself, of which nobody else knows. -/
def Rules.opening : Rules where
  relies := accounting.relies
  calls v c := accounting.calls v c ∧
    ∀ row, c.row? = some row → (v.staged.accounts.find? row).isSome
  commits := accounting.commits

theorem Rules.opening_lenient : opening.Lenient accounting :=
  ⟨fun _ hr => hr, fun _ _ hc => hc.1, fun _ hv => hv⟩

/-- A call that needs no row is allowed if accounting allows it. -/
theorem Rules.opening_calls {call : Call} (h : v.Permits call) (hrow : call.row? = none) :
    opening.calls v call := by
  refine ⟨h, fun row heq => ?_⟩
  rw [hrow] at heq
  cases heq

/-- Who relies on what an opening relies on finds the ledger as accounting does. -/
theorem Rules.accounting_finds (hK : opening.Lenient K) (hf : K.Finds v l u p) :
    accounting.Finds v l u p :=
  ⟨hf.lawful, hK.relies l hf.relied, hf.fits⟩

namespace Accounts

/-- The part of an opening that comes after the account has been created. -/
def funding (account : Account) (deposit : Amount) : Work AccountError Account :=
  if deposit.units = 0 then
    pure account
  else do
    let funded ← Work.ask (.addBalance account.id deposit)
    let _ ← Work.ask (.appendEntry funded.id deposit)
    return funded

theorem openingWork_eq (owner : String) (currency : Currency) (deposit : Amount) :
    openingWork owner currency deposit =
      (Work.ask (.createAccount owner currency Amount.zero) >>= fun a => funding a deposit) := by
  unfold openingWork funding
  rfl

/-- What an opening has done when it succeeds: one new account is staged, with the deposit as its
balance and, if there is a deposit, as the only entry. -/
structure Funded (v : View) (a : Account) (deposit : Amount) : Prop where
  accounts : v.staged.accounts = Table.empty.insert a.id a
  balance : a.balance.units = deposit.units
  unfunded : deposit.units = 0 → v.staged.entries = []
  funded : deposit.units ≠ 0 →
    ∃ e, v.staged.entries = [e] ∧ e.accountId = a.id ∧ e.amount = deposit
  transfers : v.staged.transfers = []
  uncommitted : ∀ id b, v.locked.find? id = some b → b = none

namespace Funded

/-- No balance that the task knows of is a committed one. -/
theorem start (h : Funded v a deposit) (id : AccountId) : v.start id = 0 := by
  unfold View.start
  split
  · rename_i b hb
    cases h.uncommitted id _ hb
  · rfl

/-- The only balance that is staged is the one that the deposit makes up. -/
theorem settled (h : Funded v a deposit) : v.Settled := by
  intro id
  rw [View.balance, h.start, h.accounts, Table.find?_insert, UnitOfWork.movements,
    UnitOfWork.entriesOn]
  by_cases hzero : deposit.units = 0
  · rw [h.unfunded hzero]
    by_cases hid : id = a.id <;> simp [hid, h.balance, hzero]
  · obtain ⟨e, hentries, haccount, hamount⟩ := h.funded hzero
    rw [hentries]
    by_cases hid : id = a.id
    · simp [hid, haccount, hamount, h.balance]
    · have hne : ¬ a.id = id := fun heq => hid heq.symm
      simp [hid, haccount, hne]

/-- Nobody has committed the account. -/
theorem new (h : Funded v a deposit) (hf : Rules.accounting.Finds v l u p) :
    l.books.accounts.find? a.id = none := by
  have hstaged : v.staged.accounts.find? a.id = some a := by simp [h.accounts]
  cases hlocked : v.locked.find? a.id with
  | none => exact hf.fits.new_of_unlocked hf.lawful hf.relied hstaged hlocked
  | some b =>
    rw [Rules.accounting.row hf hlocked]
    exact h.uncommitted a.id b hlocked

end Funded

/-- The work of an opening fails: there is an account in its place in books that it has found, or a
call has failed where the store had been told to fail. -/
def Declined (K : Rules) (owner : String) (c : Currency) (seen : List Books) (e : AccountError) :
    Prop :=
  (e = .duplicate owner c.code ∧ ∃ b ∈ seen, b.Taken (owner, c)) ∨
    ∃ l point fault, K.relies l ∧ l.injected? point = some fault

/-- How the work of an opening ends. -/
def Opens (K : Rules) (owner : String) (c : Currency) (deposit : Amount) (seen : List Books)
    (v : View) : Except AccountError Account → Prop
  | .ok a => a.owner = owner ∧ a.currency = c ∧ Funded v a deposit
  | .error e => Declined K owner c seen e

/-- A new account has room for every deposit. -/
theorem add?_zero (deposit : Amount) : Amount.zero.add? deposit ≠ none := by
  intro hnone
  have hrange := Amount.add?_eq_none_iff.mp hnone
  have hlower := deposit.lower
  have hupper := deposit.upper
  rw [Amount.zero_units] at hrange
  omega

/-- The deposit is one entry on a new account. -/
theorem funding_meets (hK : Rules.opening.Lenient K) (hd : 0 ≤ deposit.units)
    (ha : a.balance = Amount.zero) :
    (funding a deposit).Meets K (Opens K a.owner a.currency deposit) seen
      (View.fresh.stageAccount a) := by
  unfold funding
  split
  · rename_i hzero
    refine ⟨rfl, rfl, rfl, ?_, fun _ => rfl, fun h => absurd hzero h, rfl, fun id b hb => ?_⟩
    · rw [ha, hzero]
      rfl
    · simp [View.stageAccount, View.fresh] at hb
  rename_i hnonzero
  have hfound : (View.fresh.stageAccount a).staged.accounts.find? a.id = some a := by
    simp [View.stageAccount]
  have hsees : ∀ l, (View.fresh.stageAccount a).sees? l a.id = some a := by
    intro l
    rw [View.sees?, UnitOfWork.visible?, hfound, Option.some_or]
  -- The account is staged, so nobody else can ask for its row.
  refine .ask (hK.calls _ _ ⟨trivial, fun row hrow => ?_⟩) fun l u p r v hf hanswers => ?_
  · cases hrow
    rw [hfound]
    rfl
  rcases View.answers_addBalance hanswers with
    ⟨e, rfl, hinjected | ⟨hnone, -⟩ | ⟨b, hb, hnone⟩⟩ | ⟨b, sum, hb, hsum, rfl, hlock, hstaged⟩
  · exact Or.inr ⟨l, _, e, hf.relied, hinjected⟩
  · rw [hsees] at hnone
    cases hnone
  · rw [hsees] at hb
    cases hb
    rw [ha] at hnone
    exact absurd hnone (add?_zero deposit)
  rw [hsees] at hb
  cases hb
  -- Nobody has committed the account, so its entries start from nothing.
  have hnew : l.books.accounts.find? a.id = none :=
    hf.fits.new_of_unlocked hf.lawful (hK.relies l hf.relied) hfound
      (by simp [View.stageAccount, View.fresh])
  have hlocked : ∀ id, v.locked.find? id = if id = a.id then some none else none := by
    intro id
    rw [hlock, View.lock, hnew]
    simp [View.stageAccount, View.fresh]
  have hstart : v.start a.id = 0 := by
    rw [View.start, hlocked, if_pos rfl]
  have hnothing : v.staged.movements a.id = [] := by
    rw [hstaged]
    rfl
  refine .ask (hK.calls _ _ (Rules.opening_calls ⟨by simp [hlocked], fun _ => ?_⟩ rfl))
    fun l u p r v' hf hanswers => ?_
  · rw [hstart, hnothing]
    have := deposit.upper
    simp only [List.sum_nil]
    omega
  rcases View.answers_appendEntry hanswers with
    ⟨e, rfl, hinjected | ⟨hnone, -⟩⟩ | ⟨e, hid, hamount, rfl, rfl⟩
  · exact Or.inr ⟨l, _, e, hf.relied, hinjected⟩
  · rw [View.sees?, UnitOfWork.visible?, hstaged, Table.find?_insert, if_pos rfl] at hnone
    cases hnone
  refine ⟨rfl, rfl, ?_, ?_, fun h => absurd h hnonzero, fun _ => ⟨e, ?_, hid, hamount⟩, ?_,
    fun id c hc => ?_⟩
  · rw [View.stageEntry, hstaged]
    exact Table.insert_insert _ _ _ _
  · show sum.units = deposit.units
    rw [Amount.add?_eq_some_iff, ha] at hsum
    simpa using hsum
  · simp [View.stageEntry, hstaged, View.stageAccount, View.fresh, UnitOfWork.fresh]
  · simp [View.stageEntry, hstaged, View.stageAccount, View.fresh, UnitOfWork.fresh]
  · have hc : v.locked.find? id = some c := hc
    rw [hlocked] at hc
    split at hc
    · exact (Option.some.inj hc).symm
    · cases hc

/-- An opening stages what it is for, unless there is an account in its place. -/
theorem openingWork_meets (hK : Rules.opening.Lenient K) (hd : 0 ≤ deposit.units) :
    (openingWork owner c deposit).Meets K (Opens K owner c deposit) seen View.fresh := by
  rw [openingWork_eq]
  refine .ask (hK.calls _ _ (Rules.opening_calls trivial rfl)) fun l u p r v _ hanswers => ?_
  rcases View.answers_createAccount hanswers with
    ⟨rfl, a, rfl, rfl, hduplicate⟩ | ⟨a, ⟨rfl, rfl, hbalance⟩, rfl, rfl⟩
  · refine Or.inl ⟨rfl, l.books, List.mem_cons_self, ?_⟩
    obtain ⟨id, a', ha', -, hplace⟩ := UnitOfWork.isDuplicate_iff.mp hduplicate
    exact ⟨id, a', ha'.resolve_right (by simp [View.fresh, UnitOfWork.fresh]), hplace⟩
  · exact funding_meets hK hd hbalance

/-- An opening keeps what its work keeps in a unit of work of its own. -/
theorem openAccount_keeps_of_work {owner currency : String}
    (hwork : ∀ c, checkOpening owner currency deposit = .ok c →
      (openingWork owner c deposit).atomically.Keeps K History.Spotless History.empty none) :
    (openAccount owner currency deposit).Keeps K (fun _ _ => True) History.empty none := by
  unfold openAccount
  split
  · exact Process.done_keeps
  · rename_i c hchecked
    refine .bind ((hwork c hchecked).mono (.refl K) fun h result _ => ?_)
    cases result <;> exact ⟨rfl, trivial⟩

/-- Opening an account keeps the rules of accounting. -/
theorem openAccount_keeps (owner currency : String) (deposit : Amount) :
    (openAccount owner currency deposit).Keeps Rules.accounting (fun _ _ => True)
      History.empty none := by
  refine openAccount_keeps_of_work fun c hchecked => ?_
  have hmeets : (openingWork owner c deposit).Meets Rules.accounting
      (Opens Rules.accounting owner c deposit) [] View.fresh :=
    openingWork_meets Rules.opening_lenient (of_checkOpening hchecked).2
  refine Work.Meets.atomically (hmeets.mono (.refl _) fun _ _ _ hopens => ?_)
  refine .of_commits fun a ha => ?_
  subst ha
  exact hopens.2.2.settled

end Accounts
end FundsLedger
