import FundsLedger.Proofs.Ledger.Filed
import FundsLedger.Proofs.Pages
import FundsLedger.Proofs.Service.Alone
import FundsLedger.Proofs.Service.Closing

/-!
Browsing. A client reads a listing page by page. While nobody commits anything, the pages cut the
full listing into pieces: put together they are its beginning, and every row is on one page only.
The three listings differ in their rows and in how they are asked for, and in nothing else that
matters here.
-/

namespace FundsLedger

open Ledger

/-! ## Cutting a list -/

section Cutting

variable {α : Type} {rows : List α} {size : Nat}

/-- The first pieces of a list, put together, are its beginning. -/
theorem flatMap_pieces (rows : List α) (size n : Nat) :
    (List.range n).flatMap (fun k => (rows.drop (k * size)).take size) = rows.take (n * size) := by
  induction n with
  | zero => simp
  | succ n ih =>
    rw [List.range_succ, List.flatMap_append, ih, Nat.succ_mul, List.take_add]
    simp

/-- The piece in which a row stands. -/
theorem mem_piece_iff (hrows : rows.Nodup) (hsize : 0 < size) {i : Nat} (hi : i < rows.length)
    (k : Nat) : rows[i] ∈ (rows.drop (k * size)).take size ↔ k = i / size := by
  have hdiv : k = i / size ↔ k * size ≤ i ∧ i < k * size + size := by
    rw [eq_comm, Nat.div_eq_iff hsize]
    omega
  rw [hdiv, List.mem_iff_getElem]
  constructor
  · rintro ⟨j, hj, heq⟩
    rw [List.getElem_take, List.getElem_drop] at heq
    rw [List.length_take, List.length_drop] at hj
    obtain rfl := (hrows.getElem_inj_iff).mp heq
    omega
  · rintro ⟨hle, hlt⟩
    refine ⟨i - k * size, by rw [List.length_take, List.length_drop]; omega, ?_⟩
    rw [List.getElem_take, List.getElem_drop]
    congr 1
    omega

/-- Every row stands in one piece only. -/
theorem existsUnique_piece (hrows : rows.Nodup) (hsize : 0 < size) {r : α} (hr : r ∈ rows) :
    ∃! k, r ∈ (rows.drop (k * size)).take size := by
  obtain ⟨i, hi, rfl⟩ := List.getElem_of_mem hr
  refine ⟨i / size, (mem_piece_iff hrows hsize hi _).mpr rfl, ?_⟩
  intro k hk
  exact (mem_piece_iff hrows hsize hi k).mp hk

end Cutting

/-! ## Page numbers -/

theorem Page.numbered_eq_ok_iff {pageId size : Int} {page : Page} :
    numbered pageId size = .ok page ↔
      1 ≤ pageId ∧ (5 ≤ size ∧ size ≤ 10) ∧ page = ⟨size, (pageId - 1) * size⟩ := by
  unfold numbered
  by_cases hid : pageId < 1
  · simp [hid, Int.not_le.mpr hid]
  · by_cases hsize : size < 5 ∨ 10 < size
    · rw [if_neg hid, if_pos hsize]
      simp only [reduceCtorEq, false_iff, not_and]
      intro _ hrange
      omega
    · rw [if_neg hid, if_neg hsize, Except.ok.injEq, eq_comm]
      constructor
      · intro h
        exact ⟨by omega, by omega, h⟩
      · intro h
        exact h.2.2

/-! ## Listings -/

theorem Books.Filed.accountsOf {b : Books} (hb : b.Filed) (owner : String) :
    (b.accounts.filter (·.owner = owner)).Keyed Account.id := by
  intro key a ha
  rw [Table.find?_filter] at ha
  exact hb.accounts key a (Option.filter_eq_some_iff.mp ha).1

/-- A listing that clients read page by page: the accounts of an owner, the entries on an account,
or the transfers out of one account or into another. -/
inductive Listing where
  | accounts (owner : String)
  | entries (accountId : AccountId)
  | transfers (fromId toId : AccountId)

namespace Listing

/-- What is listed. -/
@[reducible] def Row : Listing → Type
  | accounts _ => Account
  | entries _ => Entry
  | transfers .. => Transfer

/-- The identifier of a row. -/
def rowId : (L : Listing) → L.Row → Int
  | accounts _, a => a.id
  | entries _, e => e.id
  | transfers .., t => t.id

/-- The row is committed and belongs to the listing. -/
def Lists : (L : Listing) → Books → L.Row → Prop
  | accounts owner, b, a => b.accounts.find? a.id = some a ∧ a.owner = owner
  | entries accountId, b, e => b.entries.find? e.id = some e ∧ e.accountId = accountId
  | transfers fromId toId, b, t =>
    b.transfers.find? t.id = some t ∧ (t.fromId = fromId ∨ t.toId = toId)

/-- The full listing. -/
def rows : (L : Listing) → Books → List L.Row
  | accounts owner, b => (b.accounts.filter (·.owner = owner)).values
  | entries accountId, b => b.entriesOf accountId
  | transfers fromId toId, b => b.transfersBetween fromId toId

/-- A page of the listing. -/
def page (L : Listing) (b : Books) (size pageId : Int) : List L.Row :=
  ((L.rows b).drop ((pageId - 1) * size).toNat).take size.toNat

/-- The operation that asks for a page. -/
def operation : Listing → Int → Int → Operation
  | accounts owner, pageId, size => .listAccounts owner pageId size
  | entries accountId, pageId, size => .listEntries accountId pageId size
  | transfers fromId toId, pageId, size => .listTransfers fromId toId pageId size

/-- The answer that gives these rows. -/
def answer : (L : Listing) → List L.Row → Answer
  | accounts _, rows => .accounts (.ok rows)
  | entries _, rows => .entries (.ok rows)
  | transfers .., rows => .transfers (.ok rows)

/-- The listing is there to be read: the account of the entries has been committed. -/
def Exists : Listing → Books → Prop
  | entries accountId, b => (b.accounts.find? accountId).isSome
  | _, _ => True

variable {L : Listing} {b : Books} {size pageId : Int}

theorem answer_injective (L : Listing) : Function.Injective L.answer := by
  intro rows rows' h
  cases L <;> cases h <;> rfl

theorem uncut (L : Listing) (pageId size : Int) (timeout : Option Duration) (now : Nat) :
    (L.operation pageId size).interrupts timeout now = [] := by
  cases L <;> rfl

/-- The full listing has exactly the rows that belong to it. -/
theorem mem_rows_iff (hb : b.Filed) {r : L.Row} : r ∈ L.rows b ↔ L.Lists b r := by
  cases L with
  | accounts owner =>
    simp only [rows, Lists, (hb.accountsOf owner).mem_values_iff, Table.find?_filter,
      Option.filter_eq_some_iff, decide_eq_true_eq]
  | entries accountId =>
    simp only [rows, Lists, Books.entriesOf, List.mem_filter, hb.entries.mem_values_iff,
      decide_eq_true_eq]
  | transfers fromId toId =>
    simp only [rows, Lists, Books.transfersBetween, List.mem_filter, hb.transfers.mem_values_iff,
      decide_eq_true_eq]

/-- The full listing is in ascending order of the identifiers. -/
theorem rows_ascending (hb : b.Filed) : (L.rows b).Pairwise (L.rowId · < L.rowId ·) := by
  cases L with
  | accounts owner => exact (hb.accountsOf owner).values_ascending
  | entries accountId => exact hb.entries.values_ascending.filter _
  | transfers fromId toId => exact hb.transfers.values_ascending.filter _

theorem rows_nodup (hb : b.Filed) : (L.rows b).Nodup :=
  (rows_ascending hb).imp fun hlt heq => by rw [heq] at hlt; exact Int.lt_irrefl _ hlt

/-- A numbered page shows the rows of the window. -/
theorem window_eq_page {page : Page} (hpage : Page.numbered pageId size = .ok page) :
    page.window (L.rows b) = L.page b size pageId := by
  obtain ⟨-, -, rfl⟩ := Page.numbered_eq_ok_iff.mp hpage
  rfl

/-- Pages are counted from 1, so they are the pieces of the full listing. -/
theorem page_succ (hsize : 0 ≤ size) (k : Nat) :
    L.page b size (k + 1) = ((L.rows b).drop (k * size.toNat)).take size.toNat := by
  have hoffset : (((k : Int) + 1 - 1) * size).toNat = k * size.toNat := by
    rw [Int.add_sub_cancel, Int.toNat_mul (Int.natCast_nonneg k) hsize, Int.toNat_natCast]
  rw [page, hoffset]

end Listing

/-! ## Rules of conduct -/

/-- The store has these books, and nobody has told it to fail. -/
structure Ledger.Quiet (b : Books) (l : Ledger) : Prop where
  books : l.books = b
  failPoint : l.failPoint = none
  conflicts : l.conflicts = 0

instance (b : Books) (l : Ledger) : Decidable (l.Quiet b) :=
  decidable_of_iff (l.books = b ∧ l.failPoint = none ∧ l.conflicts = 0)
    ⟨fun h => ⟨h.1, h.2.1, h.2.2⟩, fun h => ⟨h.books, h.failPoint, h.conflicts⟩⟩

/-- Who browses only reads, in books that stay as they are. -/
def Rules.browsing (b : Books) : Rules where
  relies l := l.Quiet b
  calls _ c := c.Reads
  commits v := v = View.fresh

/-- A call that only reads is answered from the books and from what is staged. -/
theorem View.result_of_reads {v v' : View} {l : Ledger} {c : Call} {r : c.Result} (hc : c.Reads)
    (ha : v.Answers l c r v') : r = (l.perform v.staged c).result := by
  cases ha with
  | performed => rfl
  | refused refusal => cases c <;> simp only [Call.Reads] at hc <;> cases refusal

namespace Rules

variable {b : Books}

/-- A call that only reads waits for nobody. -/
theorem browsing_prompt (b : Books) : (browsing b).Prompt := by
  intro v l u q c hf hcalls hq
  have hresponds := hf.fits.respond_call hf.lawful hq
  generalize l.respond (some u) (.call c) = response at hresponds
  cases hresponds with
  | answered answers fits called => rfl
  | waits row? waits fits called =>
    rw [Call.row?_of_reads hcalls] at row?
    cases row?

/-- Work that ends with a call for rows succeeds with what the call has found: nothing is staged
that could be in the way of its commit. -/
theorem browsing_asks {ε : Type} [OfStoreError ε] {seen : List Books} {c : Call} {found : c.Answer}
    (hc : c.Reads)
    (hfound : ∀ l : Ledger, l.books = b → (l.perform UnitOfWork.fresh c).result = .ok found) :
    (Work.ask c : Work ε c.Answer).Meets (browsing b)
      (Work.Ends (browsing b) fun _ r => r = .ok found) seen View.fresh := by
  refine ⟨hc, fun l u p r v hf ha => ?_⟩
  obtain rfl := View.answers_reads hc ha
  rw [View.result_of_reads hc ha, View.fresh, hfound l hf.relied.books]
  refine ⟨rfl, fun l u hf => ?_⟩
  have hok : (l.commitUnit u UnitOfWork.fresh).2 = .ok () :=
    commitUnit_ok hf.relied.failPoint hf.relied.conflicts rfl
  rw [hok]

end Rules

namespace Listing

variable {L : Listing} {b : Books} {size pageId : Int} {page : Page}

/-- Who has staged nothing sees the accounts of an owner that are committed. -/
theorem fresh_accountsOf (b : Books) (owner : String) :
    UnitOfWork.fresh.accountsOf b owner = (accounts owner).rows b := by
  rw [UnitOfWork.accountsOf, UnitOfWork.fresh, Table.filter_empty, Table.overlay_empty]
  rfl

/-- Who asks for a page gets it. -/
theorem keeps (hb : b.Filed) (hL : L.Exists b) (hpage : Page.numbered pageId size = .ok page)
    (policy : RetryPolicy) :
    ((L.operation pageId size).process policy).Keeps (Rules.browsing b)
      (fun _ got => got = L.answer (page.window (L.rows b))) History.empty none := by
  cases L with
  | accounts owner =>
    have hlist : (Accounts.listAccounts owner pageId size).Keeps (Rules.browsing b)
        (fun _ r => r = .ok (page.window ((accounts owner).rows b))) History.empty none := by
      unfold Accounts.listAccounts
      rw [hpage]
      apply Work.Meets.atomically
      apply Rules.browsing_asks (c := .listByOwner owner page) trivial
      rintro l rfl
      simp only [Ledger.perform, fresh_accountsOf]
    exact .map (hlist.mono (.refl _) fun _ r hr => congrArg Answer.accounts hr)
  | entries accountId =>
    have hlist : (Inquiries.listEntries accountId pageId size).Keeps (Rules.browsing b)
        (fun _ r => r = .ok (page.window ((entries accountId).rows b))) History.empty none := by
      unfold Inquiries.listEntries
      rw [hpage]
      refine Work.Meets.atomically (.ask trivial fun l u p r v hf ha => ?_)
      obtain rfl := View.answers_reads (c := .getAccount accountId) trivial ha
      -- The account is there, so the work goes on to its entries.
      obtain ⟨a, ha'⟩ := Option.isSome_iff_exists.mp hL
      have hvisible : UnitOfWork.fresh.visible? b accountId = some a := ha'
      rw [View.result_of_reads (c := .getAccount accountId) trivial ha]
      simp only [Ledger.perform, hf.relied.books, View.fresh, hvisible]
      apply Rules.browsing_asks (c := .listEntries accountId page) trivial
      rintro l rfl
      simp only [Ledger.perform,
        UnitOfWork.fresh_entriesOf (hb.entries.values_ascending.filter _)]
      rfl
    exact .map (hlist.mono (.refl _) fun _ r hr => congrArg Answer.entries hr)
  | transfers fromId toId =>
    have hlist : (Inquiries.listTransfers fromId toId pageId size).Keeps (Rules.browsing b)
        (fun _ r => r = .ok (page.window ((transfers fromId toId).rows b))) History.empty none := by
      unfold Inquiries.listTransfers
      rw [hpage]
      apply Work.Meets.atomically
      apply Rules.browsing_asks (c := .listTransfers fromId toId page) trivial
      rintro l rfl
      simp only [Ledger.perform,
        UnitOfWork.fresh_transfersBetween (hb.transfers.values_ascending.filter _)]
      rfl
    exact .map (hlist.mono (.refl _) fun _ r hr => congrArg Answer.transfers hr)

/-- A page takes up to six steps. -/
theorem within (L : Listing) (hpage : Page.numbered pageId size = .ok page)
    (policy : RetryPolicy) : ((L.operation pageId size).process policy).Within 6 := by
  cases L with
  | accounts owner =>
    simp only [operation, Operation.process, Accounts.listAccounts, hpage]
    rintro (e | ⟨⟩)
    · trivial
    · rintro (e | found) <;> rintro (e | ⟨⟩) <;> trivial
  | entries accountId =>
    simp only [operation, Operation.process, Inquiries.listEntries, hpage]
    rintro (e | ⟨⟩)
    · trivial
    · rintro (e | account)
      · rintro (e | ⟨⟩) <;> trivial
      · rintro (e | found) <;> rintro (e | ⟨⟩) <;> trivial
  | transfers fromId toId =>
    simp only [operation, Operation.process, Inquiries.listTransfers, hpage]
    rintro (e | ⟨⟩)
    · trivial
    · rintro (e | found) <;> rintro (e | ⟨⟩) <;> trivial

end Listing

/-- A step of who browses changes no books and makes the store fail for nobody. -/
theorem Process.Keeps.quiet {α : Type} {b : Books} {p : Process α} {post : History → α → Prop}
    {h : History} {view : Option View} {l : Ledger} {unit : Option UnitId}
    (hk : p.Keeps (Rules.browsing b) post h view) (ha : View.Attached l unit view p)
    (hl : l.Lawful) (hq : l.Quiet b) : (p.advance l unit).ledger.Quiet b := by
  cases p with
  | done a => exact hq
  | note event rest => exact hq
  | sleep longest rest => exact hq
  | panic message => exact hk.elim
  | ask request next =>
    have hledger :
        ((ask request next).advance l unit).ledger = (l.respond unit request).ledger := by
      simp only [Process.advance]
      split <;> rfl
    -- Nobody reads under a lock, so it does not matter who holds which row.
    have hcalm : l.Calm (fun _ => False) unit := ⟨hq.failPoint, hq.conflicts, fun _ _ => False.elim⟩
    have hrows : ∀ c row, request = .call c → c.row? = some row → False := by
      rintro c row rfl hrow
      obtain ⟨-, v, -, hreads, -⟩ := hk
      rw [Call.row?_of_reads hreads] at hrow
      cases hrow
    have hafter := (hcalm.respond hl ha hk.view_of_ask.2 hrows).2
    rw [hledger]
    refine ⟨?_, hafter.failPoint, hafter.conflicts⟩
    rw [← hq.books]
    cases request with
    | begin => rfl
    | call c =>
      obtain ⟨-, v, rfl, -⟩ := hk
      cases ha with
      | @busy u v q p fits pending =>
        have hresponds := fits.respond_call hl pending
        generalize l.respond (some u) (.call c) = response at hresponds
        cases hresponds with
        | waits row? waits fits' called => exact called.books
        | answered answers fits' called => exact called.books
    | commit =>
      obtain ⟨-, v, rfl, rfl, -⟩ := hk
      cases ha with
      | @busy u v q p fits pending =>
        obtain rfl : q = none := by simpa [Process.call?] using pending
        rw [fits.respond_commit]
        have hcommitted := commitUnit_committed l u View.fresh.staged
        generalize l.commitUnit u View.fresh.staged = committed at hcommitted ⊢
        obtain ⟨l', r⟩ := committed
        cases hcommitted with
        | failed e conflicts => rfl
        | published unique => rfl
    | rollback =>
      obtain ⟨-, hsome, -⟩ := hk
      cases ha with
      | idle => cases hsome
      | @busy u v q p fits pending =>
        obtain rfl : q = none := by simpa [Process.call?] using pending
        rw [fits.respond_rollback]
        rfl

/-! ## Runs -/

namespace Service

variable {s : Service} {L : Listing} {b : Books} {size pageId : Int}
variable {call actions : List Action}

theorem Reachable.filed (hs : s.Reachable) : s.ledger.Filed := by
  obtain ⟨settings, actions, rfl⟩ := hs
  refine run_induction (s := start settings) (P := fun _ s' => s'.ledger.Filed) .empty
    (fun as a h => ?_) actions
  obtain ⟨m, hm⟩ := (((start settings).run as).step_goes a).makes
  exact h.makes hm

/-- At every moment of the run the store has these books, and nobody has told it to fail: all that
goes on is reading, and work that is not committed. -/
def Undisturbed (s : Service) (b : Books) (actions : List Action) : Prop :=
  ∀ pre rest, actions = pre ++ rest → (s.run pre).ledger.Quiet b

theorem undisturbed_cons {a : Action} {rest : List Action} :
    s.Undisturbed b (a :: rest) ↔ s.ledger.Quiet b ∧ (s.step a).Undisturbed b rest := by
  constructor
  · intro h
    exact ⟨h [] (a :: rest) rfl, fun pre post heq => h (a :: pre) post (by rw [heq]; rfl)⟩
  · rintro ⟨hfirst, hrest⟩ pre post heq
    cases pre with
    | nil => exact hfirst
    | cons a' pre =>
      obtain ⟨rfl, hrest'⟩ := List.cons.inj heq
      exact hrest pre post hrest'

theorem undisturbed_nil : s.Undisturbed b [] ↔ s.ledger.Quiet b := by
  constructor
  · intro h
    exact h [] [] rfl
  · intro h pre post heq
    obtain ⟨rfl, -⟩ := List.append_eq_nil_iff.mp heq.symm
    exact h

theorem undisturbed_append {as bs : List Action} :
    s.Undisturbed b (as ++ bs) ↔ s.Undisturbed b as ∧ (s.run as).Undisturbed b bs := by
  constructor
  · intro h
    refine ⟨fun pre rest heq => h pre (rest ++ bs) (by rw [heq, List.append_assoc]), ?_⟩
    intro pre rest heq
    rw [← run_append]
    exact h (as ++ pre) rest (by rw [heq, List.append_assoc])
  · rintro ⟨has, hbs⟩ pre rest heq
    rcases List.append_eq_append_iff.mp heq with ⟨more, rfl, rfl⟩ | ⟨more, rfl, rfl⟩
    · rw [run_append]
      exact hbs more rest rfl
    · exact has pre more rfl

theorem Undisturbed.last (h : s.Undisturbed b actions) : (s.run actions).ledger.Quiet b :=
  h actions [] (List.append_nil actions).symm

instance decidableUndisturbed (s : Service) (b : Books) :
    (actions : List Action) → Decidable (s.Undisturbed b actions)
  | [] => decidable_of_iff _ undisturbed_nil.symm
  | a :: rest =>
    have := decidableUndisturbed (s.step a) b rest
    decidable_of_iff _ undisturbed_cons.symm

/-- An undisturbed call for a page takes less than six steps of its own, and gets the page. -/
theorem page_answered {t : Service × TaskId} {page : Page} (hs : s.Lawful) (hb : b.Filed)
    (hL : L.Exists b) (hpage : Page.numbered pageId size = .ok page)
    (ht : s.submit (L.operation pageId size) = t) (hquiet : t.1.Undisturbed b actions) :
    (((t.1.run actions).tasks.find? t.2).isSome → actions.countP (·.advances t.2) < 6) ∧
    ∀ last how, (t.1.run actions).ended? t.2 last = some how →
      how = .answered (L.answer (L.page b size pageId)) := by
  have hkeeps := Listing.keeps hb hL hpage s.settings.policy
  have huncut := L.uncut pageId size s.settings.timeout s.now
  constructor
  · intro hlive
    obtain ⟨task, htask⟩ := Option.isSome_iff_exists.mp hlive
    have hwithin := hs.within ht hkeeps huncut hquiet (Rules.browsing_prompt b)
      (L.within hpage s.settings.policy) task htask
    have := hwithin.pos
    omega
  · intro last how hended
    obtain ⟨h, got, rfl, rfl, -⟩ := answered_of_ended hs ht hkeeps huncut hquiet hended
    rw [Listing.window_eq_page hpage]

/-- A client who is alone disturbs nothing while he waits for a page. -/
theorem undisturbed_turns {t : Service × TaskId} {page : Page} (hs : s.Lawful) (hb : b.Filed)
    (hL : L.Exists b) (hpage : Page.numbered pageId size = .ok page)
    (ht : s.submit (L.operation pageId size) = t) (hquiet : s.ledger.Quiet b) (n : Nat) :
    t.1.Undisturbed b (turns t.2 n) := by
  induction n with
  | zero =>
    subst ht
    exact undisturbed_nil.mpr hquiet
  | succ n ih =>
    rw [turns, List.replicate_succ', undisturbed_append, undisturbed_cons, undisturbed_nil]
    refine ⟨ih, ih.last, ?_⟩
    change ((t.1.run (turns t.2 n)).step (.advance t.2)).ledger.Quiet b
    have hkeeps := Listing.keeps hb hL hpage s.settings.policy
    cases hgone : (t.1.run (turns t.2 n)).tasks.find? t.2 with
    | none =>
      rw [step_of_absent rfl hgone]
      exact ih.last
    | some task =>
      obtain ⟨h, -, task', view, htask, hattached, hk⟩ :=
        (hs.came ht hkeeps ih).live (by rw [hgone]; rfl)
      rw [ledger_advance htask]
      exact hk.quiet hattached ((hs.of_submit ht).run _).ledger ih.last

/-- A client who is alone gets the page. -/
theorem page_obtained {page : Page} (hs : s.Lawful) (hb : b.Filed) (hL : L.Exists b)
    (hpage : Page.numbered pageId size = .ok page) (hquiet : s.ledger.Quiet b) :
    ∃ call, s.Undisturbed b call ∧
      s.Calls (L.operation pageId size) call (L.answer (page.window (L.rows b))) := by
  obtain ⟨t, ht⟩ : ∃ t, s.submit (L.operation pageId size) = t := ⟨_, rfl⟩
  have hturns := undisturbed_turns hs hb hL hpage ht hquiet
  have hstart : (t.1.run (turns t.2 0)).tasks.find? t.2 ≠ none := by
    have hfound := find?_submit s (L.operation pageId size)
    rw [ht] at hfound
    intro hnone
    exact Option.some_ne_none _ (hfound.symm.trans hnone)
  have hend : (t.1.run (turns t.2 6)).tasks.find? t.2 = none := by
    by_contra hne
    have hlive := Option.isSome_iff_ne_none.mpr hne
    have hfewer := (page_answered hs hb hL hpage ht (hturns 6)).1 hlive
    simp [turns, Action.advances] at hfewer
  -- In one of the turns the task goes, and nothing else than its answer makes it go.
  obtain ⟨n, hlive, hgone⟩ := Nat.exists_not_and_succ_of_not_zero_of_exists
    (p := fun n => (t.1.run (turns t.2 n)).tasks.find? t.2 = none) hstart ⟨6, hend⟩
  have hsucc : turns t.2 (n + 1) = turns t.2 n ++ [.advance t.2] := List.replicate_succ'
  rw [hsucc, run_concat] at hgone
  obtain ⟨-, -, -, ⟨a, -, hended, rfl⟩ | ⟨habort, -⟩⟩ :=
    hs.ends_uncut ht (Listing.keeps hb hL hpage s.settings.policy) (L.uncut pageId size _ _)
      (hturns n) (Option.isSome_iff_ne_none.mpr hlive) hgone
  · refine ⟨.submit (L.operation pageId size) :: (turns t.2 n ++ [.advance t.2]), ?_,
      turns t.2 n, .advance t.2, rfl, by rw [ht]; exact hended⟩
    rw [undisturbed_cons, ← hsucc]
    refine ⟨hquiet, ?_⟩
    rw [← ht] at hturns ⊢
    exact hturns (n + 1)
  · cases habort

/-- A client asks for the pages of a listing from this one on, one after the other, and gets these
rows, while others do what does not disturb him. -/
inductive Browses (b : Books) (L : Listing) (size : Int) : Service → Int → List (List L.Row) → Prop
  | stop (s : Service) (pageId : Int) : Browses b L size s pageId []
  | next {s : Service} {pageId : Int} {call between : List Action} {rows : List L.Row}
      {pages : List (List L.Row)} (quiet : s.Undisturbed b (call ++ between))
      (answered : s.Calls (L.operation pageId size) call (L.answer rows))
      (rest : Browses b L size (s.run (call ++ between)) (pageId + 1) pages) :
      Browses b L size s pageId (rows :: pages)

/-- What an undisturbed call for a page is answered is the page. -/
theorem Calls.page {page : Page} {rows : List L.Row} {between : List Action} (hs : s.Lawful)
    (hb : b.Filed) (hL : L.Exists b) (hpage : Page.numbered pageId size = .ok page)
    (hquiet : s.Undisturbed b (call ++ between))
    (hcall : s.Calls (L.operation pageId size) call (L.answer rows)) :
    rows = L.page b size pageId := by
  obtain ⟨post, last, rfl, hended⟩ := hcall
  have hpost : (s.submit (L.operation pageId size)).1.Undisturbed b post := by
    rintro pre rest rfl
    exact hquiet (.submit (L.operation pageId size) :: pre) (rest ++ [last] ++ between) (by simp)
  have hanswer := (page_answered hs hb hL hpage rfl hpost).2 last _ hended
  exact L.answer_injective (Settled.answered.inj hanswer)

/-- Who browses gets one page after the other. -/
theorem Browses.pages {pages : List (List L.Row)} (h : Browses b L size s pageId pages)
    (hs : s.Lawful) (hb : b.Filed) (hL : L.Exists b) (hsize : 5 ≤ size ∧ size ≤ 10)
    (hfirst : 1 ≤ pageId) :
    pages = (List.range pages.length).map fun k : Nat => L.page b size (pageId + k) := by
  induction h with
  | stop s pageId => rfl
  | @next s pageId call between rows pages quiet answered rest ih =>
    have hpage := Page.numbered_eq_ok_iff.mpr ⟨hfirst, hsize, rfl⟩
    have hrows := answered.page hs hb hL hpage quiet
    have hrest := ih (hs.run _) (by omega)
    rw [List.length_cons, List.range_succ_eq_map, List.map_cons, List.map_map, hrows]
    congr 1
    · simp
    · rw [hrest]
      simp only [List.length_map, List.length_range]
      apply List.map_congr_left
      intro k _
      simp only [Function.comp_apply, Nat.cast_succ]
      congr 1
      omega

/-- A client who is alone gets as many pages as he asks for. -/
theorem exists_browses (hs : s.Lawful) (hb : b.Filed) (hL : L.Exists b)
    (hsize : 5 ≤ size ∧ size ≤ 10) (hfirst : 1 ≤ pageId) (hquiet : s.ledger.Quiet b) (n : Nat) :
    ∃ pages, Browses b L size s pageId pages ∧ pages.length = n := by
  induction n generalizing s pageId with
  | zero => exact ⟨[], .stop s pageId, rfl⟩
  | succ n ih =>
    have hpage := Page.numbered_eq_ok_iff.mpr ⟨hfirst, hsize, rfl⟩
    obtain ⟨call, hcall, hanswered⟩ := page_obtained hs hb hL hpage hquiet
    rw [← List.append_nil call] at hcall
    obtain ⟨pages, hpages, rfl⟩ := ih (hs.run (call ++ [])) (by omega : 1 ≤ pageId + 1) hcall.last
    exact ⟨_ :: pages, .next hcall hanswered hpages, rfl⟩

/-- While nobody commits anything and the store does not fail, pages cut a listing into pieces. The
full listing is in ascending order and has exactly the committed rows that belong to it. Each call
for a page ends within six steps of its own and is answered the page; so the pages from the first to
the last one that a client has asked for are, put together, the beginning of the full listing. A
client who is alone gets as many pages as he asks for. Every row is on one page only, and pages
after the end are empty. No page number leads to an offset that is out of range. -/
theorem pages_partition (hs : s.Reachable) (L : Listing) (hL : L.Exists s.ledger.books) {size : Int}
    (hsize : (Page.numbered 1 size).isOk = true) :
    ((L.rows s.ledger.books).Pairwise (L.rowId · < L.rowId ·) ∧
      ∀ r, r ∈ L.rows s.ledger.books ↔ L.Lists s.ledger.books r) ∧
    (∀ pages, Browses s.ledger.books L size s 1 pages →
      pages.flatten = (L.rows s.ledger.books).take (pages.length * size.toNat)) ∧
    (s.ledger.Quiet s.ledger.books → ∀ n, ∃ pages,
      Browses s.ledger.books L size s 1 pages ∧ pages.length = n) ∧
    (∀ pageId, 1 ≤ pageId → ∀ t, s.submit (L.operation pageId size) = t →
      ∀ actions, t.1.Undisturbed s.ledger.books actions →
        (((t.1.run actions).tasks.find? t.2).isSome → actions.countP (·.advances t.2) < 6) ∧
        ∀ last how, (t.1.run actions).ended? t.2 last = some how →
          how = .answered (L.answer (L.page s.ledger.books size pageId))) ∧
    (∀ r ∈ L.rows s.ledger.books, ∃! k : Nat, r ∈ L.page s.ledger.books size (k + 1)) ∧
    (∀ k : Nat, (L.rows s.ledger.books).length ≤ k * size.toNat →
      L.page s.ledger.books size (k + 1) = []) ∧
    ∀ pageId, Word.int32.Holds pageId →
      Word.int64.Holds (pageId - 1) ∧ Word.int64.Holds ((pageId - 1) * size) ∧
      ∀ page, Page.numbered pageId size = .ok page →
        page.offset = (pageId - 1) * size ∧ (page.offset.toNat : Int) = page.offset := by
  have hb := hs.filed.books
  obtain ⟨first, hfirst⟩ : ∃ first, Page.numbered 1 size = .ok first := by
    cases hpage : Page.numbered 1 size with
    | error e =>
      rw [hpage] at hsize
      cases hsize
    | ok first => exact ⟨first, rfl⟩
  obtain ⟨-, hrange, -⟩ := Page.numbered_eq_ok_iff.mp hfirst
  have hpages : ∀ k : Nat, L.page s.ledger.books size (k + 1) =
      ((L.rows s.ledger.books).drop (k * size.toNat)).take size.toNat :=
    Listing.page_succ (by omega)
  refine ⟨⟨Listing.rows_ascending hb, fun r => Listing.mem_rows_iff hb⟩, ?_, ?_, ?_, ?_, ?_, ?_⟩
  · intro pages hbrowses
    have hall := hbrowses.pages hs.lawful hb hL hrange (by omega)
    rw [hall, ← List.flatMap_def, List.length_map, List.length_range, ← flatMap_pieces]
    simp only [Int.add_comm 1, hpages]
  · intro hquiet n
    exact exists_browses hs.lawful hb hL hrange (by omega) hquiet n
  · intro pageId hpageId t ht actions hquiet
    have hpage := Page.numbered_eq_ok_iff.mpr ⟨hpageId, hrange, rfl⟩
    exact page_answered hs.lawful hb hL hpage ht hquiet
  · intro r hr
    simp only [hpages]
    exact existsUnique_piece (Listing.rows_nodup hb) (by omega) hr
  · intro k hk
    rw [hpages, List.drop_eq_nil_of_le hk, List.take_nil]
  · rintro pageId ⟨hlower, hupper⟩
    simp only [Word.int32] at hlower hupper
    have hoffset : Word.int64.Holds ((pageId - 1) * size) := by
      simp only [Word.Holds, Word.int64]
      constructor <;> nlinarith
    refine ⟨by simp only [Word.Holds, Word.int64]; omega, hoffset, ?_⟩
    intro page hpage
    obtain ⟨hpageId, -, rfl⟩ := Page.numbered_eq_ok_iff.mp hpage
    refine ⟨rfl, Int.toNat_of_nonneg ?_⟩
    exact Int.mul_nonneg (by omega) (by omega)

/-- The second page of the entries on the first account is asked for. -/
def nextEntryPage (id : TaskId) : List Action :=
  .submit (.listEntries 1 2 5) :: (turns id 4 ++ [.advance id])

set_option maxRecDepth 8000 in
/-- After five payments there are two pages of entries on the first account, and together they are
all its entries. -/
theorem coins_pages :
    ∃ first second : List Entry, first.length = 5 ∧ second.length = 1 ∧
      Browses (sampleAfter coins).ledger.books (.entries 1) 5 (sampleAfter coins) 1
        [first, second] ∧
      [first, second].flatten = ((sampleAfter coins).ledger.books.entriesOf 1).take 10 := by
  have hs : (sampleAfter coins).Reachable := ⟨_, coins, rfl⟩
  have hL : (Listing.entries 1).Exists (sampleAfter coins).ledger.books :=
    show ((sampleAfter coins).ledger.books.accounts.find? 1).isSome from rfl
  have hsize : (Page.numbered 1 5).isOk = true := rfl
  obtain ⟨-, hpages, -⟩ := pages_partition hs (.entries 1) hL hsize
  obtain ⟨first, hfirst, hfull⟩ : ∃ rows : List Entry,
      (sampleAfter coins).Calls (.listEntries 1 1 5) (entryPage 8) (.entries (.ok rows)) ∧
      rows.length = 5 := ⟨_, ⟨_, _, rfl, rfl⟩, rfl⟩
  obtain ⟨second, hsecond, hrest⟩ : ∃ rows : List Entry,
      ((sampleAfter coins).run (entryPage 8 ++ [])).Calls (.listEntries 1 2 5) (nextEntryPage 9)
        (.entries (.ok rows)) ∧ rows.length = 1 := ⟨_, ⟨_, _, rfl, rfl⟩, rfl⟩
  have hquiet : (sampleAfter coins).Undisturbed (sampleAfter coins).ledger.books
      (entryPage 8 ++ []) := by decide
  have hquiet' : ((sampleAfter coins).run (entryPage 8 ++ [])).Undisturbed
      (sampleAfter coins).ledger.books (nextEntryPage 9 ++ []) := by decide
  have hbrowses : Browses (sampleAfter coins).ledger.books (.entries 1) 5 (sampleAfter coins) 1
      [first, second] := .next hquiet hfirst (.next hquiet' hsecond (.stop _ _))
  exact ⟨first, second, hfull, hrest, hbrowses, hpages _ hbrowses⟩

end Service
end FundsLedger
