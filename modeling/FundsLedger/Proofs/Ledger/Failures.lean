import FundsLedger.Proofs.Ledger.Journal
import FundsLedger.Proofs.Ledger.Rereading
import FundsLedger.Proofs.Ledger.Trail
import FundsLedger.Proofs.Ledger.Writes

/-!
Failed calls. A call that fails may have spent an identifier or waited for a lock, but it stages
nothing, and no call touches the books. So a unit of work can go on after failures, and what it
publishes in the end is what its other calls have written. What an open unit of work has staged is
read off the calls that it was answered, by one induction on the run for all such facts.
-/

namespace FundsLedger

/-- The same rows are staged. -/
structure UnitOfWork.SameRows (w w' : UnitOfWork) : Prop where
  accounts : w.accounts = w'.accounts
  entries : w.entries = w'.entries
  transfers : w.transfers = w'.transfers

namespace Answered

/-- The account that the call has created, as it was answered. -/
def created? : Answered → Option Account
  | ⟨.createAccount .., .ok a⟩ => some a
  | _ => none

/-- The entry that the call has appended. -/
def appended? : Answered → Option Entry
  | ⟨.appendEntry .., .ok e⟩ => some e
  | _ => none

/-- The transfer that the call has appended. -/
def transferred? : Answered → Option Transfer
  | ⟨.appendTransfer .., .ok t⟩ => some t
  | _ => none

variable {c : Call} {e : StoreError}

theorem created?_error : (⟨c, .error e⟩ : Answered).created? = none := by cases c <;> rfl

theorem appended?_error : (⟨c, .error e⟩ : Answered).appended? = none := by cases c <;> rfl

theorem transferred?_error : (⟨c, .error e⟩ : Answered).transferred? = none := by cases c <;> rfl

/-- A call that has created an account has opened it under its identifier. -/
theorem created?_eq_none {answer : Answered} (h : ∀ id, answer.opening? id = none) :
    answer.created? = none := by
  obtain ⟨c, r⟩ := answer
  cases r with
  | error e => exact created?_error
  | ok a =>
    cases c with
    | createAccount owner currency balance =>
      have hopening := h a.id
      simp [opening?] at hopening
    | _ => rfl

end Answered

/-- The calls that succeeded. -/
def successesOf (calls : List Answered) : List Answered := calls.filter (·.result.isOk)

/-- The accounts that calls have created under the identifier, as they were answered. -/
def createdOf (id : AccountId) (calls : List Answered) : List Account :=
  (calls.filterMap (·.created?)).filter (·.id = id)

/-- What calls have made of the account under an identifier: there is none, or they have created it,
or it was there. Balances aside it is the account that was created or was there, and to its balance
comes what the calls have added, each of them once. -/
inductive Amends (id : AccountId) (calls : List Answered) :
    Option Account → Option Account → Prop
  | absent (created : createdOf id calls = []) (deltas : deltasOf id calls = []) :
      Amends id calls none none
  | created {a a' : Account} (created : createdOf id calls = [a]) (same : a'.Same a)
      (gain : a'.balance.units = a.balance.units + gainOf id calls) : Amends id calls none (some a')
  | changed {a a' : Account} (created : createdOf id calls = []) (same : a'.Same a)
      (gain : a'.balance.units = a.balance.units + gainOf id calls) :
      Amends id calls (some a) (some a')

/-- The writes of the calls have come to the books, and nothing else. -/
structure Publishes (calls : List Answered) (b b' : Books) : Prop where
  accounts : ∀ id, Amends id calls (b.accounts.find? id) (b'.accounts.find? id)
  entries : b'.entries.values.Perm (b.entries.values ++ calls.filterMap (·.appended?))
  transfers : b'.transfers.values.Perm (b.transfers.values ++ calls.filterMap (·.transferred?))

theorem createdOf_append {id : AccountId} {calls calls' : List Answered} :
    createdOf id (calls ++ calls') = createdOf id calls ++ createdOf id calls' := by
  simp [createdOf]

theorem createdOf_of_none {id : AccountId} {answer : Answered} (h : answer.created? = none) :
    createdOf id [answer] = [] := by
  simp [createdOf, h]

/-! ## Calls that failed -/

/-- Whatever failed calls do not contribute to can be read off the calls that succeeded. -/
theorem filterMap_successesOf {β : Type} {f : Answered → Option β}
    (hf : ∀ c e, f ⟨c, .error e⟩ = none) (calls : List Answered) :
    (successesOf calls).filterMap f = calls.filterMap f := by
  rw [successesOf, List.filterMap_filter]
  congr 1
  funext ⟨c, r⟩
  cases r with
  | error e => exact (hf c e).symm
  | ok a => rfl

theorem createdOf_successesOf (id : AccountId) (calls : List Answered) :
    createdOf id (successesOf calls) = createdOf id calls := by
  rw [createdOf, filterMap_successesOf fun _ _ => Answered.created?_error]
  rfl

theorem deltasOf_successesOf (id : AccountId) (calls : List Answered) :
    deltasOf id (successesOf calls) = deltasOf id calls :=
  filterMap_successesOf (fun _ _ => Answered.delta?_error) calls

theorem Amends.of_successes {id : AccountId} {calls : List Answered} {x y : Option Account}
    (h : Amends id calls x y) : Amends id (successesOf calls) x y := by
  have hgain : gainOf id (successesOf calls) = gainOf id calls := by
    rw [gainOf, deltasOf_successesOf]
    rfl
  cases h with
  | absent created deltas =>
    exact .absent (by rw [createdOf_successesOf, created]) (by rw [deltasOf_successesOf, deltas])
  | created created same gain =>
    exact .created (by rw [createdOf_successesOf, created]) same (by rw [hgain, gain])
  | changed created same gain =>
    exact .changed (by rw [createdOf_successesOf, created]) same (by rw [hgain, gain])

theorem Books.record_error (b : Books) (c : Call) (e : StoreError) :
    b.record ⟨c, .error e⟩ = b := by
  cases c <;> rfl

theorem foldl_record_successesOf (calls : List Answered) (b : Books) :
    (successesOf calls).foldl Books.record b = calls.foldl Books.record b := by
  induction calls generalizing b with
  | nil => rfl
  | cons answer rest ih =>
    obtain ⟨c, r⟩ := answer
    cases r with
    | error e =>
      rw [List.foldl_cons, Books.record_error]
      exact ih b
    | ok a => exact ih _

theorem UnitOfWork.record_entries (w : UnitOfWork) (answer : Answered) :
    (w.record answer).entries = w.entries ++ answer.appended?.toList := by
  obtain ⟨c, r⟩ := answer
  cases r with
  | error e =>
    rw [UnitOfWork.record_error, Answered.appended?_error]
    exact (List.append_nil _).symm
  | ok a =>
    cases c with
    | appendEntry => rfl
    | _ => exact (List.append_nil _).symm

theorem UnitOfWork.record_transfers (w : UnitOfWork) (answer : Answered) :
    (w.record answer).transfers = w.transfers ++ answer.transferred?.toList := by
  obtain ⟨c, r⟩ := answer
  cases r with
  | error e =>
    rw [UnitOfWork.record_error, Answered.transferred?_error]
    exact (List.append_nil _).symm
  | ok a =>
    cases c with
    | appendTransfer => rfl
    | _ => exact (List.append_nil _).symm

/-- Calls that all failed stage nothing. -/
theorem foldl_record_of_failed {calls : List Answered} (h : ∀ a ∈ calls, a.result.isOk = false)
    (w : UnitOfWork) : calls.foldl UnitOfWork.record w = w := by
  induction calls with
  | nil => rfl
  | cons answer rest ih =>
    obtain ⟨hanswer, hrest⟩ := List.forall_mem_cons.mp h
    obtain ⟨c, r⟩ := answer
    cases r with
    | error e =>
      rw [List.foldl_cons, UnitOfWork.record_error]
      exact ih hrest
    | ok a => cases hanswer

namespace Ledger

variable {l l' : Ledger} {u : UnitId} {w w' : UnitOfWork} {c : Call} {j : List Occurrence}

/-- Carrying out a call that fails stages nothing. -/
theorem unit_perform_of_failed {e : StoreError} (h : (l.perform w c).result = .error e) :
    (l.perform w c).unit = w := by
  rw [l.perform_record w c, h, UnitOfWork.record_error]

/-- A call that fails leaves the rows of its unit of work as they are. -/
theorem Called.failed {o : Outcome c} {e : StoreError} (h : l.Called u c l' o)
    (ho : o = .answered (.error e)) :
    ∃ w w', l.units.find? u = some w ∧ l'.units.find? u = some w' ∧ w'.SameRows w := by
  cases h with
  | @refused w e' isOpen idle refusal => exact ⟨w, w, isOpen, isOpen, rfl, rfl, rfl⟩
  | @performed w asked isOpen ready granted =>
    have hresult : (asked.perform w c).result = .error e := Outcome.answered.inj ho
    have hunit : (asked.perform w c).unit = w := unit_perform_of_failed hresult
    refine ⟨w, { (asked.perform w c).unit with pending := none }, isOpen, by simp [finish], ?_⟩
    rw [hunit]
    exact ⟨rfl, rfl, rfl⟩
  | queued isOpen idle row known taken => cases ho
  | waiting isOpen pending row taken => cases ho

/-- What a step shows as the answer to a call is how the call went. -/
theorem called_of_answered {a : Action} {r : c.Result}
    (h : (l.step a).2 = .answered u ⟨c, r⟩) : l.Called u c (l.step a).1 (.answered r) := by
  have of_reply : ∀ {v : UnitId} {d : Call} {o : Outcome d} {l' : Ledger}, l.Called v d l' o →
      o.reply v = .answered u ⟨c, r⟩ → l.Called u c l' (.answered r) := by
    intro v d o l' hcalled hreply
    cases o with
    | answered r' =>
      cases hreply
      exact hcalled
    | waits => cases hreply
  cases a with
  | call v d =>
    simp only [step] at h ⊢
    split at h
    · rename_i l' o hcall
      exact of_reply (call?_called hcall) h
    · cases h
  | resume v =>
    simp only [step] at h ⊢
    split at h
    · cases h
    · split at h
      · rename_i d _ l' o hresume
        exact of_reply (resume?_called hresume) h
      · cases h
  | commit v => simp only [step] at h; split at h <;> cases h
  | rollback v => simp only [step] at h; split at h <;> cases h
  | _ => cases h

theorem step_call_books (l : Ledger) (u : UnitId) (c : Call) :
    (l.step (.call u c)).1.books = l.books := by
  simp only [step]
  split
  · rename_i l' o hcall
    exact (call?_called hcall).books
  · rfl

theorem step_resume_books (l : Ledger) (u : UnitId) : (l.step (.resume u)).1.books = l.books := by
  simp only [step]
  split
  · rfl
  · split
    · rename_i l' o hresume
      exact (resume?_called hresume).books
    · rfl

/-! ## What is read off the answers -/

/-- A relation between the calls that a unit of work was answered and what it has staged, which
holds when it begins and is kept by every call. -/
structure Carries (P : List Answered → UnitOfWork → Prop) : Prop where
  fresh : P [] UnitOfWork.fresh
  pending : ∀ {calls w} (p : Option Call), P calls w → P calls { w with pending := p }
  refused : ∀ {calls w} (c : Call) (e : StoreError), P calls w → P (calls ++ [⟨c, .error e⟩]) w
  performed : ∀ {calls w} (l : Ledger) (c : Call), P calls w →
    P (calls ++ [⟨c, (l.perform w c).result⟩]) (l.perform w c).unit

/-- The relation holds of every open unit of work, and those to come have no calls yet. -/
structure Carried (P : List Answered → UnitOfWork → Prop) (l : Ledger) (j : List Occurrence) :
    Prop where
  units : ∀ u w, l.units.find? u = some w → P (answersOf u j) w
  numbered : ∀ u : Int, l.begins < u → answersOf u j = []

namespace Carries

variable {P : List Answered → UnitOfWork → Prop}

/-- A call that is answered concerns its own unit of work only. -/
theorem answered {answer : Answered} {m : Move} (h : Carried P l j) (hl : l.Lawful)
    (isOpen : l.units.find? u = some w) (hm : l.Makes m l')
    (hself : ∀ v, l'.units.find? u = some v → P (answersOf u j ++ [answer]) v)
    (hother : ∀ u', u' ≠ u → l'.units.find? u' = l.units.find? u') :
    Carried P l' (j ++ [.answered u answer]) where
  units u' v hv := by
    rw [answersOf_answered]
    by_cases hu : u' = u
    · subst hu
      rw [if_pos rfl]
      exact hself v hv
    · rw [hother u' hu] at hv
      rw [if_neg (Ne.symm hu), List.append_nil]
      exact h.units u' v hv
  numbered u' hu' := by
    have hle : (l.begins : Int) ≤ l'.begins := Int.ofNat_le.mpr hm.begins_le
    have hopen := hl.orderly.numbered u (by simp [isOpen])
    have hne : u ≠ u' := Int.ne_of_lt (by omega)
    rw [answersOf_answered, h.numbered u' (by omega), if_neg hne]
    rfl

/-- A step that answers no call leaves what is staged as it is, or a unit of work begins or ends. -/
theorem silent {m : Move} (hP : Carries P) (h : Carried P l j) (hm : l.Makes m l')
    (unperformed : ∀ u c, m ≠ .performed u c) (unpublished : ∀ u, m ≠ .published u) :
    Carried P l' j := by
  obtain ⟨-, hunits⟩ := hm.leaves unperformed unpublished
  refine ⟨fun u v hv => ?_,
    fun u hu => h.numbered u (Int.lt_of_le_of_lt (Int.ofNat_le.mpr hm.begins_le) hu)⟩
  have hopen : (l'.units.find? u).isSome := by rw [hv]; rfl
  rcases hunits u with hretains | hblanks
  · obtain ⟨w, hw⟩ := Option.isSome_iff_exists.mp (hretains.isOpen hopen)
    obtain ⟨haccounts, hentries, htransfers, -, -⟩ := hretains
    rw [unit_of_find? hv, unit_of_find? hw] at haccounts hentries htransfers
    have hrows : v = { w with pending := v.pending } := by
      cases v
      cases w
      cases haccounts
      cases hentries
      cases htransfers
      rfl
    rw [hrows]
    exact hP.pending v.pending (h.units u w hw)
  · have hfresh := hblanks.unit
    rw [unit_of_find? hv] at hfresh
    rw [h.numbered u (hblanks.begun hopen), hfresh]
    exact hP.fresh

theorem logs {o : Option Occurrence} (hP : Carries P) (h : Carried P l j) (hl : l.Lawful)
    (hlogs : l.Logs o l') : Carried P l' (j ++ o.toList) := by
  cases hlogs with
  | @refused u c w e isOpen =>
    refine answered h hl isOpen (.refl l) (fun v hv => ?_) fun _ _ => rfl
    exact hP.refused c e (h.units u v hv)
  | @performed u c w asked isOpen ready granted =>
    refine answered h hl isOpen (.performed isOpen ready granted) (fun v hv => ?_) fun u' hne => ?_
    · simp only [finish, Table.find?_insert, if_true, Option.some.injEq] at hv
      rw [← hv]
      exact hP.pending none (hP.performed asked c (h.units u w isOpen))
    · simp [finish, granted.units, hne]
  | @published u w isOpen idle unique =>
    have hm := Makes.published isOpen idle unique
    refine ⟨fun u' v hv => ?_, fun u' hu' => ?_⟩
    · rw [Option.toList_some, answersOf_committed]
      rcases hm.opens (by rw [hv]; rfl) with hopen | hopened
      · simp only [close, Table.find?_erase] at hv
        split at hv
        · cases hv
        · exact h.units u' v hv
      · cases hopened
    · rw [Option.toList_some, answersOf_committed]
      exact h.numbered u' hu'
  | silent makes unperformed unpublished =>
    rw [Option.toList_none, List.append_nil]
    exact hP.silent h makes unperformed unpublished

theorem run (hP : Carries P) (h : Carried P l j) (hl : l.Lawful) (actions : List Action) :
    Carried P (l.run actions) (j ++ l.journal actions) := by
  induction actions generalizing l j with
  | nil => simpa [journal, Ledger.run] using h
  | cons a rest ih =>
    have hlogs := l.step_logs a
    obtain ⟨m, hm⟩ := hlogs.makes
    rw [journal, ← List.append_assoc]
    exact ih (hP.logs h hl hlogs) (hl.makes hm)

/-- What every call keeps holds of every open unit of work in every run. -/
theorem of_run (hP : Carries P) {actions : List Action} (hl : empty.run actions = l)
    (isOpen : l.units.find? u = some w) : P (answersOf u (empty.journal actions)) w := by
  have hstart : Carried P empty [] := ⟨fun u w hw => by simp [Ledger.empty] at hw, fun _ _ => rfl⟩
  have h := hP.run hstart .empty actions
  rw [hl, List.nil_append] at h
  exact h.units u w isOpen

end Carries

/-- What an open unit of work has staged is the record of its calls. -/
theorem carries_record : Carries fun calls w =>
    { w with pending := none } = calls.foldl UnitOfWork.record UnitOfWork.fresh where
  fresh := rfl
  pending p h := h
  refused {calls w} c e h := by
    rw [List.foldl_append, ← h]
    exact (UnitOfWork.record_error _ c e).symm
  performed {calls w} l c h := by
    have hrecord := l.perform_record { w with pending := none } c
    rw [perform_pending] at hrecord
    rw [List.foldl_append, ← h]
    exact hrecord

/-- The entries and transfers that are staged are those that the calls have answered. -/
theorem carries_appended : Carries fun calls w =>
    w.entries = calls.filterMap (·.appended?) ∧ w.transfers = calls.filterMap (·.transferred?) where
  fresh := ⟨rfl, rfl⟩
  pending p h := h
  refused {calls w} c e h := by
    simpa [Answered.appended?_error, Answered.transferred?_error] using h
  performed {calls w} l c h := by
    rw [l.perform_record w c, UnitOfWork.record_entries, UnitOfWork.record_transfers,
      List.filterMap_append, List.filterMap_append, ← h.1, ← h.2]
    exact ⟨rfl, rfl⟩

/-- An account is created with the balance that the call gives. -/
theorem carries_openings (id : AccountId) : Carries fun calls _ =>
    openingsOf id calls = (createdOf id calls).map (·.balance) where
  fresh := rfl
  pending p h := h
  refused {calls w} c e h := by
    rw [openingsOf_append, createdOf_append, createdOf_of_none Answered.created?_error, h]
    simp [openingsOf, Answered.opening?_error]
  performed {calls w} l c h := by
    rw [openingsOf_append, createdOf_append, List.map_append, h]
    congr 1
    have hposts := l.perform_posts w c
    generalize (⟨c, (l.perform w c).result⟩ : Answered) = answer, (l.perform w c).drawn = d,
      (l.perform w c).unit = w' at hposts
    cases hposts with
    | opened owner currency balance unique =>
      generalize idAfter l.drawn.accounts = next
      by_cases hid : next = id
      · simp [openingsOf, createdOf, Answered.opening?, Answered.created?, hid]
      · simp [openingsOf, createdOf, Answered.opening?, Answered.created?, hid]
    | changed row delta a sum visible adds => rfl
    | other accounts opening delta place =>
      rw [createdOf_of_none (Answered.created?_eq_none opening)]
      simp [openingsOf, opening]

/-- An account that a unit of work has created is staged, with another balance at most. -/
theorem carries_created (id : AccountId) : Carries fun calls w =>
    ∀ a, (createdOf id calls).getLast? = some a →
      ∃ a', w.accounts.find? id = some a' ∧ a'.Same a where
  fresh a ha := by cases ha
  pending p h := h
  refused {calls w} c e h a ha := by
    rw [createdOf_append, createdOf_of_none Answered.created?_error, List.append_nil] at ha
    exact h a ha
  performed {calls w} l c h a ha := by
    have hposts := l.perform_posts w c
    generalize (⟨c, (l.perform w c).result⟩ : Answered) = answer, (l.perform w c).drawn = d,
      (l.perform w c).unit = w' at hposts ha
    rw [createdOf_append] at ha
    cases hposts with
    | opened owner currency balance unique =>
      generalize idAfter l.drawn.accounts = next at ha ⊢
      rw [Table.find?_insert]
      by_cases hid : id = next
      · rw [if_pos hid]
        simp only [createdOf, Answered.created?, List.filterMap_cons, List.filterMap_nil, hid,
          decide_true, List.filter_cons_of_pos, List.filter_nil, List.getLast?_concat,
          Option.some.injEq] at ha
        exact ⟨_, rfl, ha ▸ .refl _⟩
      · rw [if_neg hid]
        simp only [createdOf, Answered.created?, List.filterMap_cons, List.filterMap_nil,
          Ne.symm hid, decide_false, Bool.false_eq_true, not_false_eq_true,
          List.filter_cons_of_neg, List.filter_nil, List.append_nil] at ha
        exact h a ha
    | changed row delta b sum visible adds =>
      have hold := h a (by simpa [createdOf, Answered.created?] using ha)
      obtain ⟨a', hfind, hsame⟩ := hold
      rw [Table.find?_insert]
      by_cases hid : id = row
      · rw [if_pos hid]
        -- The row is staged, so it is the one that the call has found.
        rw [UnitOfWork.visible?, ← hid, hfind, Option.some_or] at visible
        cases visible
        exact ⟨_, rfl, hsame.id, hsame.owner, hsame.currency, hsame.createdAt⟩
      · rw [if_neg hid]
        exact ⟨a', hfind, hsame⟩
    | other accounts opening delta place =>
      rw [createdOf_of_none (Answered.created?_eq_none opening), List.append_nil] at ha
      rw [accounts]
      exact h a ha

/-! ## What is published -/

/-- What publishing makes of an account is what the calls of the unit of work have made of it. -/
theorem amends_publish {actions : List Action} (hl : empty.run actions = l)
    (hr : l.drawn.InRange) (isOpen : l.units.find? u = some w) (id : AccountId) :
    Amends id (answersOf u (empty.journal actions)) (l.books.accounts.find? id)
      ((w.publish l.books).accounts.find? id) := by
  have hs : l.Sound := (Reachable.lawful ⟨actions, hl.symm⟩).sound hr
  have hopenings := (carries_openings id).of_run hl isOpen
  have hcreated := (carries_created id).of_run hl isOpen
  have hkept := hs.keptIn_publish isOpen id
  have hgains : Gains id (answersOf u (empty.journal actions)) (l.books.accounts.find? id)
      ((w.publish l.books).accounts.find? id) := by
    subst hl
    have hrecorded := Recorded.empty.run .empty actions hr
    rw [List.nil_append] at hrecorded
    rw [UnitOfWork.publish, Table.find?_overlay]
    exact hrecorded.units u w isOpen id
  generalize hx : l.books.accounts.find? id = x, hy : (w.publish l.books).accounts.find? id = y
    at hgains hkept
  have created_nil : openingsOf id (answersOf u (empty.journal actions)) = [] →
      createdOf id (answersOf u (empty.journal actions)) = [] := by
    intro hnone
    rw [hopenings] at hnone
    exact List.map_eq_nil_iff.mp hnone
  cases hgains with
  | absent openings deltas => exact .absent (created_nil openings) deltas
  | @opened a' balance openings gain =>
    rw [hopenings] at openings
    obtain ⟨a, hsole, rfl⟩ := List.map_eq_singleton_iff.mp openings
    obtain ⟨a'', hfind, hsame⟩ := hcreated a (by rw [hsole]; rfl)
    rw [UnitOfWork.publish, Table.find?_overlay, hfind] at hy
    cases hy
    exact .created hsole hsame gain
  | @changed a a' openings gain =>
    obtain ⟨a'', hfind, hsame⟩ := hkept a rfl
    cases hfind
    exact .changed (created_nil openings) hsame gain

/-- Rows that are published are the committed ones and those that were staged. -/
theorem values_publish_perm {α : Type} {id : α → Int} {drawn : Nat} {committed : Table α}
    {staged : UnitId → List α} (h : Numbered id drawn committed staged) (u : UnitId) :
    ((staged u).foldl (fun t r => t.insert (id r) r) committed).values.Perm
      (committed.values ++ staged u) := by
  have hlisted := h.orderById_publish u fun _ => true
  simp only [List.filter_true] at hlisted
  rw [← hlisted]
  exact orderById_perm _ _

theorem publishes_successes {actions : List Action} (hl : empty.run actions = l)
    (hr : l.drawn.InRange) (isOpen : l.units.find? u = some w) :
    Publishes (successesOf (answersOf u (empty.journal actions))) l.books (w.publish l.books) := by
  have hs : l.Sound := (Reachable.lawful ⟨actions, hl.symm⟩).sound hr
  obtain ⟨hentries, htransfers⟩ := carries_appended.of_run hl isOpen
  have hw := unit_of_find? isOpen
  constructor
  case accounts =>
    intro id
    exact (amends_publish hl hr isOpen id).of_successes
  case entries =>
    rw [filterMap_successesOf fun _ _ => Answered.appended?_error, ← hentries, ← hw]
    exact values_publish_perm hs.entries u
  case transfers =>
    rw [filterMap_successesOf fun _ _ => Answered.transferred?_error, ← htransfers, ← hw]
    exact values_publish_perm hs.transfers u

/-! ## Runs -/

theorem journal_append (l : Ledger) (as bs : List Action) :
    l.journal (as ++ bs) = l.journal as ++ (l.run as).journal bs := by
  induction as generalizing l with
  | nil => rfl
  | cons a rest ih =>
    rw [List.cons_append, journal, ih, journal, List.append_assoc]
    rfl

theorem answersOf_run {actions : List Action} (hl : empty.run actions = l) (u : UnitId)
    (rest : List Action) : answersOf u (empty.journal (actions ++ rest)) =
      answersOf u (empty.journal actions) ++ answersOf u (l.journal rest) := by
  rw [journal_append, hl]
  exact List.filterMap_append

/-- For as long as all its calls fail, a unit of work has the same rows staged, whatever others do
in the meantime. -/
theorem sameRows_of_failed {actions rest : List Action} (hl : empty.run actions = l)
    (isOpen : l.units.find? u = some w) (isOpen' : (l.run rest).units.find? u = some w')
    (hfailed : ∀ answer ∈ answersOf u (l.journal rest), answer.result.isOk = false) :
    w'.SameRows w := by
  have hbefore := carries_record.of_run hl isOpen
  have hrun : empty.run (actions ++ rest) = l.run rest := by rw [run_append, hl]
  have hafter := carries_record.of_run hrun isOpen'
  rw [answersOf_run hl, List.foldl_append, ← hbefore, foldl_record_of_failed hfailed] at hafter
  simp only [UnitOfWork.mk.injEq, and_true] at hafter
  exact ⟨hafter.1, hafter.2.1, hafter.2.2⟩

/-- A failed call leaves no trace. No call changes the books, one that fails leaves the rows that
its unit of work has staged as they are, and so do any number of failed calls whatever others do
between them; and a commit writes to the books, one after the other, what the calls that succeeded
have written. As long as no identifier has been given out twice, these are the accounts that they
have created, the entries and transfers that they have answered and on every account the sum of what
they have added to it. -/
theorem failures_leave_no_trace {actions : List Action} (hl : empty.run actions = l) (u : UnitId) :
    (∀ c, (l.step (.call u c)).1.books = l.books) ∧
    (l.step (.resume u)).1.books = l.books ∧
    (∀ a c e, (l.step a).2 = .answered u ⟨c, .error e⟩ →
      ∃ w w', l.units.find? u = some w ∧ (l.step a).1.units.find? u = some w' ∧ w'.SameRows w) ∧
    (∀ rest w w', l.units.find? u = some w → (l.run rest).units.find? u = some w' →
      (∀ answer ∈ answersOf u (l.journal rest), answer.result.isOk = false) → w'.SameRows w) ∧
    ((l.step (.commit u)).2 = .ended u (.ok ()) →
      (l.step (.commit u)).1.books =
        (successesOf (answersOf u (empty.journal actions))).foldl Books.record l.books ∧
      (l.drawn.InRange → Publishes (successesOf (answersOf u (empty.journal actions))) l.books
        (l.step (.commit u)).1.books)) := by
  refine ⟨l.step_call_books u, l.step_resume_books u, ?_, ?_, ?_⟩
  · intro a c e hanswered
    exact (called_of_answered hanswered).failed rfl
  · intro rest w w' isOpen isOpen' hfailed
    exact sameRows_of_failed hl isOpen isOpen' hfailed
  · intro hok
    obtain ⟨w, isOpen, idle, hbooks, -⟩ := publishes_of_step_commit hok
    have hrecord := carries_record.of_run hl isOpen
    have hself : ({ w with pending := none } : UnitOfWork) = w := by rw [← idle]
    rw [hbooks]
    constructor
    · rw [foldl_record_successesOf, ← publish_calls, ← hrecord, hself]
    · intro hr
      exact publishes_successes hl hr isOpen

/-- The third unit of work adds to the first account, and the second one has to wait behind it. -/
def mishapsBefore : List Action :=
  [.begin, .call 1 (.createAccount "ann" franc (cents 250)),
    .call 1 (.createAccount "bob" franc .zero), .commit 1, .begin, .begin,
    .call 3 (.addBalance 1 (cents 50)), .call 2 (.appendEntry 1 (cents 7))]

/-- Then everything fails: an account is missing, the balance that was waited for would overflow,
the owner has such an account by now, and the ledger is told to fail. -/
def mishaps : List Action :=
  [.call 2 (.appendEntry 9 (cents 1)),
    .call 2 (.addBalance 1 greatest), .commit 3, .resume 2,
    .call 2 (.createAccount "ann" franc .zero), .failAt (some .appendTransfer),
    .call 2 (.appendTransfer 1 2 (cents 7)), .failAt none]

/-- The second unit of work goes on all the same. -/
def mishapsAfter : List Action :=
  mishapsBefore ++ mishaps ++
    [.call 2 (.addBalance 1 (cents 7)), .call 2 (.createAccount "cid" dollar (cents 3)),
      .call 2 (.addBalance 4 (cents 5)), .call 2 (.appendTransfer 1 2 (cents 7))]

set_option maxRecDepth 8000 in
/-- Of the nine calls of the second unit of work four have failed; the five others are what it
publishes. -/
theorem mishaps_leave_no_trace :
    (∃ w w', (empty.run mishapsBefore).units.find? 2 = some w ∧
      ((empty.run mishapsBefore).run mishaps).units.find? 2 = some w' ∧ w'.SameRows w) ∧
    (answersOf 2 (empty.journal mishapsAfter)).length = 9 ∧
    ((empty.run mishapsAfter).step (.commit 2)).2 = .ended 2 (.ok ()) ∧
    ∃ calls, calls.length = 5 ∧
      ((empty.run mishapsAfter).step (.commit 2)).1.books =
        calls.foldl Books.record (empty.run mishapsAfter).books ∧
      Publishes calls (empty.run mishapsAfter).books
        ((empty.run mishapsAfter).step (.commit 2)).1.books := by
  constructor
  · obtain ⟨-, -, -, hsame, -⟩ := @failures_leave_no_trace _ mishapsBefore rfl 2
    obtain ⟨w, isOpen⟩ : ∃ w, (empty.run mishapsBefore).units.find? 2 = some w := ⟨_, rfl⟩
    obtain ⟨w', isOpen'⟩ : ∃ w', ((empty.run mishapsBefore).run mishaps).units.find? 2 = some w' :=
      ⟨_, rfl⟩
    exact ⟨w, w', isOpen, isOpen', hsame mishaps w w' isOpen isOpen' (by decide)⟩
  · obtain ⟨-, -, -, -, hcommit⟩ := @failures_leave_no_trace _ mishapsAfter rfl 2
    obtain ⟨hbooks, hpublishes⟩ := hcommit rfl
    exact ⟨by decide, rfl, _, by decide, hbooks, hpublishes (by decide)⟩

end Ledger
end FundsLedger
