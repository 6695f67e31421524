import Mathlib
import FundsLedger.Proofs.Ledger.Runs

/-!
The journal of a ledger, and no lost update. The journal of a run tells which calls were answered
and which units of work have committed. A commit writes whole accounts, not changes of balances; all
the same, a committed balance is the opening balance of the account and the sum of what the calls of
committed units of work have added to it. The invariant says so of every row as an open unit of work
sees it, with the committed row as the start: whoever has staged a row has the committed row as it is
now underneath, since nobody else can write it.
-/

namespace FundsLedger

namespace Answered

/-- The balance with which the call has opened the account. -/
def opening? (id : AccountId) : Answered → Option Amount
  | ⟨.createAccount _ _ balance, .ok a⟩ => if a.id = id then some balance else none
  | _ => none

/-- What the call has added to the balance of the account. -/
def delta? (id : AccountId) : Answered → Option Amount
  | ⟨.addBalance row delta, .ok _⟩ => if row = id then some delta else none
  | _ => none

/-- The owner and the currency for which the call has opened an account. -/
def place? : Answered → Option (String × Currency)
  | ⟨.createAccount owner currency _, .ok _⟩ => some (owner, currency)
  | _ => none

variable {id : AccountId} {c : Call} {e : StoreError}

theorem opening?_error : (⟨c, .error e⟩ : Answered).opening? id = none := by cases c <;> rfl

theorem delta?_error : (⟨c, .error e⟩ : Answered).delta? id = none := by cases c <;> rfl

theorem place?_error : (⟨c, .error e⟩ : Answered).place? = none := by cases c <;> rfl

end Answered

/-- The balances with which calls have opened the account. -/
def openingsOf (id : AccountId) (calls : List Answered) : List Amount :=
  calls.filterMap (·.opening? id)

/-- What calls have added to the balance of the account, one by one. -/
def deltasOf (id : AccountId) (calls : List Answered) : List Amount :=
  calls.filterMap (·.delta? id)

/-- All that calls have added to the balance of the account, in exact arithmetic. -/
def gainOf (id : AccountId) (calls : List Answered) : Int :=
  ((deltasOf id calls).map (·.units)).sum

/-- What a journal tells. -/
inductive Occurrence where
  | answered (u : UnitId) (answer : Answered)
  | committed (u : UnitId)

/-- What the journal tells of a step. -/
def occurrence? : Ledger.Action → Ledger.Reply → Option Occurrence
  | .commit u, .ended _ (.ok ()) => some (.committed u)
  | _, .answered u answer => some (.answered u answer)
  | _, _ => none

/-- The journal of a run: what was answered and what was committed, in the order of the steps. -/
def Ledger.journal (l : Ledger) : List Ledger.Action → List Occurrence
  | [] => []
  | a :: rest => (occurrence? a (l.step a).2).toList ++ (l.step a).1.journal rest

/-- The calls of a unit of work that were answered. -/
def answersOf (u : UnitId) (j : List Occurrence) : List Answered :=
  j.filterMap fun
    | .answered u' answer => if u' = u then some answer else none
    | .committed _ => none

/-- The units of work that have committed. -/
def committers (j : List Occurrence) : List UnitId :=
  j.filterMap fun
    | .answered _ _ => none
    | .committed u => some u

/-- The calls of the units of work that have committed, in the order of their commits. -/
def committedCalls (j : List Occurrence) : List Answered :=
  (committers j).flatMap (answersOf · j)

/-- An account comes from one state to another by these calls: there is none, or one of them has
opened it, or it was there, and its balance has grown by what they have added. -/
inductive Gains (id : AccountId) (calls : List Answered) :
    Option Account → Option Account → Prop
  | absent (openings : openingsOf id calls = []) (deltas : deltasOf id calls = []) :
      Gains id calls none none
  | opened {a : Account} {balance : Amount} (openings : openingsOf id calls = [balance])
      (gain : a.balance.units = balance.units + gainOf id calls) : Gains id calls none (some a)
  | changed {a a' : Account} (openings : openingsOf id calls = [])
      (gain : a'.balance.units = a.balance.units + gainOf id calls) :
      Gains id calls (some a) (some a')

variable {id : AccountId} {calls calls' : List Answered} {x y z : Option Account}

theorem openingsOf_append : openingsOf id (calls ++ calls') =
    openingsOf id calls ++ openingsOf id calls' :=
  List.filterMap_append

theorem deltasOf_append : deltasOf id (calls ++ calls') = deltasOf id calls ++ deltasOf id calls' :=
  List.filterMap_append

theorem gainOf_append : gainOf id (calls ++ calls') = gainOf id calls + gainOf id calls' := by
  simp [gainOf, deltasOf_append]

theorem gainOf_of_deltas (h : deltasOf id calls = []) : gainOf id calls = 0 := by
  simp [gainOf, h]

namespace Gains

/-- Calls that neither open the account nor add to it leave it as it is. -/
theorem of_none (hopening : ∀ c ∈ calls, c.opening? id = none)
    (hdelta : ∀ c ∈ calls, c.delta? id = none) : Gains id calls x x := by
  have hopenings : openingsOf id calls = [] := List.filterMap_eq_nil_iff.mpr hopening
  have hdeltas : deltasOf id calls = [] := List.filterMap_eq_nil_iff.mpr hdelta
  cases x with
  | none => exact .absent hopenings hdeltas
  | some a => exact .changed hopenings (by rw [gainOf_of_deltas hdeltas]; omega)

theorem of_other {answer : Answered} (hopening : answer.opening? id = none)
    (hdelta : answer.delta? id = none) : Gains id [answer] x x :=
  .of_none (List.forall_mem_singleton.mpr hopening) (List.forall_mem_singleton.mpr hdelta)

theorem trans (h : Gains id calls x y) (h' : Gains id calls' y z) :
    Gains id (calls ++ calls') x z := by
  cases h with
  | absent openings deltas =>
    cases h' with
    | absent openings' deltas' =>
      exact .absent (by simp [openingsOf_append, openings, openings'])
        (by simp [deltasOf_append, deltas, deltas'])
    | opened openings' gain' =>
      exact .opened (by rw [openingsOf_append, openings, openings']; rfl)
        (by rw [gainOf_append, gainOf_of_deltas deltas]; omega)
  | opened openings gain =>
    cases h' with
    | changed openings' gain' =>
      exact .opened (by rw [openingsOf_append, openings, openings']; rfl)
        (by rw [gainOf_append]; omega)
  | changed openings gain =>
    cases h' with
    | changed openings' gain' =>
      exact .changed (by simp [openingsOf_append, openings, openings'])
        (by rw [gainOf_append]; omega)

/-- Calls that have left an account as it was have not touched it, so they leave it alone in any
other state as well. -/
theorem elsewhere (h : Gains id calls x x) {a : Account} : Gains id calls (some a) (some a) := by
  cases h with
  | absent openings deltas => exact .changed openings (by rw [gainOf_of_deltas deltas]; omega)
  | changed openings gain => exact .changed openings (by omega)

end Gains

namespace Ledger

variable {l l' : Ledger} {u u' : UnitId} {w : UnitOfWork} {c : Call} {a : Account}

/-- What a call answers, and what it does to the staged accounts: it opens one, it adds to a balance,
or it leaves them as they are. -/
inductive Posts (l : Ledger) (w : UnitOfWork) : Answered → Drawn → UnitOfWork → Prop
  | opened (owner : String) (currency : Currency) (balance : Amount)
      (unique : w.isDuplicate l.books
        ⟨idAfter l.drawn.accounts, owner, balance, currency, l.clock⟩ = false) :
      Posts l w ⟨.createAccount owner currency balance,
          .ok ⟨idAfter l.drawn.accounts, owner, balance, currency, l.clock⟩⟩
        { l.drawn with accounts := l.drawn.accounts + 1 }
        { w with
          accounts := w.accounts.insert (idAfter l.drawn.accounts)
            ⟨idAfter l.drawn.accounts, owner, balance, currency, l.clock⟩ }
  | changed (row : AccountId) (delta : Amount) (a : Account) (sum : Amount)
      (visible : w.visible? l.books row = some a) (adds : a.balance.add? delta = some sum) :
      Posts l w ⟨.addBalance row delta, .ok { a with balance := sum }⟩ l.drawn
        { w with accounts := w.accounts.insert row { a with balance := sum } }
  | other {answer : Answered} {d : Drawn} {w' : UnitOfWork} (accounts : w'.accounts = w.accounts)
      (opening : ∀ id, answer.opening? id = none) (delta : ∀ id, answer.delta? id = none)
      (place : answer.place? = none) : Posts l w answer d w'

theorem perform_posts (l : Ledger) (w : UnitOfWork) (c : Call) :
    l.Posts w ⟨c, (l.perform w c).result⟩ (l.perform w c).drawn (l.perform w c).unit := by
  cases c with
  | createAccount owner currency balance =>
    simp only [perform]
    split
    · exact .other rfl (fun _ => rfl) (fun _ => rfl) rfl
    · rename_i hunique
      exact .opened owner currency balance (by simpa using hunique)
  | addBalance row delta =>
    simp only [perform]
    split
    · exact .other rfl (fun _ => rfl) (fun _ => rfl) rfl
    · rename_i a ha
      split
      · exact .other rfl (fun _ => rfl) (fun _ => rfl) rfl
      · rename_i sum hsum
        exact .changed row delta a sum ha hsum
  | getAccount | getForUpdate | entrySum =>
    simp only [perform]
    split <;> exact .other rfl (fun _ => rfl) (fun _ => rfl) rfl
  | appendEntry row amount =>
    simp only [perform]
    split
    · exact .other rfl (fun _ => rfl) (fun _ => rfl) rfl
    · split <;> exact .other rfl (fun _ => rfl) (fun _ => rfl) rfl
  | appendTransfer fromId toId amount =>
    simp only [perform]
    split
    · exact .other rfl (fun _ => rfl) (fun _ => rfl) rfl
    · split <;> exact .other rfl (fun _ => rfl) (fun _ => rfl) rfl
  | listByOwner | getEntry | listEntries | getTransfer | listTransfers =>
    exact .other rfl (fun _ => rfl) (fun _ => rfl) rfl

/-- What a call does to the accounts that its unit of work sees. -/
theorem gains_perform (hnew : (l.perform w c).drawn.accounts = l.drawn.accounts + 1 →
      w.visible? l.books (idAfter l.drawn.accounts) = none) :
    Gains id [⟨c, (l.perform w c).result⟩] (w.visible? l.books id)
      ((l.perform w c).unit.visible? l.books id) := by
  have hposts := l.perform_posts w c
  generalize (⟨c, (l.perform w c).result⟩ : Answered) = answer, (l.perform w c).drawn = d,
    (l.perform w c).unit = w' at hposts hnew
  cases hposts with
  | opened owner currency balance unique =>
    have hfree := hnew rfl
    generalize idAfter l.drawn.accounts = next at hfree
    simp only [UnitOfWork.visible?, Table.find?_insert]
    split
    · rename_i heq
      subst heq
      rw [Option.some_or, ← UnitOfWork.visible?, hfree]
      have hopenings : openingsOf id [⟨.createAccount owner currency balance,
          .ok ⟨id, owner, balance, currency, l.clock⟩⟩] = [balance] := by
        simp [openingsOf, Answered.opening?]
      exact .opened hopenings (by simp [gainOf, deltasOf, Answered.delta?])
    · rename_i hne
      exact .of_other (if_neg (Ne.symm hne)) rfl
  | changed row delta a sum visible adds =>
    simp only [UnitOfWork.visible?, Table.find?_insert]
    split
    · rename_i heq
      subst heq
      rw [Option.some_or, ← UnitOfWork.visible?, visible]
      refine .changed (by simp [openingsOf, Answered.opening?]) ?_
      simpa [gainOf, deltasOf, Answered.delta?] using Amount.add?_eq_some_iff.mp adds
    · rename_i hne
      exact .of_other rfl (if_neg (Ne.symm hne))
  | other accounts opening delta place =>
    have hsame : w'.visible? l.books id = w.visible? l.books id := by
      rw [UnitOfWork.visible?, accounts]
      rfl
    rw [hsame]
    exact .of_other (opening id) (delta id)

/-! ## What the journal tells of a step -/

/-- The ledger makes a step, of which the journal tells this. -/
inductive Logs (l : Ledger) : Option Occurrence → Ledger → Prop
  | refused {u : UnitId} {c : Call} {w : UnitOfWork} {e : StoreError}
      (isOpen : l.units.find? u = some w) : Logs l (some (.answered u ⟨c, .error e⟩)) l
  | performed {u : UnitId} {c : Call} {w : UnitOfWork} {asked : Ledger}
      (isOpen : l.units.find? u = some w) (ready : w.pending = none ∨ w.pending = some c)
      (granted : l.Grants u w c asked) :
      Logs l (some (.answered u ⟨c, (asked.perform w c).result⟩)) (asked.finish u w c).1
  | published {u : UnitId} {w : UnitOfWork} (isOpen : l.units.find? u = some w)
      (idle : w.pending = none) (unique : w.firstDuplicate? l.books = none) :
      Logs l (some (.committed u))
        { l.close u with books := w.publish l.books, commits := l.commits + 1 }
  | silent {m : Move} {l' : Ledger} (makes : l.Makes m l') (unperformed : ∀ u c, m ≠ .performed u c)
      (unpublished : ∀ u, m ≠ .published u) : Logs l none l'

/-- The move answers no call and commits nothing. -/
def isQuiet : Move → Bool
  | .performed .. | .published _ => false
  | _ => true

theorem Logs.quiet {m : Move} (hm : l.Makes m l') (h : isQuiet m = true) : l.Logs none l' := by
  refine .silent hm ?_ ?_
  · rintro u c rfl
    cases h
  · rintro u rfl
    cases h

theorem Called.logs {o : Outcome c} (h : l.Called u c l' o) (a : Action) :
    l.Logs (occurrence? a (o.reply u)) l' := by
  cases h with
  | refused isOpen idle refusal => cases a <;> exact .refused isOpen
  | performed isOpen ready granted => cases a <;> exact .performed isOpen ready granted
  | queued isOpen idle row known taken =>
    cases a <;> exact .quiet (.queued isOpen idle row known taken) rfl
  | waiting isOpen pending row taken => cases a <;> exact .quiet (.refl l) rfl

/-- The journal tells what every step has answered or committed. -/
theorem step_logs (l : Ledger) (a : Action) :
    l.Logs (occurrence? a (l.step a).2) (l.step a).1 := by
  have stay : l.Logs none l := .quiet (.refl l) rfl
  cases a with
  | begin => exact .quiet .opened rfl
  | call u c =>
    simp only [step]
    split
    · rename_i l' o h
      exact (call?_called h).logs _
    · exact stay
  | resume u =>
    simp only [step]
    split
    · exact stay
    · split
      · rename_i c _ l' o h
        exact (resume?_called h).logs _
      · exact stay
  | withdraw u =>
    simp only [step]
    cases hw : l.units.find? u with
    | none => simpa [withdraw, hw, occurrence?] using stay
    | some w =>
      cases hp : w.pending with
      | none => simpa [withdraw, hw, hp, occurrence?] using stay
      | some c => exact .quiet (.withdrawn hw hp) rfl
  | commit u =>
    simp only [step]
    split
    · rename_i l' r h
      obtain ⟨w, hw, hidle, heq⟩ := commit?_eq_some h
      have hc := commitUnit_committed l u w
      rw [← heq] at hc
      cases hc with
      | failed e conflicts => exact .quiet (.closed hw conflicts) rfl
      | published unique => exact .published hw hidle unique
    · exact stay
  | rollback u =>
    simp only [step]
    split
    · rename_i l' r h
      obtain ⟨w, hw, -, rfl, -⟩ := rollback?_eq_some h
      exact .quiet (makes_close hw) rfl
    · exact stay
  | abandon u =>
    obtain ⟨m, hm, rfl | rfl⟩ := abandon_makes l u
    · exact .quiet hm rfl
    · exact .quiet hm rfl
  | failAt point => exact .quiet (.rest rfl rfl rfl rfl rfl rfl) rfl
  | injectConflicts n => exact .quiet (.rest rfl rfl rfl rfl rfl rfl) rfl
  | setClock now => exact .quiet (.rest rfl rfl rfl rfl rfl rfl) rfl

theorem Logs.makes {o : Option Occurrence} (h : l.Logs o l') : ∃ m, l.Makes m l' := by
  cases h with
  | refused isOpen => exact ⟨_, .refl l⟩
  | performed isOpen ready granted => exact ⟨_, .performed isOpen ready granted⟩
  | published isOpen idle unique => exact ⟨_, .published isOpen idle unique⟩
  | silent makes unperformed unpublished => exact ⟨_, makes⟩

/-! ## The invariant -/

/-- Where every account has come from: a committed one from nothing by the calls of the units of
work that have committed, and one that an open unit of work sees from the committed one by the calls
of that unit of work. -/
structure Recorded (l : Ledger) (j : List Occurrence) : Prop where
  books : ∀ id, Gains id (committedCalls j) none (l.books.accounts.find? id)
  units : ∀ u w, l.units.find? u = some w → ∀ id,
    Gains id (answersOf u j) (l.books.accounts.find? id) (w.visible? l.books id)
  numbered : ∀ u : Int, l.begins < u → answersOf u j = []
  ended : ∀ u ∈ committers j, l.Over u
  once : (committers j).Nodup

theorem answersOf_answered (j : List Occurrence) (u u' : UnitId) (answer : Answered) :
    answersOf u (j ++ [.answered u' answer]) =
      answersOf u j ++ if u' = u then [answer] else [] := by
  simp only [answersOf, List.filterMap_append]
  split <;> simp [*]

theorem answersOf_committed (j : List Occurrence) (u u' : UnitId) :
    answersOf u (j ++ [.committed u']) = answersOf u j := by
  simp [answersOf, List.filterMap_append]

theorem committers_answered (j : List Occurrence) (u : UnitId) (answer : Answered) :
    committers (j ++ [.answered u answer]) = committers j := by
  simp [committers, List.filterMap_append]

theorem committers_committed (j : List Occurrence) (u : UnitId) :
    committers (j ++ [.committed u]) = committers j ++ [u] := by
  simp [committers, List.filterMap_append]

/-- Calls of a unit of work that has not committed do not count. -/
theorem committedCalls_answered {j : List Occurrence} (hu : u ∉ committers j) (answer : Answered) :
    committedCalls (j ++ [.answered u answer]) = committedCalls j := by
  simp only [committedCalls, committers_answered, List.flatMap_def]
  refine congrArg List.flatten (List.map_congr_left fun u' hu' => ?_)
  have hne : u ≠ u' := fun heq => hu (heq ▸ hu')
  simp [answersOf_answered, hne]

theorem committedCalls_committed (j : List Occurrence) (u : UnitId) :
    committedCalls (j ++ [.committed u]) = committedCalls j ++ answersOf u j := by
  simp [committedCalls, committers_committed, answersOf_committed]

namespace Recorded

variable {j : List Occurrence}

theorem empty : Ledger.empty.Recorded [] where
  books id := .of_none (by simp [committedCalls, committers]) (by simp [committedCalls, committers])
  units u w hw := by simp [Ledger.empty] at hw
  numbered u hu := rfl
  ended u hu := by simp [committers] at hu
  once := List.nodup_nil

theorem uncommitted (h : l.Recorded j) (hw : l.units.find? u = some w) : u ∉ committers j := by
  intro hu
  have := (h.ended u hu).closed
  rw [hw] at this
  cases this

/-- A step that the journal does not tell of writes nothing to the books and stages nothing. -/
theorem silent {m : Move} (h : l.Recorded j) (hm : l.Makes m l')
    (unperformed : ∀ u c, m ≠ .performed u c) (unpublished : ∀ u, m ≠ .published u) :
    l'.Recorded j := by
  obtain ⟨hbooks, hunits⟩ := hm.leaves unperformed unpublished
  refine ⟨by rw [hbooks]; exact h.books, fun u w' hw' id => ?_,
    fun u hu => h.numbered u (Int.lt_of_le_of_lt (Int.ofNat_le.mpr hm.begins_le) hu),
    fun u hu => (h.ended u hu).makes hm, h.once⟩
  have hopen : (l'.units.find? u).isSome := by rw [hw']; rfl
  rcases hunits u with hretains | hblanks
  · obtain ⟨w, hw⟩ := Option.isSome_iff_exists.mp (hretains.isOpen hopen)
    have haccounts := hretains.accounts
    rw [unit_of_find? hw', unit_of_find? hw] at haccounts
    have hold := h.units u w hw id
    rwa [hbooks, UnitOfWork.visible?, haccounts]
  -- A unit of work that has just begun has not been answered anything.
  · have hfresh := hblanks.unit
    rw [unit_of_find? hw'] at hfresh
    rw [h.numbered u (hblanks.begun hopen), hbooks, UnitOfWork.visible?, hfresh, UnitOfWork.fresh,
      Table.find?_empty, Option.none_or]
    exact .of_none (List.forall_mem_nil _) (List.forall_mem_nil _)

/-- A call that is answered adds to what its unit of work sees, and to nothing else. -/
theorem answered {m : Move} {answer : Answered} (h : l.Recorded j) (hl : l.Lawful)
    (hw : l.units.find? u = some w) (hm : l.Makes m l') (hbooks : l'.books = l.books)
    (hself : ∀ v, l'.units.find? u = some v → ∀ id,
      Gains id [answer] (w.visible? l.books id) (v.visible? l.books id))
    (hother : ∀ u', u' ≠ u → l'.units.find? u' = l.units.find? u') :
    l'.Recorded (j ++ [.answered u answer]) where
  books := by
    rw [committedCalls_answered (h.uncommitted hw), hbooks]
    exact h.books
  units u' v hv id := by
    rw [hbooks, answersOf_answered]
    by_cases hu : u' = u
    · subst hu
      rw [if_pos rfl]
      exact (h.units u' w hw id).trans (hself v hv id)
    · rw [hother u' hu] at hv
      rw [if_neg (Ne.symm hu), List.append_nil]
      exact h.units u' v hv id
  numbered u' hu' := by
    have hle : (l.begins : Int) ≤ l'.begins := Int.ofNat_le.mpr hm.begins_le
    have hopen := hl.orderly.numbered u (by simp [hw])
    have hne : u ≠ u' := Int.ne_of_lt (by omega)
    rw [answersOf_answered, h.numbered u' (by omega), if_neg hne]
    rfl
  ended u' hu' := by
    rw [committers_answered] at hu'
    exact (h.ended u' hu').makes hm
  once := by
    rw [committers_answered]
    exact h.once

/-- A commit brings the calls of one unit of work to the books. No other unit of work has staged a
row that it writes, so all others see the new rows as they saw the old ones. -/
theorem published (h : l.Recorded j) (hl : l.Lawful) (hs : l.Sound)
    (hw : l.units.find? u = some w) (idle : w.pending = none)
    (unique : w.firstDuplicate? l.books = none) :
    Recorded { l.close u with books := w.publish l.books, commits := l.commits + 1 }
      (j ++ [.committed u]) := by
  have hm := Makes.published hw idle unique
  have hfind : ∀ id, (w.publish l.books).accounts.find? id = w.visible? l.books id :=
    fun id => Table.find?_overlay _ _ _
  constructor
  case books =>
    intro id
    rw [committedCalls_committed, hfind]
    exact (h.books id).trans (h.units u w hw id)
  case units =>
    intro u' v hv id
    simp only [close, Table.find?_erase] at hv
    split at hv
    · cases hv
    · rename_i hne
      have hold := h.units u' v hv id
      rw [answersOf_committed, UnitOfWork.visible?, hfind]
      cases ha : w.accounts.find? id with
      | none =>
        have hsame : w.visible? l.books id = l.books.accounts.find? id := by
          rw [UnitOfWork.visible?, ha, Option.none_or]
        rw [hsame]
        exact hold
      | some a =>
        rw [← unit_of_find? hw] at ha
        have hunstaged := hs.unstaged_of_staged ha (Ne.symm hne)
        rw [unit_of_find? hv] at hunstaged
        rw [unit_of_find? hw] at ha
        rw [UnitOfWork.visible?, hunstaged, Option.none_or] at hold
        rw [hunstaged, Option.none_or, UnitOfWork.visible?, ha, Option.some_or]
        exact hold.elsewhere
  case numbered =>
    intro u' hu'
    rw [answersOf_committed]
    exact h.numbered u' hu'
  case ended =>
    intro u' hu'
    rw [committers_committed, List.mem_append, List.mem_singleton] at hu'
    rcases hu' with hu' | rfl
    · exact (h.ended u' hu').makes hm
    · exact ⟨hl.orderly.numbered u' (by simp [hw]), by simp [close]⟩
  case once =>
    rw [committers_committed]
    exact List.nodup_append.mpr ⟨h.once, by simp, fun u' hu' v hv heq =>
      h.uncommitted hw (by rw [List.mem_singleton] at hv; rwa [← hv, ← heq])⟩

/-- Every step keeps the record, as long as the counters stay in range. -/
theorem logs {o : Option Occurrence} (h : l.Recorded j) (hl : l.Lawful) (hlogs : l.Logs o l')
    (hr : l.drawn.InRange) (hr' : l'.drawn.InRange) : l'.Recorded (j ++ o.toList) := by
  cases hlogs with
  | @refused u c w e isOpen =>
    refine h.answered hl isOpen (.refl l) rfl (fun v hv id => ?_) fun _ _ => rfl
    rw [isOpen] at hv
    cases hv
    exact .of_other Answered.opening?_error Answered.delta?_error
  | @performed u c w asked isOpen ready granted =>
    refine h.answered hl isOpen (.performed isOpen ready granted) granted.books
      (fun v hv id => ?_) fun u' hne => ?_
    · simp only [finish, granted.units, Table.find?_insert, if_true, Option.some.injEq] at hv
      rw [granted.perform] at hv ⊢
      have hgains : Gains id [⟨c, (l.perform w c).result⟩] (w.visible? l.books id)
          ((l.perform w c).unit.visible? l.books id) := by
        refine gains_perform fun hcount => ?_
        rw [← unit_of_find? isOpen]
        refine (hl.sound hr).next_invisible ?_
        have := hr'.accounts
        simp only [finish, granted.perform, hcount] at this
        exact this
      rw [← hv]
      exact hgains
    · simp [finish, granted.units, hne]
  | published isOpen idle unique => exact h.published hl (hl.sound hr) isOpen idle unique
  | silent makes unperformed unpublished =>
    rw [Option.toList_none, List.append_nil]
    exact h.silent makes unperformed unpublished

end Recorded

/-! ## Runs -/

/-- A run keeps the record as long as the counters stay in range. -/
theorem Recorded.run {j : List Occurrence} (h : l.Recorded j) (hl : l.Lawful)
    (actions : List Action) (hr : (l.run actions).drawn.InRange) :
    (l.run actions).Recorded (j ++ l.journal actions) := by
  induction actions generalizing l j with
  | nil => simpa [journal, Ledger.run] using h
  | cons a rest ih =>
    have hlogs := l.step_logs a
    obtain ⟨m, hm⟩ := hlogs.makes
    have hr' : (l.step a).1.drawn.InRange := hr.of_upTo (upTo_run _ rest)
    have hnext := h.logs hl hlogs (hr'.of_upTo hm.upTo) hr'
    rw [journal, ← List.append_assoc]
    exact ih hnext (hl.makes hm) hr

/-- No lost update: a committed balance is the one with which the account was opened and everything
that successful calls have added to it in units of work whose commit succeeded, each of them once;
an account that is not committed has been neither opened nor added to by any of them. -/
theorem no_lost_update (actions : List Action) (hr : (empty.run actions).drawn.InRange) :
    (committers (empty.journal actions)).Nodup ∧
    ∀ id, match (empty.run actions).books.accounts.find? id with
      | none =>
        openingsOf id (committedCalls (empty.journal actions)) = [] ∧
        deltasOf id (committedCalls (empty.journal actions)) = []
      | some a =>
        ∃ balance, openingsOf id (committedCalls (empty.journal actions)) = [balance] ∧
          a.balance.units =
            balance.units + gainOf id (committedCalls (empty.journal actions)) := by
  have h := Recorded.empty.run .empty actions hr
  rw [List.nil_append] at h
  refine ⟨h.once, fun id => ?_⟩
  have hgains := h.books id
  generalize (empty.run actions).books.accounts.find? id = x at hgains
  cases hgains with
  | absent openings deltas => exact ⟨openings, deltas⟩
  | opened openings gain => exact ⟨_, openings, gain⟩

/-- An account is opened with 250. Then the second unit of work adds 50 to it, the third has to wait
for the row until that is committed and adds 7, and the fourth adds 1000 and is rolled back. -/
def contended : List Action :=
  [.begin, .call 1 (.createAccount "ann" ⟨"EUR", by decide⟩ ⟨250, by decide, by decide⟩), .commit 1,
    .begin, .begin, .call 2 (.addBalance 1 ⟨50, by decide, by decide⟩),
    .call 3 (.addBalance 1 ⟨7, by decide, by decide⟩), .commit 2, .resume 3, .commit 3,
    .begin, .call 4 (.addBalance 1 ⟨1000, by decide, by decide⟩), .rollback 4]

theorem contended_not_lost :
    (empty.run contended).drawn.InRange ∧
    ∃ a balance, (empty.run contended).books.accounts.find? 1 = some a ∧
      a.balance.units = 307 ∧ openingsOf 1 (committedCalls (empty.journal contended)) = [balance] ∧
      a.balance.units = balance.units + gainOf 1 (committedCalls (empty.journal contended)) := by
  have hr : (empty.run contended).drawn.InRange := by decide
  have h := (no_lost_update contended hr).2 1
  have hbalance : ((empty.run contended).books.accounts.find? 1).map (·.balance.units) =
      some 307 := by decide
  cases hfind : (empty.run contended).books.accounts.find? 1 with
  | none =>
    rw [hfind] at hbalance
    cases hbalance
  | some a =>
    rw [hfind] at h hbalance
    obtain ⟨balance, hopenings, hgain⟩ := h
    exact ⟨hr, a, balance, rfl, Option.some.inj hbalance, hopenings, hgain⟩

end Ledger
end FundsLedger
