import FundsLedger.Proofs.Ledger.Failures

/-!
Staged accounts and held rows. An account that a unit of work has staged is its own, created by it
and known to nobody else, or it is the committed account of a row that it holds, with what the unit
of work has added since. Nobody but the holder of a row can change the committed account under it,
so for as long as a unit of work holds a row, what it reads there changes by its own doing only.
-/

namespace FundsLedger

/-- What further calls make of an account under which the committed one stays the same. -/
theorem Amends.later {id : AccountId} {calls later : List Answered} {x : Option Account}
    {a a' : Account} (h : Amends id calls x (some a))
    (h' : Amends id (calls ++ later) x (some a')) :
    a'.Same a ∧ a'.balance.units = a.balance.units + gainOf id later := by
  cases h with
  | created created same gain =>
    cases h' with
    | created created' same' gain' =>
      rw [createdOf_append, created] at created'
      obtain ⟨rfl, -⟩ := List.cons.inj created'
      exact ⟨same'.trans same.symm, by rw [gain', gain, gainOf_append, Int.add_assoc]⟩
  | changed created same gain =>
    cases h' with
    | changed created' same' gain' =>
      exact ⟨same'.trans same.symm, by rw [gain', gain, gainOf_append, Int.add_assoc]⟩

namespace Ledger

variable {l l' : Ledger} {u : Int} {w : UnitOfWork} {id : AccountId} {a r : Account}

/-! ## Staged accounts -/

/-- Where an account comes from that a unit of work has staged: it has created it, and it alone
knows of it, or it holds the row of the committed account. Apart from that only its own calls have
added to the balance. -/
inductive Provenance (l : Ledger) (u : UnitId) (id : AccountId) (calls : List Answered)
    (a : Account) : Prop
  | created {first : Account} (created : createdOf id calls = [first]) (same : a.Same first)
      (gain : a.balance.units = first.balance.units + gainOf id calls)
      (unknown : l.Created u id) : Provenance l u id calls a
  | held {first : Account} (uncreated : createdOf id calls = []) (holds : l.Holds u id)
      (committed : l.books.accounts.find? id = some first) (same : a.Same first)
      (gain : a.balance.units = first.balance.units + gainOf id calls) : Provenance l u id calls a

/-- What a unit of work sees of an account is what its calls have made of the committed one. -/
theorem amends_visible {actions : List Action} (hl : empty.run actions = l) (hr : l.drawn.InRange)
    (isOpen : l.units.find? u = some w) (id : AccountId) :
    Amends id (answersOf u (empty.journal actions)) (l.books.accounts.find? id)
      (w.visible? l.books id) := by
  have hamends := amends_publish hl hr isOpen id
  rwa [UnitOfWork.publish, Table.find?_overlay] at hamends

theorem staged_provenance {actions : List Action} (hl : empty.run actions = l)
    (hr : l.drawn.InRange) (isOpen : l.units.find? u = some w)
    (ha : w.accounts.find? id = some a) :
    l.Provenance u id (answersOf u (empty.journal actions)) a := by
  have hs : l.Sound := (Reachable.lawful ⟨actions, hl.symm⟩).sound hr
  have hamends := amends_visible hl hr isOpen id
  rw [UnitOfWork.visible?, ha, Option.some_or] at hamends
  rw [← unit_of_find? isOpen] at ha
  rcases hs.owned u id a ha with hnew | ⟨hholds, first, hbook, -⟩
  · rw [hnew.uncommitted] at hamends
    cases hamends with
    | created created same gain => exact .created created same gain hnew
  · rw [hbook] at hamends
    cases hamends with
    | changed uncreated same gain => exact .held uncreated hholds hbook same gain

/-! ## Committed rows that are held -/

theorem eq_commit_of_occurrence? {x : Action} {reply : Reply}
    (h : occurrence? x reply = some (.committed u)) : x = .commit u := by
  unfold occurrence? at h
  split at h
  · cases h
    rfl
  · cases h
  · cases h

/-- Only its holder writes to a row: whoever else commits has nothing staged there. -/
theorem Logs.find?_of_holds {o : Option Occurrence} (h : l.Logs o l') (hs : l.Sound)
    (hholds : l.Holds u id) (ho : o ≠ some (.committed u)) :
    l'.books.accounts.find? id = l.books.accounts.find? id := by
  cases h with
  | refused isOpen => rfl
  | performed isOpen ready granted => exact congrArg (·.accounts.find? id) granted.books
  | @published u' w isOpen idle unique =>
    have hne : u ≠ u' := fun heq => ho (by rw [heq])
    have hunstaged := hs.unstaged_of_holds hholds hne
    rw [unit_of_find? isOpen] at hunstaged
    rw [UnitOfWork.publish, Table.find?_overlay, hunstaged]
    rfl
  | silent makes unperformed unpublished => rw [(makes.leaves unperformed unpublished).1]

/-- A unit of work that has committed holds nothing any more. -/
theorem Logs.not_holds (h : l.Logs (some (.committed u)) l') : ¬ l'.Holds u id := by
  cases h with
  | published isOpen idle unique =>
    intro hholds
    have hmem := hholds.mem
    simp [close] at hmem

theorem row_of_run {actions : List Action} (hl : l.Lawful)
    (hr : (l.run actions).drawn.InRange)
    (hholds : ∀ before, before <+: actions → (l.run before).Holds u id) :
    (l.run actions).books.accounts.find? id = l.books.accounts.find? id := by
  induction actions generalizing l with
  | nil => rfl
  | cons x rest ih =>
    have hlogs := l.step_logs x
    have hrange : l.drawn.InRange := hr.of_upTo (l.upTo_run (x :: rest))
    have hnow : l.Holds u id := hholds [] List.nil_prefix
    have hnext : (l.step x).1.Holds u id :=
      hholds [x] ((List.prefix_cons_inj x).mpr List.nil_prefix)
    have hrow := hlogs.find?_of_holds (hl.sound hrange) hnow fun ho => (ho ▸ hlogs).not_holds hnext
    rw [← hrow]
    exact ih (hl.step x) hr fun before hbefore =>
      hholds (x :: before) ((List.prefix_cons_inj x).mpr hbefore)

/-! ## Rows that stay held -/

/-- The unit of work has the row: it holds it, and it does not wait in a call for it. -/
structure Has (l : Ledger) (u : UnitId) (id : AccountId) : Prop where
  holds : l.Holds u id
  settled : ∀ c, (l.unit u).pending = some c → c.row? ≠ some id

namespace Has

theorem isOpen (h : l.Has u id) (hl : l.Lawful) : (l.units.find? u).isSome :=
  hl.orderly.opened u id h.holds.mem

/-- A row is given back at the end of a unit of work and not before. -/
theorem makes {m : Move} (h : l.Has u id) (hl : l.Lawful) (hm : l.Makes m l')
    (hopen : (l'.units.find? u).isSome) : l'.Has u id := by
  by_cases hu : m.unit? = some u
  case neg =>
    have hspares := hm.spares hl (h.isOpen hl) hu
    have hunit : l'.unit u = l.unit u := by rw [unit, hspares.unit, unit]
    exact ⟨hspares.holds id h.holds, by rw [hunit]; exact h.settled⟩
  case pos =>
    cases hm with
    | rest books drawn begins commits units requests => cases hu
    | opened =>
      have hnumbered := hl.orderly.numbered u (h.isOpen hl)
      have hnew : (l.begins : Int) + 1 = u := Option.some.inj hu
      omega
    | performed isOpen ready granted =>
      obtain rfl := Option.some.inj hu
      obtain ⟨more, hmore⟩ := granted.requests
      refine ⟨h.holds.append hmore, fun c hc => ?_⟩
      rw [granted.unit_finish, if_pos rfl] at hc
      cases hc
    | @queued _ c w other isOpen idle row known taken =>
      obtain rfl := Option.some.inj hu
      obtain ⟨more, hmore⟩ := l.request_requests _ other
      refine ⟨h.holds.append hmore, fun d hd => ?_⟩
      rw [unit_insert rfl, if_pos rfl] at hd
      cases hd
      -- The row that it waits for is another one, since this one is not taken.
      rw [row]
      rintro ⟨rfl⟩
      exact taken (h.holds.append hmore)
    | @withdrawn _ c w isOpen pending =>
      obtain rfl := Option.some.inj hu
      have hne : c.row? ≠ some id := h.settled c (by rw [unit_of_find? isOpen, pending])
      rw [withdraw_of_pending isOpen pending]
      refine ⟨h.holds.filter rfl (by simp [hne]), fun d hd => ?_⟩
      rw [unit_insert rfl, if_pos rfl] at hd
      cases hd
    | closed isOpen conflicts =>
      obtain rfl := Option.some.inj hu
      simp [close] at hopen
    | published isOpen idle unique =>
      obtain rfl := Option.some.inj hu
      simp [close] at hopen

end Has

theorem Over.run (h : l.Over u) (actions : List Action) : (l.run actions).Over u :=
  run_induction (P := fun l' => l'.Over u) (fun _ _ _ hm h => h.makes hm) h actions

/-- Induction on the run: a unit of work that is open at its end has been open all along. -/
theorem Has.run {actions : List Action} (h : l.Has u id) (hl : l.Lawful)
    (hopen : ((l.run actions).units.find? u).isSome) : (l.run actions).Has u id := by
  induction actions generalizing l with
  | nil => exact h
  | cons x rest ih =>
    obtain ⟨m, hm, -⟩ := l.step_makes x
    have hnext : ((l.step x).1.units.find? u).isSome := by
      by_contra hclosed
      have hbegun : u ≤ (l.step x).1.begins :=
        Int.le_trans (hl.orderly.numbered u (h.isOpen hl)) (Int.ofNat_le.mpr hm.begins_le)
      have hover : (l.step x).1.Over u := ⟨hbegun, Option.not_isSome_iff_eq_none.mp hclosed⟩
      have hnone : ((l.step x).1.run rest).units.find? u = none := (hover.run rest).closed
      have hopen : (((l.step x).1.run rest).units.find? u).isSome := hopen
      rw [hnone] at hopen
      cases hopen
    exact ih (h.makes hl hm hnext) (hl.step x) hopen

/-! ## Reading rows that are held -/

/-- The unit of work finds this account: both ways of reading it are answered with it, at once if
the unit of work is idle, and when it goes on if it waits to read it. -/
structure Finds (l : Ledger) (u : UnitId) (id : AccountId) (r : Account) : Prop where
  get : (l.unit u).pending = none →
    l.step (.call u (.getAccount id)) = (l, .answered u ⟨.getAccount id, .ok r⟩)
  getForUpdate : (l.unit u).pending = none →
    (l.step (.call u (.getForUpdate id))).2 = .answered u ⟨.getForUpdate id, .ok r⟩
  resume : (l.unit u).pending = some (.getForUpdate id) →
    (l.step (.resume u)).2 = .answered u ⟨.getForUpdate id, .ok r⟩

/-- The holder of a row sees an account there. -/
theorem Sound.sees_of_holds (hs : l.Sound) (hl : l.Lawful) (h : l.Holds u id) :
    ∃ w, l.units.find? u = some w ∧ ∃ r, w.visible? l.books id = some r := by
  obtain ⟨w, isOpen⟩ := Option.isSome_iff_exists.mp (hl.orderly.opened u id h.mem)
  have hvisible := hs.requested u id h.mem
  rw [unit_of_find? isOpen] at hvisible
  exact ⟨w, isOpen, Option.isSome_iff_exists.mp hvisible⟩

/-- The holder of a row finds the account that it sees there. -/
theorem Holds.finds (h : l.Holds u id) (isOpen : l.units.find? u = some w)
    (hv : w.visible? l.books id = some r) : l.Finds u id r := by
  have hw := unit_of_find? isOpen
  constructor
  case get =>
    intro idle
    rw [hw] at idle
    have hreads : (Call.getAccount id).Reads := trivial
    rw [step_reads isOpen idle hreads]
    simp only [perform, hv]
  case getForUpdate =>
    intro idle
    rw [hw] at idle
    have hasked : l.request u id = l := request_of_mem h.mem
    simp [step, call?, isOpen, idle, refusal?, Call.row?, hasked, h, finish, perform, hv,
      Outcome.reply]
  case resume =>
    intro pending
    rw [hw] at pending
    simp [step, resume?, isOpen, pending, Call.row?, h, finish, perform, hv, Outcome.reply]

/-! ## The invariant -/

/-- What holds of the rows of a ledger in every run. A row has one holder, who is open. What an open
unit of work has staged is new and its own, or it holds the row of the committed account, and the
two differ by what it has added. While it holds a row, no step but its own commit changes the
committed account, and it keeps finding the same account there, with what it adds itself. What it
holds without waiting for it, it holds until it ends. -/
theorem staging_invariant {actions : List Action} (hl : empty.run actions = l)
    (hr : l.drawn.InRange) :
    (∀ u id, l.Holds u id → (l.units.find? u).isSome ∧ ∀ u', l.Holds u' id → u' = u) ∧
    (∀ u w id a, l.units.find? u = some w → w.accounts.find? id = some a →
      l.Provenance u id (answersOf u (empty.journal actions)) a) ∧
    ∀ u id, l.Holds u id →
      (∀ x : Action, x ≠ .commit u →
        (l.step x).1.books.accounts.find? id = l.books.accounts.find? id) ∧
      (∀ rest, (l.run rest).drawn.InRange →
        (∀ before, before <+: rest → (l.run before).Holds u id) →
        (l.run rest).books.accounts.find? id = l.books.accounts.find? id ∧
        ∃ r r', l.Finds u id r ∧ (l.run rest).Finds u id r' ∧ r'.Same r ∧
          r'.balance.units = r.balance.units + gainOf id (answersOf u (l.journal rest))) ∧
      ∀ rest, l.Has u id → ((l.run rest).units.find? u).isSome → (l.run rest).Holds u id := by
  have hlawful : l.Lawful := Reachable.lawful ⟨actions, hl.symm⟩
  have hs := hlawful.sound hr
  refine ⟨fun u id hholds => ⟨hlawful.orderly.opened u id hholds.mem, fun u' h' =>
    h'.unique hholds⟩, fun u w id a isOpen ha => staged_provenance hl hr isOpen ha,
    fun u id hholds => ⟨?_, ?_, ?_⟩⟩
  · intro x hx
    exact (l.step_logs x).find?_of_holds hs hholds fun ho => hx (eq_commit_of_occurrence? ho)
  · intro rest hr' hthroughout
    have hholds' : (l.run rest).Holds u id := hthroughout rest List.prefix_rfl
    have hrow := row_of_run hlawful hr' hthroughout
    refine ⟨hrow, ?_⟩
    obtain ⟨w, isOpen, r, hv⟩ := hs.sees_of_holds hlawful hholds
    obtain ⟨w', isOpen', r', hv'⟩ :=
      ((hlawful.run rest).sound hr').sees_of_holds (hlawful.run rest) hholds'
    have hrun : empty.run (actions ++ rest) = l.run rest := by rw [run_append, hl]
    have hbefore := amends_visible hl hr isOpen id
    have hafter := amends_visible hrun hr' isOpen' id
    rw [hv] at hbefore
    rw [hv', hrow, answersOf_run hl] at hafter
    obtain ⟨hsame, hgain⟩ := hbefore.later hafter
    exact ⟨r, r', hholds.finds isOpen hv, hholds'.finds isOpen' hv', hsame, hgain⟩
  · intro rest hhas hopen
    exact (hhas.run hlawful hopen).holds

/-- The second unit of work adds to a committed account and opens another one, to which it adds as
well; the third one waits for the first account. -/
def tenure : List Action :=
  [.begin, .call 1 (.createAccount "ann" franc (cents 250)), .commit 1, .begin, .begin,
    .call 2 (.addBalance 1 (cents 50)), .call 2 (.createAccount "bob" franc (cents 90)),
    .call 2 (.addBalance 2 (cents 3)), .call 3 (.getForUpdate 1)]

/-- Then it adds twice to the first account, once in vain, while the third one goes on waiting and a
fourth one commits. -/
def tenureLater : List Action :=
  [.call 2 (.addBalance 1 (cents 7)), .resume 3, .begin,
    .call 4 (.createAccount "cid" dollar (cents 4)), .call 2 (.addBalance 1 greatest), .commit 4]

set_option maxRecDepth 8000 in
theorem tenure_staged :
    (empty.run tenure).drawn.InRange ∧ ((empty.run tenure).run tenureLater).drawn.InRange ∧
    (∃ w a b, (empty.run tenure).units.find? 2 = some w ∧
      w.accounts.find? 1 = some a ∧ a.balance.units = 300 ∧
      w.accounts.find? 2 = some b ∧ b.balance.units = 93 ∧
      (empty.run tenure).Provenance 2 1 (answersOf 2 (empty.journal tenure)) a ∧
      (empty.run tenure).Provenance 2 2 (answersOf 2 (empty.journal tenure)) b) ∧
    (empty.run tenure).Has 2 1 ∧ ((empty.run tenure).run tenureLater).Holds 2 1 ∧
    ((empty.run tenure).step (.rollback 2)).1.books.accounts.find? 1 =
      (empty.run tenure).books.accounts.find? 1 ∧
    (∀ before, before <+: tenureLater → ((empty.run tenure).run before).Holds 2 1) ∧
    ∃ r r', (empty.run tenure).Finds 2 1 r ∧
      ((empty.run tenure).run tenureLater).Finds 2 1 r' ∧
      r'.balance.units = r.balance.units + 7 := by
  have hr : (empty.run tenure).drawn.InRange := by decide
  have hr' : ((empty.run tenure).run tenureLater).drawn.InRange := by decide
  have hhas : (empty.run tenure).Has 2 1 := by
    have hidle : ((empty.run tenure).unit 2).pending = none := by decide
    exact ⟨by decide, fun c hc => by rw [hidle] at hc; cases hc⟩
  have hthroughout : ∀ before, before <+: tenureLater →
      ((empty.run tenure).run before).Holds 2 1 := by
    intro before hbefore
    have hall : ∀ p ∈ tenureLater.inits, ((empty.run tenure).run p).Holds 2 1 := by decide
    exact hall before ((List.mem_inits _ _).mpr hbefore)
  obtain ⟨-, hstaged, hheld⟩ := @staging_invariant _ tenure rfl hr
  obtain ⟨hrow, hfinds, hkept⟩ := hheld 2 1 hhas.holds
  obtain ⟨-, r, r', hr₁, hr₂, -, hgain⟩ := hfinds tenureLater hr' hthroughout
  have hadded : gainOf 1 (answersOf 2 ((empty.run tenure).journal tenureLater)) = 7 := by decide
  obtain ⟨w, isOpen, a, ha, hunits, b, hb, hunits'⟩ :
      ∃ w, (empty.run tenure).units.find? 2 = some w ∧
        ∃ a, w.accounts.find? 1 = some a ∧ a.balance.units = 300 ∧
        ∃ b, w.accounts.find? 2 = some b ∧ b.balance.units = 93 :=
    ⟨_, rfl, _, rfl, by decide, _, rfl, by decide⟩
  exact ⟨hr, hr', ⟨w, a, b, isOpen, ha, hunits, hb, hunits', hstaged 2 w 1 a isOpen ha,
    hstaged 2 w 2 b isOpen hb⟩, hhas, hkept tenureLater hhas (by decide),
    hrow (.rollback 2) (by decide), hthroughout, r, r', hr₁, hr₂, by rw [hgain, hadded]⟩

end Ledger
end FundsLedger
