import FundsLedger.Proofs.Ledger.Rereading

/-!
The sum of the entries on an account. A ledger in memory adds the entries one after the other, those
of the books first and then those staged, and gives up as soon as a partial sum leaves the range. So
it answers the exact sum or an error, and it is the partial sums that decide which: where amounts of
both signs meet at the limits, a sum that is in range may be refused, and in another order of the
same entries it is not.
-/

namespace FundsLedger

/-- The sum of amounts in exact arithmetic. -/
def exactSum (amounts : List Amount) : Int := (amounts.map (·.units)).sum

/-- The amounts of the entries on an account, committed and staged, in the order in which they are
added up. -/
def UnitOfWork.amountsOn (w : UnitOfWork) (b : Books) (id : AccountId) : List Amount :=
  (b.entriesOf id).map (·.amount) ++ (w.entries.filter (·.accountId = id)).map (·.amount)

/-- Every partial sum is in range. -/
def AllInRange (amounts : List Amount) : Prop :=
  ∀ first, first <+: amounts → Word.int64.Holds (exactSum first)

variable {amounts : List Amount}

theorem exactSum_cons (a : Amount) (rest : List Amount) :
    exactSum (a :: rest) = a.units + exactSum rest := by
  simp [exactSum]

theorem Amount.holds (a : Amount) : Word.int64.Holds a.units := ⟨a.lower, a.upper⟩

/-- The partial sums of a list are the first amount and what the partial sums of the others add to
it. -/
theorem forall_prefix_cons {a : Amount} {rest : List Amount} {start : Amount} :
    (∀ first, first <+: a :: rest → Word.int64.Holds (start.units + exactSum first)) ↔
      ∀ first, first <+: rest → Word.int64.Holds (start.units + a.units + exactSum first) := by
  constructor
  · intro h first hfirst
    have hcons := h (a :: first) (List.cons_prefix_cons.mpr ⟨rfl, hfirst⟩)
    rwa [exactSum_cons, ← Int.add_assoc] at hcons
  · intro h first hfirst
    cases first with
    | nil => simpa [exactSum] using start.holds
    | cons b first =>
      obtain ⟨rfl, hrest⟩ := List.cons_prefix_cons.mp hfirst
      rw [exactSum_cons, ← Int.add_assoc]
      exact h first hrest

/-- A checked sum succeeds exactly when every partial sum is in range, and then it is exact. -/
theorem Amount.sum?_eq_some_iff {start sum : Amount} :
    Amount.sum? start amounts = some sum ↔
      sum.units = start.units + exactSum amounts ∧
        ∀ first, first <+: amounts → Word.int64.Holds (start.units + exactSum first) := by
  induction amounts generalizing start with
  | nil =>
    simp only [Amount.sum?, Option.some.injEq, exactSum, List.map_nil, List.sum_nil, Int.add_zero,
      List.prefix_nil, forall_eq]
    constructor
    · intro h
      exact ⟨by rw [h], start.holds⟩
    · intro h
      exact Amount.ext h.1.symm
  | cons a rest ih =>
    rw [Amount.sum?, Option.bind_eq_some_iff, exactSum_cons, ← Int.add_assoc, forall_prefix_cons]
    constructor
    · rintro ⟨next, hnext, hrest⟩
      rw [← Amount.add?_eq_some_iff.mp hnext]
      exact ih.mp hrest
    · rintro ⟨hsum, hprefixes⟩
      -- The first partial sum is in range, so the first addition succeeds.
      obtain ⟨hlower, hupper⟩ := hprefixes [] List.nil_prefix
      simp only [exactSum, List.map_nil, List.sum_nil, Int.add_zero] at hlower hupper
      refine ⟨⟨start.units + a.units, hlower, hupper⟩, Amount.add?_eq_some_iff.mpr rfl, ?_⟩
      exact ih.mpr ⟨hsum, hprefixes⟩

theorem UnitOfWork.entrySum?_eq_some_iff {w : UnitOfWork} {b : Books} {id : AccountId}
    {sum : Amount} : w.entrySum? b id = some sum ↔
      sum.units = exactSum (w.amountsOn b id) ∧ AllInRange (w.amountsOn b id) := by
  have h := @Amount.sum?_eq_some_iff (w.amountsOn b id) Amount.zero sum
  simp only [Amount.zero_units, Int.zero_add] at h
  exact h

/-- Amounts of one sign stay in range if their sum does: no partial sum goes further. -/
theorem AllInRange.of_one_sign
    (hsign : (∀ a ∈ amounts, 0 ≤ a.units) ∨ ∀ a ∈ amounts, a.units ≤ 0)
    (h : Word.int64.Holds (exactSum amounts)) : AllInRange amounts := by
  rintro first ⟨rest, rfl⟩
  have hsplit : exactSum (first ++ rest) = exactSum first + exactSum rest := by simp [exactSum]
  have nonneg : ∀ part : List Amount, (∀ a ∈ part, 0 ≤ a.units) → 0 ≤ exactSum part :=
    fun part hpart => List.sum_nonneg (List.forall_mem_map.mpr hpart)
  have nonpos : ∀ part : List Amount, (∀ a ∈ part, a.units ≤ 0) → exactSum part ≤ 0 := by
    intro part hpart
    have hle := List.sum_le_card_nsmul (part.map (·.units)) 0 (List.forall_mem_map.mpr hpart)
    rwa [nsmul_zero] at hle
  obtain ⟨hlower, hupper⟩ := h
  rw [hsplit] at hlower hupper
  simp only [Word.int64] at hlower hupper
  rcases hsign with hsign | hsign
  · have hfirst := nonneg first (List.forall_mem_append.mp hsign).1
    have hrest := nonneg rest (List.forall_mem_append.mp hsign).2
    simp only [Word.Holds, Word.int64]
    omega
  · have hfirst := nonpos first (List.forall_mem_append.mp hsign).1
    have hrest := nonpos rest (List.forall_mem_append.mp hsign).2
    simp only [Word.Holds, Word.int64]
    omega

namespace Ledger

variable {l : Ledger} {u : UnitId} {w : UnitOfWork}

/-- The sum of the entries on an account is answered at once and changes nothing. The answer is the
exact sum if all partial sums, by identifier in the books and then as they were appended, are in
range, and otherwise an error. -/
theorem entrySum_answered (isOpen : l.units.find? u = some w) (idle : w.pending = none)
    (id : AccountId) :
    ∃ r : (Call.entrySum id).Result,
      l.step (.call u (.entrySum id)) = (l, .answered u ⟨.entrySum id, r⟩) ∧
      (∀ sum, r = .ok sum ↔
        sum.units = exactSum (w.amountsOn l.books id) ∧ AllInRange (w.amountsOn l.books id)) ∧
      ∀ e, r = .error e ↔
        e = .internal s!"entry sum overflow on account {id}" ∧
          ¬ AllInRange (w.amountsOn l.books id) := by
  refine ⟨_, step_reads isOpen idle trivial, ?_⟩
  simp only [perform]
  cases hsum : w.entrySum? l.books id with
  | none =>
    have hrange : ¬ AllInRange (w.amountsOn l.books id) := by
      intro hall
      obtain ⟨hlower, hupper⟩ := hall _ List.prefix_rfl
      have hsome : w.entrySum? l.books id = some ⟨_, hlower, hupper⟩ :=
        UnitOfWork.entrySum?_eq_some_iff.mpr ⟨rfl, hall⟩
      rw [hsum] at hsome
      cases hsome
    constructor
    · intro sum
      simp [hrange]
    · intro e
      simp [hrange, eq_comm]
  | some sum =>
    have hexact := UnitOfWork.entrySum?_eq_some_iff.mp hsum
    constructor
    · intro sum'
      rw [← UnitOfWork.entrySum?_eq_some_iff, hsum]
      simp
    · intro e
      simp [hexact.2]

/-- Where all entries on an account are credits, or all are debits, their order does not matter: the
answer is the exact sum if it is in range, and otherwise an error. -/
theorem entrySum_of_one_sign (isOpen : l.units.find? u = some w) (idle : w.pending = none)
    (id : AccountId) (hsign : (∀ a ∈ w.amountsOn l.books id, 0 ≤ a.units) ∨
      ∀ a ∈ w.amountsOn l.books id, a.units ≤ 0) :
    ∃ r : (Call.entrySum id).Result,
      l.step (.call u (.entrySum id)) = (l, .answered u ⟨.entrySum id, r⟩) ∧
      (∀ sum, r = .ok sum ↔ sum.units = exactSum (w.amountsOn l.books id)) ∧
      ∀ e, r = .error e ↔
        e = .internal s!"entry sum overflow on account {id}" ∧
          ¬ Word.int64.Holds (exactSum (w.amountsOn l.books id)) := by
  have hiff : AllInRange (w.amountsOn l.books id) ↔
      Word.int64.Holds (exactSum (w.amountsOn l.books id)) :=
    ⟨fun hall => hall _ List.prefix_rfl, .of_one_sign hsign⟩
  obtain ⟨r, hstep, hok, herror⟩ := entrySum_answered isOpen idle id
  rw [hiff] at hok herror
  refine ⟨r, hstep, fun sum => ?_, herror⟩
  rw [hok sum]
  constructor
  · intro h
    exact h.1
  · intro h
    exact ⟨h, h ▸ sum.holds⟩

/-- The greatest amount, a cent and the cent taken back are appended in this order. -/
def spilled : List Action :=
  [.begin, .call 1 (.createAccount "ann" franc .zero),
    .call 1 (.appendEntry 1 greatest),
    .call 1 (.appendEntry 1 (cents 1)),
    .call 1 (.appendEntry 1 (cents 1).neg)]

/-- A sum that is in range is refused for the sake of a partial sum that is not. -/
theorem spilled_refused :
    (empty.run spilled).Reachable ∧
    ∃ w, (empty.run spilled).units.find? 1 = some w ∧ w.pending = none ∧
      exactSum (w.amountsOn (empty.run spilled).books 1) = 9223372036854775807 ∧
      Word.int64.Holds (exactSum (w.amountsOn (empty.run spilled).books 1)) ∧
      (empty.run spilled).step (.call 1 (.entrySum 1)) =
        (empty.run spilled,
          .answered 1 ⟨.entrySum 1, .error (.internal "entry sum overflow on account 1")⟩) :=
  ⟨⟨spilled, rfl⟩, _, rfl, rfl, by decide, by decide, rfl⟩

/-- The same entries in another order, one of them committed by another unit of work. -/
def contained : List Action :=
  [.begin, .call 1 (.createAccount "ann" franc .zero),
    .call 1 (.appendEntry 1 greatest), .commit 1, .begin,
    .call 2 (.appendEntry 1 (cents 1).neg),
    .call 2 (.appendEntry 1 (cents 1))]

/-- In the order in which no partial sum leaves the range, the same sum is answered. -/
theorem contained_answered :
    ∃ w sum, (empty.run contained).units.find? 2 = some w ∧ w.pending = none ∧
      (empty.run contained).step (.call 2 (.entrySum 1)) =
        (empty.run contained, .answered 2 ⟨.entrySum 1, .ok sum⟩) ∧
      sum.units = exactSum (w.amountsOn (empty.run contained).books 1) ∧
      sum.units = 9223372036854775807 := by
  obtain ⟨w, isOpen, idle⟩ : ∃ w, (empty.run contained).units.find? 2 = some w ∧
      w.pending = none := ⟨_, rfl, rfl⟩
  obtain ⟨r, hstep, hok, -⟩ := entrySum_answered isOpen idle 1
  obtain ⟨sum, hr, hunits⟩ : ∃ sum : Amount, r = .ok sum ∧ sum.units = 9223372036854775807 := by
    have hanswer : (empty.run contained).step (.call 2 (.entrySum 1)) =
        (empty.run contained, .answered 2 ⟨.entrySum 1, .ok greatest⟩) := rfl
    rw [hanswer] at hstep
    cases hstep
    exact ⟨_, rfl, rfl⟩
  subst hr
  exact ⟨w, sum, isOpen, idle, hstep, ((hok sum).mp rfl).1, hunits⟩

end Ledger
end FundsLedger
