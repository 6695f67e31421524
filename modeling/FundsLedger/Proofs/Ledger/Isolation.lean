import FundsLedger.Proofs.Ledger.View

/-!
Isolation of units of work. What a unit of work has staged can be exchanged for anything else, and
every step about another unit of work shows the same as before and does the same as before: it
commutes with the exchange. So nobody else can tell what is staged.
-/

namespace FundsLedger

namespace Table

variable {α : Type}

theorem insert_erase_comm (t : Table α) {key key' : Int} (h : key ≠ key') (row : α) :
    (t.insert key row).erase key' = (t.erase key').insert key row := by
  apply ext_find?
  intro k
  simp only [find?_insert, find?_erase]
  by_cases hk : k = key
  · simp [hk, h]
  · simp [hk]

end Table

namespace Ledger

/-- The ledger in which the unit of work has staged something else. -/
def restage (l : Ledger) (u : UnitId) (x : UnitOfWork) : Ledger :=
  { l with units := l.units.insert u x }

/-- The same exchange in what comes of a call. -/
def restaged {β : Type} (u : UnitId) (x : UnitOfWork) (p : Ledger × β) : Ledger × β :=
  (p.1.restage u x, p.2)

variable {l : Ledger} {u u' : UnitId} {x w : UnitOfWork} {c : Call}

theorem restage_find? (hne : u' ≠ u) : (l.restage u x).units.find? u' = l.units.find? u' := by
  simp [restage, hne]

theorem restage_request (row : AccountId) :
    (l.restage u x).request u' row = (l.request u' row).restage u x := by
  by_cases hmem : ⟨u', row⟩ ∈ l.requests
  · simp [request, restage, hmem]
  · simp [request, restage, hmem]

theorem restage_refusal? : (l.restage u x).refusal? w c = l.refusal? w c := by
  cases c <;> rfl

theorem restage_finish (hne : u' ≠ u) :
    (l.restage u x).finish u' w c = restaged u x (l.finish u' w c) := by
  have hperform : (l.restage u x).perform w c = l.perform w c := perform_congr rfl rfl rfl rfl
  simp only [finish, hperform]
  simp [restaged, restage, Table.insert_comm _ (Ne.symm hne)]

/-- Making a call in another unit of work. -/
theorem restage_call? (hne : u' ≠ u) :
    (l.restage u x).call? u' c = (l.call? u' c).map (restaged u x) := by
  unfold call?
  rw [restage_find? hne]
  cases l.units.find? u' with
  | none => rfl
  | some w =>
    simp only [restage_refusal?]
    split
    · rfl
    · cases l.refusal? w c with
      | some e => rfl
      | none =>
        cases c.row? with
        | none => simp [restage_finish hne]
        | some row =>
          have hholds : ((l.request u' row).restage u x).Holds u' row ↔
              (l.request u' row).Holds u' row := .rfl
          simp only [restage_request, hholds, restage_finish hne]
          split
          · rfl
          · simp [restaged, restage, Table.insert_comm _ (Ne.symm hne)]

/-- Going on with a call in another unit of work. -/
theorem restage_resume? (hne : u' ≠ u) :
    (l.restage u x).resume? u' c = (l.resume? u' c).map (restaged u x) := by
  unfold resume?
  rw [restage_find? hne]
  cases l.units.find? u' with
  | none => rfl
  | some w =>
    simp only
    split
    · cases c.row? with
      | none => rfl
      | some row =>
        have hholds : (l.restage u x).Holds u' row ↔ l.Holds u' row := .rfl
        simp only [hholds, restage_finish hne]
        split <;> rfl
    · rfl

theorem restage_withdraw (hne : u' ≠ u) :
    (l.restage u x).withdraw u' = (l.withdraw u').restage u x := by
  unfold withdraw
  rw [restage_find? hne]
  cases l.units.find? u' with
  | none => rfl
  | some w =>
    simp only
    split
    · rfl
    · simp [restage, Table.insert_comm _ (Ne.symm hne)]

theorem restage_close (hne : u' ≠ u) : (l.restage u x).close u' = (l.close u').restage u x := by
  simp [close, restage, Table.insert_erase_comm _ (Ne.symm hne)]

/-- Committing another unit of work. -/
theorem restage_commit? (hne : u' ≠ u) :
    (l.restage u x).commit? u' = (l.commit? u').map (restaged u x) := by
  unfold commit?
  rw [restage_find? hne]
  cases l.units.find? u' with
  | none => rfl
  | some w =>
    simp only
    split
    · rfl
    · have hinjected : (l.restage u x).injected? .commit = l.injected? .commit := rfl
      have hbooks : (l.restage u x).books = l.books := rfl
      have hconflicts : (l.restage u x).conflicts = l.conflicts := rfl
      simp only [commitUnit, hinjected, hbooks, hconflicts, restage_close hne, Option.map_some]
      split
      · rfl
      · split
        · rfl
        · split <;> rfl

theorem restage_rollback? (hne : u' ≠ u) :
    (l.restage u x).rollback? u' = (l.rollback? u').map (restaged u x) := by
  unfold rollback?
  rw [restage_find? hne]
  cases l.units.find? u' with
  | none => rfl
  | some w =>
    simp only [restage_close hne]
    split <;> rfl

theorem restage_abandon (hne : u' ≠ u) :
    (l.restage u x).abandon u' = restaged u x (l.abandon u') := by
  unfold abandon
  rw [restage_find? hne]
  cases l.units.find? u' with
  | none => rfl
  | some w => simp [restage_close hne, restaged]

theorem restage_begin (hu : u ≤ l.begins) :
    (l.restage u x).begin = restaged u x l.begin := by
  have hne : u ≠ l.begins + 1 := Int.ne_of_lt (Int.lt_add_one_of_le hu)
  simp [begin, restage, restaged, Table.insert_comm _ hne]

/-- Whatever a unit of work has staged, a step about another one, or about none, shows and does the
same. -/
theorem step_restage {a : Action} (ha : a.unit? ≠ some u) (hu : u ≤ l.begins) :
    (l.restage u x).step a = restaged u x (l.step a) := by
  have hne : ∀ {u'}, a.unit? = some u' → u' ≠ u := fun hu' heq => ha (heq ▸ hu')
  cases a with
  | begin => simp only [step, restage_begin hu]; rfl
  | call u' c =>
    simp only [step, restage_call? (hne rfl)]
    cases l.call? u' c <;> rfl
  | resume u' =>
    simp only [step, restage_resume? (hne rfl), restage_find? (hne rfl)]
    split
    · rfl
    · rename_i c _
      cases l.resume? u' c <;> rfl
  | withdraw u' => simp only [step, restage_withdraw (hne rfl)]; rfl
  | commit u' =>
    simp only [step, restage_commit? (hne rfl)]
    cases l.commit? u' <;> rfl
  | rollback u' =>
    simp only [step, restage_rollback? (hne rfl)]
    cases l.rollback? u' <;> rfl
  | abandon u' => simp only [step, restage_abandon (hne rfl)]; rfl
  | failAt point => rfl
  | injectConflicts n => rfl
  | setClock now => rfl

end Ledger
end FundsLedger
