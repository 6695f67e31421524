import Mathlib
import FundsLedger.Proofs.Table
import FundsLedger.UnitOfWork

/-!
Movements on an account. A balance that starts somewhere and is changed by one amount after the
other stays in a band if it is never negative and never larger than an amount can be. Sums that are
checked at every step succeed exactly along such movements, and give the exact sum.
-/

namespace FundsLedger

variable {start x : Int} {xs ys : List Int}

/-- Whoever starts with this balance and adds the amounts one after the other always has a balance
that is not negative and not larger than an amount can be. -/
def InBand (start : Int) (xs : List Int) : Prop :=
  ∀ n, 0 ≤ start + (xs.take n).sum ∧ start + (xs.take n).sum ≤ 9223372036854775807

namespace InBand

theorem nil (hlow : 0 ≤ start) (hhigh : start ≤ 9223372036854775807) : InBand start [] := by
  intro n
  simpa using ⟨hlow, hhigh⟩

theorem first (h : InBand start xs) : 0 ≤ start ∧ start ≤ 9223372036854775807 := by
  simpa using h 0

theorem total (h : InBand start xs) :
    0 ≤ start + xs.sum ∧ start + xs.sum ≤ 9223372036854775807 := by
  simpa using h xs.length

theorem tail (h : InBand start (x :: xs)) : InBand (start + x) xs := by
  intro n
  have := h (n + 1)
  rwa [List.take_succ_cons, List.sum_cons, ← Int.add_assoc] at this

/-- Two stretches of movements follow one another. -/
theorem append (h : InBand start xs) (h' : InBand (start + xs.sum) ys) :
    InBand start (xs ++ ys) := by
  intro n
  rw [List.take_append]
  by_cases hn : n ≤ xs.length
  · rw [Nat.sub_eq_zero_of_le hn, List.take_zero, List.append_nil]
    exact h n
  · rw [List.take_of_length_le (by omega), List.sum_append, ← Int.add_assoc]
    exact h' (n - xs.length)

theorem concat (h : InBand start xs) (hlow : 0 ≤ start + xs.sum + x)
    (hhigh : start + xs.sum + x ≤ 9223372036854775807) : InBand start (xs ++ [x]) := by
  refine h.append fun n => ?_
  cases n with
  | zero => simpa using h.total
  | succ n => simpa using ⟨hlow, hhigh⟩

end InBand

/-- A checked sum along movements that stay in the band is the exact sum. -/
theorem Amount.sum?_of_inBand {s : Amount} {amounts : List Amount}
    (h : InBand s.units (amounts.map (·.units))) :
    ∃ sum, Amount.sum? s amounts = some sum ∧
      sum.units = s.units + (amounts.map (·.units)).sum := by
  induction amounts generalizing s with
  | nil => exact ⟨s, rfl, by simp⟩
  | cons a rest ih =>
    rw [List.map_cons] at h
    obtain ⟨hlow, hhigh⟩ := h.tail.first
    obtain ⟨next, hnext⟩ : ∃ next : Amount, next.units = s.units + a.units :=
      ⟨⟨s.units + a.units, by omega, hhigh⟩, rfl⟩
    have hadd : s.add? a = some next := Amount.add?_eq_some_iff.mpr hnext
    obtain ⟨sum, hsum, hunits⟩ := ih (s := next) (by rw [hnext]; exact h.tail)
    refine ⟨sum, ?_, ?_⟩
    · rw [Amount.sum?, hadd]
      exact hsum
    · rw [hunits, hnext, List.map_cons, List.sum_cons, Int.add_assoc]

namespace Books

variable {b : Books} {id : Int} {e : Entry}

/-- The committed balance of an account; an account that is not there has none. -/
def balanceOf (b : Books) (id : AccountId) : Int :=
  match b.accounts.find? id with
  | some a => a.balance.units
  | none => 0

/-- The amounts of the committed entries on an account, in ascending order of the entries. -/
def movements (b : Books) (id : AccountId) : List Int := (b.entriesOf id).map (·.amount.units)

theorem balanceOf_of_find? {a : Account} (h : b.accounts.find? id = some a) :
    b.balanceOf id = a.balance.units := by
  simp [balanceOf, h]

/-- Entries stand under their own identifiers. -/
def Keyed (b : Books) : Prop := ∀ key e, b.entries.find? key = some e → e.id = key

theorem mem_entriesOf (hk : b.Keyed) :
    e ∈ b.entriesOf id ↔ b.entries.find? e.id = some e ∧ e.accountId = id := by
  rw [entriesOf, List.mem_filter, Table.Keyed.mem_values_iff hk, decide_eq_true_iff]

/-- The entries on an account stand in ascending order. -/
theorem entriesOf_ascending (hk : b.Keyed) (id : AccountId) :
    (b.entriesOf id).Pairwise (·.id < ·.id) :=
  (Table.Keyed.values_ascending hk).filter _

end Books

namespace UnitOfWork

variable {w : UnitOfWork} {b : Books} {id : Int}

/-- The entries that a unit of work has staged on an account, in order. -/
def entriesOn (w : UnitOfWork) (id : AccountId) : List Entry := w.entries.filter (·.accountId = id)

/-- The amounts of the entries that a unit of work has staged on an account, in order. -/
def movements (w : UnitOfWork) (id : AccountId) : List Int :=
  (w.entriesOn id).map (·.amount.units)

theorem mem_entriesOn {e : Entry} : e ∈ w.entriesOn id ↔ e ∈ w.entries ∧ e.accountId = id := by
  simp [entriesOn, List.mem_filter]

/-- The sum of the entries on an account as a unit of work sees them is exact while their movements
stay in the band. -/
theorem entrySum?_of_inBand (h : InBand 0 (b.movements id ++ w.movements id)) :
    ∃ sum, w.entrySum? b id = some sum ∧
      sum.units = (b.movements id).sum + (w.movements id).sum := by
  have hmap : ((b.entriesOf id).map (·.amount) ++ (w.entriesOn id).map (·.amount)).map
      (·.units) = b.movements id ++ w.movements id := by
    simp [Books.movements, movements, Function.comp_def]
  rw [← hmap] at h
  obtain ⟨sum, hsum, hunits⟩ := Amount.sum?_of_inBand (s := .zero) h
  refine ⟨sum, hsum, ?_⟩
  rw [hunits, hmap, List.sum_append, Amount.zero_units, Int.zero_add]

end UnitOfWork
end FundsLedger
