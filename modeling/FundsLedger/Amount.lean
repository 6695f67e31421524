import FundsLedger.Word

/-!
Sums of money. An amount counts minor units (cents) and stays in the range of a signed 64-bit word;
an addition that would leave the range gives nothing, so no amount ever wraps.
-/

namespace FundsLedger

/-- An amount of money in minor units. -/
structure Amount where
  units : Int
  lower : -9223372036854775808 ≤ units
  upper : units ≤ 9223372036854775807
deriving DecidableEq

namespace Amount

@[ext] theorem ext {a b : Amount} (h : a.units = b.units) : a = b := by
  cases a; cases b; cases h; rfl

/-- The amount of so many units, if it is in range. -/
def ofInt? (n : Int) : Option Amount :=
  if h : -9223372036854775808 ≤ n ∧ n ≤ 9223372036854775807 then some ⟨n, h.1, h.2⟩ else none

/-- No money. -/
def zero : Amount := ⟨0, Word.int64.least_nonpos, Word.int64.greatest_nonneg⟩

/-- The exact sum, if it is in range. -/
def add? (a b : Amount) : Option Amount := ofInt? (a.units + b.units)

/-- The opposite amount; the least amount, which has none in range, is its own. -/
def neg (a : Amount) : Amount :=
  if h : a.units = -9223372036854775808 then a
  else ⟨-a.units, by have := a.upper; omega, by have := a.lower; omega⟩

@[simp] theorem zero_units : zero.units = 0 := rfl

theorem ofInt?_eq_some_iff {n : Int} {a : Amount} : ofInt? n = some a ↔ a.units = n := by
  unfold ofInt?
  constructor
  · intro h
    split at h
    · cases h; rfl
    · cases h
  · rintro rfl
    rw [dif_pos ⟨a.lower, a.upper⟩]

theorem add?_eq_some_iff {a b c : Amount} : a.add? b = some c ↔ c.units = a.units + b.units :=
  ofInt?_eq_some_iff

theorem add?_eq_none_iff {a b : Amount} :
    a.add? b = none ↔
      a.units + b.units < -9223372036854775808 ∨ 9223372036854775807 < a.units + b.units := by
  unfold add? ofInt?
  split <;> simp <;> omega

theorem neg_units {a : Amount} (h : 0 < a.units) : a.neg.units = -a.units := by
  unfold neg
  rw [dif_neg (by omega)]

end Amount
end FundsLedger
