import FundsLedger.Accounts

/-!
The checks of an opening, as a list. The arguments have to meet five conditions, and the first one
that they do not meet is the cause for which the opening is refused.
-/

namespace FundsLedger

/-- An ASCII letter, a digit or an underscore. -/
def Owner.IsNameChar (c : Char) : Prop :=
  ('A' ≤ c ∧ c ≤ 'Z') ∨ ('a' ≤ c ∧ c ≤ 'z') ∨ ('0' ≤ c ∧ c ≤ '9') ∨ c = '_'

instance (c : Char) : Decidable (Owner.IsNameChar c) := inferInstanceAs (Decidable (_ ∨ _))

theorem Owner.allowed_iff {c : Char} : Owner.allowed c = true ↔ Owner.IsNameChar c := by
  have hupper : c.isUpper = true ↔ 'A' ≤ c ∧ c ≤ 'Z' := decide_eq_true_iff
  have hlower : c.isLower = true ↔ 'a' ≤ c ∧ c ≤ 'z' :=
    Bool.and_eq_true_iff.trans (and_congr decide_eq_true_iff decide_eq_true_iff)
  have hdigit : c.isDigit = true ↔ '0' ≤ c ∧ c ≤ '9' :=
    Bool.and_eq_true_iff.trans (and_congr decide_eq_true_iff decide_eq_true_iff)
  have halphanum : c.isAlphanum = true ↔
      (c.isUpper = true ∨ c.isLower = true) ∨ c.isDigit = true :=
    Bool.or_eq_true_iff.trans (or_congr_left Bool.or_eq_true_iff)
  rw [allowed, Bool.or_eq_true, beq_iff_eq, halphanum, hupper, hlower, hdigit, IsNameChar,
    or_assoc, or_assoc]

/-- A name is refused for its length, and if that is right, for its characters. -/
theorem Owner.validate_eq (owner : String) :
    Owner.validate owner =
      if ¬ (3 ≤ owner.toList.length ∧ owner.toList.length ≤ 100) then
        .error (.invalidLength "owner" 3 100 owner.toList.length)
      else if owner.toList.all fun c => decide (Owner.IsNameChar c) then .ok ()
      else .error (.invalidFormat "owner" owner "letters, digits, underscore only") := by
  have hlength : ¬ (3 ≤ owner.toList.length ∧ owner.toList.length ≤ 100) ↔
      owner.toList.length < 3 ∨ 100 < owner.toList.length := by omega
  have hchars : allowed = fun c => decide (Owner.IsNameChar c) := by
    funext c
    rw [Bool.eq_iff_iff, allowed_iff, decide_eq_true_iff]
  unfold validate
  simp only [hlength, hchars]

namespace Accounts

/-- The conditions on the arguments of an opening, in the order in which they count, each with the
cause for refusing arguments that do not meet it. -/
def openingTerms (owner currency : String) (deposit : Amount) : List (Bool × ValidationError) :=
  [(decide (3 ≤ owner.toList.length ∧ owner.toList.length ≤ 100),
      .invalidLength "owner" 3 100 owner.toList.length),
    (owner.toList.all fun c => decide (Owner.IsNameChar c),
      .invalidFormat "owner" owner "letters, digits, underscore only"),
    (decide (IsCurrencyCode currency), .invalidCurrency currency),
    (decide (currency ∈ Currency.supportedCodes), .unsupportedCurrency currency),
    (decide (0 ≤ deposit.units),
      .invalidFormat "initial_deposit" (toString deposit.units) "a non-negative amount")]

/-- The cause that belongs to the first condition that is not met. -/
def firstFault? (owner currency : String) (deposit : Amount) : Option ValidationError :=
  ((openingTerms owner currency deposit).find? fun term => !term.1).map (·.2)

/-- An opening is refused exactly for the first condition that is not met. -/
theorem checkOpening_cases (owner currency : String) (deposit : Amount) :
    (∃ e, firstFault? owner currency deposit = some e ∧
      checkOpening owner currency deposit = .error e) ∨
    firstFault? owner currency deposit = none ∧ 0 ≤ deposit.units ∧
      ∃ c : Currency, c.code = currency ∧ checkOpening owner currency deposit = .ok c := by
  simp only [firstFault?, openingTerms, checkOpening, Owner.validate_eq, Currency.parse,
    Currency.ensureSupported, bind, Except.bind, pure, Except.pure, throw, throwThe,
    MonadExceptOf.throw]
  by_cases hlength : 3 ≤ owner.toList.length ∧ owner.toList.length ≤ 100
  case neg =>
    rw [decide_eq_false hlength, if_pos hlength]
    exact Or.inl ⟨_, rfl, rfl⟩
  rw [decide_eq_true hlength, if_neg (not_not_intro hlength)]
  cases owner.toList.all fun c => decide (Owner.IsNameChar c)
  case false => exact Or.inl ⟨_, rfl, rfl⟩
  by_cases hcode : IsCurrencyCode currency
  case neg =>
    rw [decide_eq_false hcode, dif_neg hcode]
    exact Or.inl ⟨_, rfl, rfl⟩
  rw [decide_eq_true hcode, dif_pos hcode]
  dsimp only
  by_cases hsupported : currency ∈ Currency.supportedCodes
  case neg =>
    have hnot : ¬ (⟨currency, hcode⟩ : Currency).Supported := hsupported
    rw [decide_eq_false hsupported, if_neg hnot]
    exact Or.inl ⟨_, rfl, rfl⟩
  have hpos : (⟨currency, hcode⟩ : Currency).Supported := hsupported
  rw [decide_eq_true hsupported, if_pos hpos]
  dsimp only
  by_cases hdeposit : 0 ≤ deposit.units
  case neg =>
    rw [decide_eq_false hdeposit, if_pos (Int.not_le.mp hdeposit)]
    exact Or.inl ⟨_, rfl, rfl⟩
  rw [decide_eq_true hdeposit, if_neg (Int.not_lt.mpr hdeposit)]
  exact Or.inr ⟨rfl, hdeposit, ⟨currency, hcode⟩, rfl, rfl⟩

/-- What an opening that is not refused goes on with. -/
theorem of_checkOpening {owner currency : String} {deposit : Amount} {c : Currency}
    (h : checkOpening owner currency deposit = .ok c) : c.code = currency ∧ 0 ≤ deposit.units := by
  rcases checkOpening_cases owner currency deposit with
    ⟨e, -, herror⟩ | ⟨-, hdeposit, c', hcode, hok⟩
  · rw [herror] at h
    cases h
  · rw [hok] at h
    cases h
    exact ⟨hcode, hdeposit⟩

end Accounts
end FundsLedger
