import FundsLedger.Proofs.Text.Numeral
import FundsLedger.Text.Integer

/-!
Whole numbers as text. A text is a number of a word if it is one sign or none, and then digits, at
least one, whose value is in the range of the word; zeros in front do no harm. The reader takes
exactly these texts, although it checks the range after every digit and not at the end.
-/

namespace FundsLedger.Integer

open Numeral

variable {w : Word} {n : Int} {cs : List Char} {s : String}

/-- The text is these digits, at least one. -/
structure Digits (cs : List Char) (n : Nat) : Prop where
  nonempty : cs ≠ []
  digits : ∀ c ∈ cs, c.isDigit = true
  value : value cs = n

/-- The text is the number: digits, with a sign in front of them or none. -/
inductive Spells : List Char → Int → Prop
  | plain {cs : List Char} {n : Nat} (digits : Digits cs n) : Spells cs n
  | plus {cs : List Char} {n : Nat} (digits : Digits cs n) : Spells ('+' :: cs) n
  | minus {cs : List Char} {n : Nat} (digits : Digits cs n) : Spells ('-' :: cs) (-n)

theorem Digits.of_number (n : Nat) : Digits (Numeral.digits n) n :=
  ⟨digits_ne_nil n, fun _ => isDigit_of_mem_digits, value_digits n⟩

/-- A sign is no digit. -/
theorem Digits.head (h : Digits cs m) {c : Char} (hc : c.isDigit = false) (rest : List Char) :
    cs ≠ c :: rest := by
  rintro rfl
  rw [h.digits c List.mem_cons_self] at hc
  cases hc

theorem spells_printed (n : Int) : Spells (printed n) n := by
  unfold printed
  split
  · have hminus := Spells.minus (Digits.of_number n.natAbs)
    rwa [show (-(n.natAbs : Int)) = n by omega] at hminus
  · have hplain := Spells.plain (Digits.of_number n.natAbs)
    rwa [show (n.natAbs : Int) = n by omega] at hplain

theorem spells_plus_iff : Spells ('+' :: cs) n ↔ ∃ k : Nat, Digits cs k ∧ n = k := by
  constructor
  · intro h
    generalize htext : '+' :: cs = text at h
    cases h with
    | plain digits => exact absurd htext.symm (digits.head rfl cs)
    | plus digits =>
      cases htext
      exact ⟨_, digits, rfl⟩
    | minus digits => cases htext
  · rintro ⟨k, hdigits, rfl⟩
    exact .plus hdigits

theorem spells_minus_iff : Spells ('-' :: cs) n ↔ ∃ k : Nat, Digits cs k ∧ n = -k := by
  constructor
  · intro h
    generalize htext : '-' :: cs = text at h
    cases h with
    | plain digits => exact absurd htext.symm (digits.head rfl cs)
    | plus digits => cases htext
    | minus digits =>
      cases htext
      exact ⟨_, digits, rfl⟩
  · rintro ⟨k, hdigits, rfl⟩
    exact .minus hdigits

theorem spells_unsigned_iff (hplus : ∀ rest, cs ≠ '+' :: rest) (hminus : ∀ rest, cs ≠ '-' :: rest) :
    Spells cs n ↔ ∃ k : Nat, Digits cs k ∧ n = k := by
  constructor
  · intro h
    cases h with
    | plain digits => exact ⟨_, digits, rfl⟩
    | plus digits => exact absurd rfl (hplus _)
    | minus digits => exact absurd rfl (hminus _)
  · rintro ⟨k, hdigits, rfl⟩
    exact .plain hdigits

/-! ## The reader -/

/-- The range is checked after every digit, which comes to the same as a check of the whole: what
has been read so far is never more than the whole. -/
theorem magnitudeFrom_eq_ok_iff {limit : Nat} {past : IntegerError}
    {start m : { n : Nat // n ≤ limit }} :
    magnitudeFrom limit past start cs = .ok m ↔
      (∀ c ∈ cs, c.isDigit = true) ∧ Nat.ofDigitChars 10 cs start = m := by
  induction cs generalizing start with
  | nil => simp [magnitudeFrom, Subtype.ext_iff]
  | cons c rest ih =>
    have hstep : Nat.ofDigitChars 10 (c :: rest) start =
        Nat.ofDigitChars 10 rest (start.val * 10 + digitValue c) := by
      rw [Nat.ofDigitChars_cons, Nat.mul_comm]
      rfl
    have hgrows : start.val * 10 + digitValue c ≤
        Nat.ofDigitChars 10 rest (start.val * 10 + digitValue c) := by
      rw [Nat.ofDigitChars_eq_ofDigitChars_zero]
      exact Nat.le_add_right_of_le (Nat.le_mul_of_pos_left _ (Nat.pow_pos (by decide)))
    rw [hstep]
    simp only [magnitudeFrom]
    split
    · rename_i hdigit
      split
      · rw [ih]
        simp [hdigit]
      · rename_i hpast
        constructor
        · intro h
          cases h
        · rintro ⟨-, hvalue⟩
          have := m.property
          omega
    · rename_i hdigit
      simp [hdigit]

theorem magnitude_eq_ok_iff {limit : Nat} {past : IntegerError} {m : { n : Nat // n ≤ limit }} :
    magnitude limit past cs = .ok m ↔ Digits cs m := by
  unfold magnitude
  split
  · rename_i hempty
    constructor
    · intro h
      cases h
    · intro h
      exact absurd (List.isEmpty_iff.mp hempty) h.nonempty
  · rename_i hnonempty
    rw [magnitudeFrom_eq_ok_iff, ← value_eq]
    exact ⟨fun h => ⟨fun hnil => hnonempty (by rw [hnil]; rfl), h.1, h.2⟩,
      fun h => ⟨h.digits, h.value⟩⟩

/-- Digits behind a sign, which decides what number `f` they stand for. -/
theorem signed_eq_ok_iff {limit : Nat} {past : IntegerError} {f : Nat → Int}
    (hf : ∀ k, w.Holds (f k) ↔ k ≤ limit) {m : { n : Int // w.Holds n }} :
    (magnitude limit past cs >>= fun k => pure ⟨f k, (hf k).mpr k.property⟩) = .ok m ↔
      ∃ k, Digits cs k ∧ m.val = f k := by
  constructor
  · intro h
    cases hread : magnitude limit past cs with
    | error e =>
      rw [hread] at h
      cases h
    | ok k =>
      rw [hread] at h
      cases h
      exact ⟨k, magnitude_eq_ok_iff.mp hread, rfl⟩
  · rintro ⟨k, hdigits, hm⟩
    have hlimit : k ≤ limit := (hf k).mp (hm ▸ m.property)
    rw [(magnitude_eq_ok_iff (m := ⟨k, hlimit⟩)).mpr hdigits]
    exact congrArg Except.ok (Subtype.ext hm.symm)

theorem nonnegative_eq_ok_iff {m : { n : Int // w.Holds n }} :
    nonnegative w cs = .ok m ↔ ∃ k : Nat, Digits cs k ∧ m.val = k := by
  refine signed_eq_ok_iff (f := fun k => k) fun k => ?_
  have := w.least_nonpos
  have := w.greatest_nonneg
  unfold Word.Holds
  omega

theorem nonpositive_eq_ok_iff {m : { n : Int // w.Holds n }} :
    nonpositive w cs = .ok m ↔ ∃ k : Nat, Digits cs k ∧ m.val = -k := by
  refine signed_eq_ok_iff (f := fun k => -k) fun k => ?_
  have := w.least_nonpos
  have := w.greatest_nonneg
  unfold Word.Holds
  omega

/-- The reader takes the texts that are numbers of the word, and reads them as these numbers. -/
theorem ofChars_eq_ok_iff {m : { n : Int // w.Holds n }} :
    ofChars w cs = .ok m ↔ Spells cs m := by
  unfold ofChars
  split
  · constructor
    · intro h
      cases h
    · intro h
      obtain ⟨k, hdigits, -⟩ := (spells_unsigned_iff (by simp) (by simp)).mp h
      exact absurd rfl hdigits.nonempty
  · rw [nonnegative_eq_ok_iff, spells_plus_iff]
  · rw [nonpositive_eq_ok_iff, spells_minus_iff]
  · rename_i hplus hminus
    rw [nonnegative_eq_ok_iff, spells_unsigned_iff hplus hminus]

theorem parse_eq_ok_iff {m : { n : Int // w.Holds n }} :
    parse w s = .ok m ↔ Spells s.toList m :=
  ofChars_eq_ok_iff

/-- What is refused is no number of the word. -/
theorem not_spells_of_parse {e : IntegerError} (h : parse w s = .error e) (hn : w.Holds n) :
    ¬ Spells s.toList n := by
  intro hspells
  rw [(parse_eq_ok_iff (m := ⟨n, hn⟩)).mpr hspells] at h
  cases h

end FundsLedger.Integer
