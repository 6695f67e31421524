import FundsLedger.Validation

/-!
Currencies. A currency is named by three letters from A to Z; of those names the ledger opens
accounts in a few only. A `Currency` always holds a well-formed code, so whatever reads one has to
go through `Currency.parse`.
-/

namespace FundsLedger

/-- The text is three letters from A to Z. -/
def IsCurrencyCode (code : String) : Prop :=
  code.toList.length = 3 ∧ ∀ c ∈ code.toList, 'A' ≤ c ∧ c ≤ 'Z'

-- The second instance is named, since another one would try all characters there are.
instance (code : String) : Decidable (IsCurrencyCode code) :=
  @instDecidableAnd _ _ _ (List.decidableBAll _ code.toList)

/-- A currency, by its code. -/
structure Currency where
  code : String
  wellFormed : IsCurrencyCode code
deriving DecidableEq

namespace Currency

/-- The currency of that code. -/
def parse (code : String) : Except ValidationError Currency :=
  if h : IsCurrencyCode code then .ok ⟨code, h⟩ else .error (.invalidCurrency code)

/-- The codes of the currencies in which accounts may be opened. -/
def supportedCodes : List String := ["USD", "EUR", "CAD"]

/-- Accounts may be opened in the currency. -/
def Supported (c : Currency) : Prop := c.code ∈ supportedCodes

instance (c : Currency) : Decidable c.Supported :=
  inferInstanceAs (Decidable (_ ∈ _))

/-- Refuses a currency in which no account may be opened. -/
def ensureSupported (c : Currency) : Except ValidationError Unit :=
  if c.Supported then .ok () else .error (.unsupportedCurrency c.code)

theorem code_inj {c c' : Currency} : c.code = c'.code ↔ c = c' := by
  cases c
  cases c'
  simp

theorem parse_eq_ok_iff {code : String} {c : Currency} : parse code = .ok c ↔ c.code = code := by
  unfold parse
  constructor
  · intro h
    split at h
    · cases h; rfl
    · cases h
  · rintro rfl
    rw [dif_pos c.wellFormed]

theorem parse_eq_error_iff {code : String} {e : ValidationError} :
    parse code = .error e ↔ ¬ IsCurrencyCode code ∧ e = .invalidCurrency code := by
  unfold parse
  split <;> simp_all [eq_comm]

end Currency
end FundsLedger
