import FundsLedger.Validation
import FundsLedger.Word

/-!
Pages of a listing. A page is a window: so many rows after skipping so many. Callers choose it by a
page number from 1 and a size from 5 to 10.
-/

namespace FundsLedger

/-- A window on a listing. -/
structure Page where
  limit : Int
  offset : Int
deriving DecidableEq, Repr

namespace Page

/-- The window on everything. -/
def all : Page := ⟨Word.int64.greatest, 0⟩

/-- Page `pageId`, counted from 1, of pages of `pageSize` rows. -/
def numbered (pageId pageSize : Int) : Except ValidationError Page :=
  if pageId < 1 then .error (.invalidPageId pageId)
  else if pageSize < 5 ∨ 10 < pageSize then .error (.invalidPageSize pageSize)
  else .ok ⟨pageSize, (pageId - 1) * pageSize⟩

/-- The rows in the window; a negative limit or offset counts as zero. -/
def window {α : Type} (p : Page) (rows : List α) : List α :=
  (rows.drop p.offset.toNat).take p.limit.toNat

end Page
end FundsLedger
