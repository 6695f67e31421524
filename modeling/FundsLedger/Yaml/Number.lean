import FundsLedger.Text.Numeral
import FundsLedger.Yaml.Value

/-!
Natural numbers in YAML: plain decimal digits that do not start with a needless zero, or digits in
base 16, 8 or 2 after `0x`, `0o` or `0b`. A plus sign may stand in front.
-/

namespace FundsLedger.Yaml

/-- The number that digits in a base stand for, if there is a digit and every character is one. -/
def numberIn? (base : Nat) (cs : List Char) : Option Nat :=
  if cs.isEmpty then none
  else (cs.mapM fun c => (Numeral.hexValue? c).filter (· < base)).map
    fun ds => ds.foldl (fun n d => n * base + d) 0

/-- The number in base 10, which has no needless zero in front. -/
def decimal? (cs : List Char) : Option Nat :=
  if 1 < cs.length ∧ cs.head? = some '0' then none else numberIn? 10 cs

/-- The text without a plus sign in front. -/
def unsigned : List Char → List Char
  | '+' :: rest => rest
  | cs => cs

/-- The natural number that a plain scalar stands for. -/
def natural? : Yaml → Option Nat
  | scalar true text =>
    match unsigned text.toList with
    | '0' :: 'x' :: rest => numberIn? 16 rest
    | '0' :: 'o' :: rest => numberIn? 8 rest
    | '0' :: 'b' :: rest => numberIn? 2 rest
    | cs => decimal? cs
  | _ => none

end FundsLedger.Yaml
