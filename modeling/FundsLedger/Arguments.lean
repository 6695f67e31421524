/-!
Arguments of the program. The flag `--env`, or `-e` for short, and the argument after it choose the
environment; all other arguments are positional.

Two scans read the arguments. `environment` looks for the first flag with an argument after it, and
`positional` leaves every flag out together with the argument after it, whatever that is.
-/

namespace FundsLedger.Arguments

/-- The argument is the flag that chooses the environment. -/
def IsFlag (arg : String) : Prop := arg = "--env" ∨ arg = "-e"

instance (arg : String) : Decidable (IsFlag arg) := inferInstanceAs (Decidable (_ ∨ _))

/-- The environment that is meant if none is chosen. -/
def usualEnvironment : String := "dev"

/-- The environment that the arguments choose. -/
def environment : List String → String
  | arg :: next :: rest => if IsFlag arg then next else environment (next :: rest)
  | _ => usualEnvironment

/-- The arguments without the flags and what belongs to them. -/
def positional : List String → List String
  | [] => []
  | [arg] => if IsFlag arg then [] else [arg]
  | arg :: next :: rest =>
    if IsFlag arg then positional rest else arg :: positional (next :: rest)

end FundsLedger.Arguments
