import FundsLedger.Process

/-!
Paths through work. Work is a tree: every answer to a call leads to a branch. A path is the list of
the calls that have been answered so far, each with its answer, and leads to the work that is left.
-/

namespace FundsLedger.Work

variable {ε α β : Type}

/-- Once these calls have been answered like this, `rest` is left of the work. -/
inductive Path : Work ε α → List Answered → Work ε α → Prop
  | refl (w : Work ε α) : Path w [] w
  | call {c : Call} {next : c.Result → Work ε α} {r : c.Result} {calls : List Answered}
      {rest : Work ε α} (path : Path (next r) calls rest) :
      Path (.call c next) (⟨c, r⟩ :: calls) rest
  | note {event : Event} {w : Work ε α} {calls : List Answered} {rest : Work ε α}
      (path : Path w calls rest) : Path (.note event w) calls rest

namespace Path

variable {w w' rest : Work ε α} {calls calls' : List Answered}

theorem trans (h : w.Path calls w') (h' : w'.Path calls' rest) : w.Path (calls ++ calls') rest := by
  induction h with
  | refl => exact h'
  | call path ih => exact .call (ih h')
  | note path ih => exact .note (ih h')

/-- One more call is answered. -/
theorem concat {c : Call} {next : c.Result → Work ε α} (h : w.Path calls (.call c next))
    (r : c.Result) : w.Path (calls ++ [⟨c, r⟩]) (next r) :=
  h.trans (.call (.refl _))

/-- One more event is reported. -/
theorem report {event : Event} (h : w.Path calls (.note event rest)) : w.Path calls rest := by
  simpa using h.trans (.note (.refl rest))

end Path
end FundsLedger.Work
