import FundsLedger.Proofs.Ledger.Lawful

/-!
Runs of a ledger. A run is made of moves, so what every move keeps is kept in every run, and a
counter that is in range at the end of a run has been so all along.
-/

namespace FundsLedger

/-- An amount of at most a thousand cents, for samples of runs. -/
def cents (n : Nat) : Amount := ⟨min n 1000, by omega, by omega⟩

/-- The greatest amount, for samples of runs. -/
def greatest : Amount := ⟨9223372036854775807, by decide, by decide⟩

/-- A currency for samples of runs. -/
def franc : Currency := ⟨"CHF", by decide⟩

/-- A supported currency for samples of runs. -/
def dollar : Currency := ⟨"USD", by decide⟩

namespace Ledger

variable {l : Ledger} {a : Action} {actions : List Action}

theorem run_append (l : Ledger) (as bs : List Action) :
    l.run (as ++ bs) = (l.run as).run bs :=
  List.foldl_append

/-- What every move keeps is kept in every run. -/
theorem run_induction {P : Ledger → Prop} (keeps : ∀ l m l', l.Makes m l' → P l → P l') (h : P l)
    (actions : List Action) : P (l.run actions) := by
  induction actions generalizing l with
  | nil => exact h
  | cons a rest ih =>
    obtain ⟨m, hm, -⟩ := l.step_makes a
    exact ih (keeps l m _ hm h)

theorem Lawful.step (h : l.Lawful) (a : Action) : (l.step a).1.Lawful := by
  obtain ⟨m, hm, -⟩ := l.step_makes a
  exact h.makes hm

theorem Lawful.run (h : l.Lawful) (actions : List Action) : (l.run actions).Lawful :=
  run_induction (fun _ _ _ hm h => h.makes hm) h actions

theorem Reachable.lawful (h : l.Reachable) : l.Lawful := by
  obtain ⟨actions, rfl⟩ := h
  exact Lawful.empty.run actions

/-- Counters that are in range at the end of a run have been so all along. -/
theorem upTo_run (l : Ledger) (actions : List Action) : l.drawn.UpTo (l.run actions).drawn :=
  run_induction (P := fun l' => l.drawn.UpTo l'.drawn) (fun _ _ _ hm h => h.trans hm.upTo)
    (.refl _) actions

end Ledger
end FundsLedger
