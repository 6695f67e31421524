import Mathlib.Logic.ExistsUnique
import FundsLedger.Program

/-!
Readings of arguments. Read from left to right, arguments fall into plain ones and pairs of a flag
and the argument after it, whatever that is, and at the end there may be a flag that nothing
follows. There is one such reading of every list, and both scans go by it: one lists what is plain,
and the other finds the first pair. So a pair can be put anywhere between the pieces of a reading
without a change of the command.
-/

namespace FundsLedger

namespace Arguments

/-! ## Readings -/

/-- A plain argument, or a flag with the argument after it. -/
inductive Piece where
  | plain (arg : String) (noFlag : ¬ IsFlag arg)
  | choice (flag value : String) (isFlag : IsFlag flag)

namespace Piece

/-- The arguments that the piece is made of. -/
def written : Piece → List String
  | plain arg _ => [arg]
  | choice flag value _ => [flag, value]

/-- The argument, if the piece is a plain one. -/
def plain? : Piece → Option String
  | plain arg _ => some arg
  | choice .. => none

/-- The value, if the piece is a pair. -/
def value? : Piece → Option String
  | plain .. => none
  | choice _ value _ => some value

end Piece

/-- Arguments read from left to right: the pieces, and the flag at the end that has no value. -/
structure Reading where
  pieces : List Piece
  dangling : Option { flag : String // IsFlag flag }

namespace Reading

/-- The arguments that are read like this. -/
def written (r : Reading) : List String :=
  r.pieces.flatMap Piece.written ++ (r.dangling.map (·.val)).toList

/-- The plain arguments. -/
def plain (r : Reading) : List String := r.pieces.filterMap Piece.plain?

/-- The values of the pairs. -/
def values (r : Reading) : List String := r.pieces.filterMap Piece.value?

/-- The reading with one more piece in front. -/
def cons (p : Piece) (r : Reading) : Reading := { r with pieces := p :: r.pieces }

/-- One reading after another whose last flag has its value. -/
def append (r s : Reading) : Reading := ⟨r.pieces ++ s.pieces, s.dangling⟩

/-- Reads arguments. -/
def ofArguments : List String → Reading
  | [] => ⟨[], none⟩
  | [arg] => if h : IsFlag arg then ⟨[], some ⟨arg, h⟩⟩ else ⟨[.plain arg h], none⟩
  | arg :: next :: rest =>
    if h : IsFlag arg then (ofArguments rest).cons (.choice arg next h)
    else (ofArguments (next :: rest)).cons (.plain arg h)

@[simp] theorem written_cons (p : Piece) (r : Reading) :
    (r.cons p).written = p.written ++ r.written := by
  simp [written, cons]

theorem written_append {r : Reading} (h : r.dangling = none) (s : Reading) :
    (r.append s).written = r.written ++ s.written := by
  simp [written, append, h]

theorem ofArguments_plain {arg : String} (h : ¬ IsFlag arg) (rest : List String) :
    ofArguments (arg :: rest) = (ofArguments rest).cons (.plain arg h) := by
  cases rest <;> simp [ofArguments, h, cons]

theorem ofArguments_choice {flag : String} (h : IsFlag flag) (value : String)
    (rest : List String) :
    ofArguments (flag :: value :: rest) = (ofArguments rest).cons (.choice flag value h) := by
  simp [ofArguments, h]

/-- Every list of arguments is read. -/
theorem written_ofArguments (args : List String) : (ofArguments args).written = args := by
  fun_induction ofArguments args with
  | case1 => rfl
  | case2 arg h => rfl
  | case3 arg h => rfl
  | case4 arg next rest h ih => rw [written_cons, ih]; rfl
  | case5 arg next rest h ih => rw [written_cons, ih]; rfl

/-- What a reading does is determined by its last flag and what each piece in front adds. -/
theorem induction {motive : Reading → Prop} (last : ∀ dangling, motive ⟨[], dangling⟩)
    (cons : ∀ p r, motive r → motive (r.cons p)) (r : Reading) : motive r := by
  obtain ⟨pieces, dangling⟩ := r
  induction pieces with
  | nil => exact last dangling
  | cons p pieces ih => exact cons p ⟨pieces, dangling⟩ ih

/-- Arguments are read in one way only. -/
theorem ofArguments_written (r : Reading) : ofArguments r.written = r := by
  induction r using Reading.induction with
  | last dangling =>
    cases dangling with
    | none => rfl
    | some flag =>
      show (if h : IsFlag flag.val then _ else _) = _
      rw [dif_pos flag.property]
  | cons p r ih =>
    rw [written_cons]
    cases p with
    | plain arg noFlag => exact (ofArguments_plain noFlag r.written).trans (by rw [ih])
    | choice flag value isFlag =>
      exact (ofArguments_choice isFlag value r.written).trans (by rw [ih])

end Reading

/-! ## The two scans -/

theorem positional_plain {arg : String} (h : ¬ IsFlag arg) (rest : List String) :
    positional (arg :: rest) = arg :: positional rest := by
  cases rest <;> simp [positional, h]

theorem positional_choice {flag : String} (h : IsFlag flag) (value : String)
    (rest : List String) : positional (flag :: value :: rest) = positional rest := by
  simp [positional, h]

theorem environment_plain {arg : String} (h : ¬ IsFlag arg) (rest : List String) :
    environment (arg :: rest) = environment rest := by
  cases rest <;> simp [environment, h]

theorem environment_choice {flag : String} (h : IsFlag flag) (value : String)
    (rest : List String) : environment (flag :: value :: rest) = value := by
  simp [environment, h]

theorem positional_written (r : Reading) : positional r.written = r.plain := by
  induction r using Reading.induction with
  | last dangling =>
    cases dangling with
    | none => rfl
    | some flag =>
      show (if IsFlag flag.val then _ else _) = _
      rw [if_pos flag.property]
      rfl
  | cons p r ih =>
    rw [Reading.written_cons]
    cases p with
    | plain arg noFlag => exact (positional_plain noFlag r.written).trans (by rw [ih]; rfl)
    | choice flag value isFlag =>
      exact (positional_choice isFlag value r.written).trans (by rw [ih]; rfl)

theorem environment_written (r : Reading) :
    environment r.written = r.values.headD usualEnvironment := by
  induction r using Reading.induction with
  | last dangling => cases dangling <;> rfl
  | cons p r ih =>
    rw [Reading.written_cons]
    cases p with
    | plain arg noFlag => exact (environment_plain noFlag r.written).trans ih
    | choice flag value isFlag => exact environment_choice isFlag value r.written

/-! ## A pair between two lists of arguments -/

variable {r s : Reading}

theorem Reading.plain_append : (r.append s).plain = r.plain ++ s.plain := by
  simp [plain, append]

theorem Reading.values_append : (r.append s).values = r.values ++ s.values := by
  simp [values, append]

/-- The program reads a command from the plain arguments, and its environment from all of them. -/
theorem invocation_eq (args : List String) : Invocation.ofArguments args =
    ((Command.ofArguments (positional args)).mapError .command).map
      fun c => ⟨environment args, c⟩ := by
  rw [Invocation.ofArguments]
  cases Command.ofArguments (positional args) <;> rfl

/-- Arguments have one reading, and both scans go by it: the positional arguments are the plain ones
of the reading, and the environment is the value of its first pair, or else the usual one. So a pair
that is put after arguments whose last flag has its value changes no positional argument and, except
for the environment, nothing of what the program is asked to do. The environment is then the value
of the new pair unless there is a pair before it. -/
theorem scans_agree (args : List String) :
    (∃! r : Reading, r.written = args) ∧
    ∀ r : Reading, r.written = args →
      positional args = r.plain ∧ environment args = r.values.headD usualEnvironment ∧
      (r.dangling = none → ∀ flag value rest, IsFlag flag →
        positional (args ++ flag :: value :: rest) = positional (args ++ rest) ∧
        environment (args ++ flag :: value :: rest) = r.values.headD value ∧
        Invocation.ofArguments (args ++ flag :: value :: rest) =
          (Invocation.ofArguments (args ++ rest)).map
            fun i => { i with environment := r.values.headD value }) := by
  refine ⟨⟨.ofArguments args, Reading.written_ofArguments args, ?_⟩, ?_⟩
  · rintro r rfl
    exact (Reading.ofArguments_written r).symm
  · rintro r rfl
    refine ⟨positional_written r, environment_written r, fun hended flag value rest isFlag => ?_⟩
    -- The reading goes on with the pair and then as `rest` is read.
    obtain ⟨s, hrest⟩ : ∃ s : Reading, s.written = rest :=
      ⟨.ofArguments rest, Reading.written_ofArguments rest⟩
    have hplain : r.written ++ rest = (r.append s).written := by
      rw [Reading.written_append hended, hrest]
    have hpair : r.written ++ flag :: value :: rest =
        (r.append (s.cons (.choice flag value isFlag))).written := by
      rw [Reading.written_append hended, Reading.written_cons, hrest]
      rfl
    have hpositional : positional (r.written ++ flag :: value :: rest) =
        positional (r.written ++ rest) := by
      rw [hpair, hplain, positional_written, positional_written, Reading.plain_append,
        Reading.plain_append]
      rfl
    have henvironment : environment (r.written ++ flag :: value :: rest) =
        r.values.headD value := by
      rw [hpair, environment_written, Reading.values_append]
      cases r.values <;> rfl
    refine ⟨hpositional, henvironment, ?_⟩
    rw [invocation_eq, invocation_eq, hpositional, henvironment]
    cases Command.ofArguments (positional (r.written ++ rest)) <;> rfl

/-- A flag is the value of the first pair here, and the flag at the end has none. -/
theorem reconcile_chosen :
    IsFlag "-e" ∧ positional ["reconcile", "-e", "--env", "7", "-e"] = ["reconcile", "7"] ∧
      environment ["reconcile", "-e", "--env", "7", "-e"] = "--env" ∧
      Invocation.ofArguments ["reconcile", "-e", "--env", "7", "-e"] =
        .ok ⟨"--env", .reconcile 7⟩ := by
  let r : Reading := ⟨[.plain "reconcile" (by decide)], none⟩
  obtain ⟨-, hreading⟩ := scans_agree ["reconcile"]
  obtain ⟨-, -, hinsert⟩ := hreading r rfl
  have hflag : IsFlag "-e" := Or.inr rfl
  obtain ⟨hpositional, henvironment, hinvocation⟩ := hinsert rfl "-e" "--env" ["7", "-e"] hflag
  have hplain : Invocation.ofArguments ["reconcile", "7", "-e"] = .ok ⟨"dev", .reconcile 7⟩ := by
    rfl
  refine ⟨hflag, hpositional, henvironment, hinvocation.trans ?_⟩
  exact congrArg _ hplain

end Arguments
end FundsLedger
