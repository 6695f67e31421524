import FundsLedger.Proofs.Ledger.Writes
import FundsLedger.Proofs.Path
import FundsLedger.Proofs.Service.Isolation
import FundsLedger.Proofs.Service.Polls

/-!
Atomicity of work that is done in a unit of work of its own. The work is arbitrary, and so is what
others do meanwhile and whether an identifier has ever been given out twice. While the work is being
done, what its calls have written is staged and nowhere else; in one turn all of it is published, or
none of it ever is.
-/

namespace FundsLedger

open Ledger

variable {ε α : Type} [OfStoreError ε] {w rest : Work ε α} {f : Except ε α → Answer}
variable {l l' : Ledger} {unit : Option UnitId} {calls : List Answered}

/-- Nothing has been committed between two states of a ledger. -/
structure Ledger.Unchanged (l l' : Ledger) : Prop where
  books : l'.books = l.books
  commits : l'.commits = l.commits

theorem Ledger.Unchanged.refl (l : Ledger) : l.Unchanged l := ⟨rfl, rfl⟩

namespace Process

/-- Changing the answer twice is changing it once. -/
theorem map_map {β γ δ : Type} (p : Process β) (g : β → γ) (k : γ → δ) :
    (p.map g).map k = p.map (k ∘ g) := by
  induction p with
  | done a => rfl
  | ask request next ih => exact congrArg (Process.ask request) (funext ih)
  | note event rest ih => exact congrArg (Process.note event) ih
  | sleep longest rest ih => exact congrArg (Process.sleep longest) ih
  | panic message => rfl

/-- The call that is answered in the next step of a process, with its answer. -/
def answered? {β : Type} (l : Ledger) (unit : Option UnitId) : Process β → Option Answered
  | ask (.call c) _ => (l.respond unit (.call c)).reply.map fun r => ⟨c, r⟩
  | _ => none

/-- Where a process stands that does the work in a unit of work of its own: it has not begun yet, or
these calls have been answered, and what they have written is staged. -/
inductive Works (w : Work ε α) (f : Except ε α → Answer) (l : Ledger) :
    List Answered → Option UnitId → Process Answer → Prop
  | waiting : Works w f l [] none (w.atomically.map f)
  | working {calls : List Answered} {rest : Work ε α} {u : UnitId} {v : View} {q : Option Call}
      (path : w.Path calls rest) (fits : v.Fits l u q)
      (pending : q = none ∨ q = (rest.finishing.map f).call?)
      (staged : v.staged = calls.foldl UnitOfWork.record UnitOfWork.fresh) :
      Works w f l calls (some u) (rest.finishing.map f)

/-- What one step brings to a process that does the work: it goes on, or it has ended its unit of
work and knows the result, or the work panics. -/
inductive Worked (w : Work ε α) (f : Except ε α → Answer) (l : Ledger) (unit : Option UnitId)
    (calls : List Answered) : Option Answered → Moved Answer → Prop
  | going {answered : Option Answered} {l' : Ledger} {unit' : Option UnitId}
      {events : List Event} {p : Process Answer}
      (works : Works w f l' (calls ++ answered.toList) unit' p) (unchanged : l.Unchanged l')
      (releases : Releases unit l' unit') :
      Worked w f l unit calls answered ⟨l', unit', events, .suspended p⟩
  | succeeded {a : α} {l' : Ledger} (path : w.Path calls (.done (.ok a)))
      (books : l'.books = calls.foldl Books.record l.books) (commits : l'.commits = l.commits + 1)
      (releases : Releases unit l' none) :
      Worked w f l unit calls none ⟨l', none, [], .suspended (.done (f (.ok a)))⟩
  | refused {a : α} {e : StoreError} {u : UnitId} {l' : Ledger}
      (path : w.Path calls (.done (.ok a))) (own : unit = some u)
      (commit : l.commit? u = some (l', .error e)) (unchanged : l.Unchanged l')
      (releases : Releases unit l' none) :
      Worked w f l unit calls none
        ⟨l', none, [], .suspended (.done (f (.error (ofStoreError e))))⟩
  | failed {e : ε} {event : Event} {l' : Ledger} (path : w.Path calls (.done (.error e)))
      (unchanged : l.Unchanged l') (releases : Releases unit l' none) :
      Worked w f l unit calls none
        ⟨l', none, [], .suspended (.note event (.done (f (.error e))))⟩
  | panicked {message : String} {events : List Event} {l' : Ledger}
      (path : w.Path calls (.panic message)) (unchanged : l.Unchanged l')
      (releases : Releases unit l' none) :
      Worked w f l unit calls none ⟨l', none, events, .settled (.panicked message)⟩

/-- Panicking drops the unit of work and commits nothing. -/
theorem abandoned {u : UnitId} (hl : l.Lawful) (hopen : (l.units.find? u).isSome) :
    l.Unchanged (l.abandon u).1 ∧ Releases (some u) (l.abandon u).1 none := by
  unfold abandon
  split
  · rename_i hnone
    simp [hnone] at hopen
  · exact ⟨⟨rfl, rfl⟩, .close hl hopen rfl rfl⟩

/-- One step of a process that does the work. -/
theorem Works.advance {p : Process Answer} (h : Works w f l calls unit p) (hl : l.Lawful) :
    Worked w f l unit calls (p.answered? l unit) (p.advance l unit) := by
  cases h with
  | waiting =>
    exact .going (.working (.refl w) (View.Fits.begin hl) (Or.inl rfl) rfl) ⟨rfl, rfl⟩ (.of_none _ _)
  | @working calls rest u v q path fits pending staged =>
    have hopen : (l.units.find? u).isSome := by simp [fits.stands]
    cases rest with
    | note event rest =>
      have hidle : q = none := pending.elim id id
      have hworks : Works w f l (calls ++ (none : Option Answered).toList) (some u)
          (rest.finishing.map f) := by
        rw [Option.toList_none, List.append_nil]
        exact .working path.report fits (Or.inl hidle) staged
      exact .going hworks (.refl l) (.refl l _)
    | panic message =>
      obtain ⟨hunchanged, hreleases⟩ := abandoned hl hopen
      exact .panicked path hunchanged hreleases
    | call c next =>
      have hresponds := fits.respond_call hl pending
      change Worked w f l (some u) calls
        ((l.respond (some u) (.call c)).reply.map fun r => ⟨c, r⟩)
        (Process.advance l (some u) (.ask (.call c) fun r => (next r).finishing.map f))
      simp only [Process.advance]
      cases hresponse : l.respond (some u) (.call c) with
      | mk l' unit' reply =>
        rw [hresponse] at hresponds
        cases hresponds with
        | waits row? waits fits' called =>
          have hworks : Works w f l' (calls ++ (none : Option Answered).toList) (some u)
              ((Work.call c next).finishing.map f) := by
            rw [Option.toList_none, List.append_nil]
            exact .working path fits' (Or.inr rfl) staged
          exact .going hworks ⟨called.books, called.commits⟩ (.refl l' _)
        | @answered _ r v' answers fits' called =>
          refine .going (.working (path.concat r) fits' (Or.inl rfl) ?_)
            ⟨called.books, called.commits⟩ (.refl l' _)
          simp [answers.staged, staged, List.foldl_append]
    | done result =>
      cases result with
      | ok a =>
        have hidle : q = none := pending.elim id id
        subst hidle
        have hcommit : l.commit? u = some (l.commitUnit u v.staged) := by
          simp [commit?, fits.stands, commitUnit_pending]
        change Worked w f l (some u) calls none
          (Process.advance l (some u) ((Work.done (.ok a)).finishing.map f))
        simp only [Work.finishing, Process.map, Process.bind, Process.advance, fits.respond_commit]
        have hcommitted := commitUnit_committed l u v.staged
        generalize l.commitUnit u v.staged = committed at hcommit hcommitted ⊢
        obtain ⟨l', r⟩ := committed
        cases hcommitted with
        | failed e conflicts =>
          exact .refused path rfl hcommit ⟨rfl, rfl⟩ (.close hl hopen rfl rfl)
        | published unique =>
          exact .succeeded path (by rw [staged, publish_calls]) rfl (.close hl hopen rfl rfl)
      | error e =>
        have hidle : q = none := pending.elim id id
        subst hidle
        change Worked w f l (some u) calls none
          (Process.advance l (some u) ((Work.done (.error e)).finishing.map f))
        simp only [Work.finishing, Process.map, Process.bind, Process.advance,
          fits.respond_rollback]
        exact .failed path ⟨rfl, rfl⟩ (.close hl hopen rfl rfl)

theorem Works.path {p : Process Answer} (h : Works w f l calls unit p) :
    ∃ rest, w.Path calls rest := by
  cases h with
  | waiting => exact ⟨w, .refl w⟩
  | working path fits pending staged => exact ⟨_, path⟩

/-- A process that has only to end its unit of work has one open, and does not wait. -/
theorem Works.open_of_ending {p : Process Answer} {r : Except ε α} (h : Works w f l calls unit p)
    (hp : p = (Work.done r).finishing.map f) : ∃ u v, unit = some u ∧ View.Fits v l u none := by
  cases h with
  | waiting => cases r <;> simp [Work.atomically, Work.finishing, Process.map, Process.bind] at hp
  | @working calls rest u v q path fits pending staged =>
    have hidle : q = none := by
      rw [hp] at pending
      cases r <;> exact pending.elim id id
    subst hidle
    exact ⟨u, v, rfl, fits⟩

/-- What others do leaves a process that does the work where it is. -/
theorem Works.spares {p : Process Answer} (h : Works w f l calls unit p)
    (hspares : ∀ u, unit = some u → l.Spares l' u) (hup : l.drawn.UpTo l'.drawn) :
    Works w f l' calls unit p := by
  cases h with
  | waiting => exact .waiting
  | working path fits pending staged =>
    exact .working path (fits.spares (hspares _ rfl) hup) pending staged

end Process

namespace Service

variable {s s' : Service} {id : TaskId} {t : Task} {actions : List Action} {a : Action}
variable {r : Except ε α}

/-- Starts a process as a task that nothing cuts short. -/
def launch (s : Service) (p : Process Answer) : Service × TaskId := s.addTask ⟨p, none, []⟩

/-- The call of the task that is answered in a step, with its answer. -/
def answered? (s : Service) (id : TaskId) : Action → Option Answered
  | .advance id' =>
    if id' = id then (s.tasks.find? id).bind fun t => t.process.answered? s.ledger t.unit else none
  | _ => none

/-- The calls of the task that are answered in a run, with their answers. -/
def answers (s : Service) (id : TaskId) : List Action → List Answered
  | [] => []
  | a :: rest => (s.answered? id a).toList ++ (s.step a).answers id rest

theorem answers_concat (s : Service) (id : TaskId) (actions : List Action) (a : Action) :
    s.answers id (actions ++ [a]) =
      s.answers id actions ++ ((s.run actions).answered? id a).toList := by
  induction actions generalizing s with
  | nil => simp [answers, Service.run]
  | cons b rest ih =>
    simp only [List.cons_append, answers, ih, List.append_assoc]
    rfl

/-- What the work has come to in the run, once the task knows the result. -/
inductive Outcome (s : Service) (id : TaskId) (w : Work ε α) (actions : List Action) :
    Except ε α → Prop
  /-- The work has succeeded, and in one turn all that its calls have written was committed. -/
  | succeeded {a : α} {pre post : List Action}
      (path : w.Path (s.answers id actions) (.done (.ok a)))
      (turn : actions = pre ++ .advance id :: post)
      (books : (s.run (pre ++ [.advance id])).ledger.books =
        (s.answers id actions).foldl Books.record (s.run pre).ledger.books)
      (commits : (s.run (pre ++ [.advance id])).ledger.commits = (s.run pre).ledger.commits + 1)
      (publications : s.publications id actions =
        [((s.run pre).ledger.books, (s.run (pre ++ [.advance id])).ledger.books)]) :
      Outcome s id w actions (.ok a)
  /-- The work has succeeded, and its commit has failed. -/
  | refused {a : α} {e : StoreError} {pre post : List Action} {t : Task} {u : UnitId} {l' : Ledger}
      (path : w.Path (s.answers id actions) (.done (.ok a)))
      (turn : actions = pre ++ .advance id :: post)
      (task : (s.run pre).tasks.find? id = some t) (own : t.unit = some u)
      (commit : (s.run pre).ledger.commit? u = some (l', .error e))
      (publications : s.publications id actions = []) :
      Outcome s id w actions (.error (ofStoreError e))
  /-- The work has failed. -/
  | failed {e : ε} (path : w.Path (s.answers id actions) (.done (.error e)))
      (publications : s.publications id actions = []) : Outcome s id w actions (.error e)

/-- How the run has ended for a task that does the work. -/
inductive Ended (s : Service) (id : TaskId) (w : Work ε α) (f : Except ε α → Answer)
    (actions : List Action) : Option (Settled Answer) → Prop
  | returned {r : Except ε α} (outcome : s.Outcome id w actions r) :
      Ended s id w f actions (some (.answered (f r)))
  | panicked {message : String} (path : w.Path (s.answers id actions) (.panic message))
      (publications : s.publications id actions = []) :
      Ended s id w f actions (some (.panicked message))
  | dropped {rest : Work ε α} (path : w.Path (s.answers id actions) rest)
      (publications : s.publications id actions = []) : Ended s id w f actions none

/-- Where the task stands that does the work: the work goes on, or the task only has to tell its
result. -/
inductive Stage (s : Service) (id : TaskId) (w : Work ε α) (f : Except ε α → Answer)
    (actions : List Action) (t : Task) : Prop
  | works
      (works : Process.Works w f (s.run actions).ledger (s.answers id actions) t.unit t.process)
      (publications : s.publications id actions = [])
  | closing {r : Except ε α} (outcome : s.Outcome id w actions r) (free : t.unit = none)
      (process : t.process = .done (f r) ∨ ∃ event, t.process = .note event (.done (f r)))

/-- What a step brings to the task: it goes on, or it has ended. -/
inductive Stepped (s : Service) (id : TaskId) (w : Work ε α) (f : Except ε α → Answer)
    (actions : List Action) (t : Task) (a : Action) : Prop
  | on {t' : Task} (task : ((s.run actions).step a).tasks.find? id = some t')
      (interrupts : t'.interrupts = t.interrupts) (stage : s.Stage id w f (actions ++ [a]) t')
      (releases : Releases t.unit ((s.run actions).step a).ledger t'.unit)
  | ended (gone : ((s.run actions).step a).tasks.find? id = none)
      (ended : s.Ended id w f (actions ++ [a]) ((s.run actions).ended? id a))
      (releases : Releases t.unit ((s.run actions).step a).ledger none)

/-! ## One step -/

/-- The process of the task goes on after its turn. -/
theorem Stepped.of_suspended {l' : Ledger} {unit' : Option UnitId} {events : List Event}
    {p : Process Answer} (ht : (s.run actions).tasks.find? id = some t)
    (hmoved : t.process.advance (s.run actions).ledger t.unit = ⟨l', unit', events, .suspended p⟩)
    (hstage : s.Stage id w f (actions ++ [.advance id]) { t with process := p, unit := unit' })
    (hreleases : Releases t.unit l' unit') : s.Stepped id w f actions t (.advance id) := by
  have htask : ((s.run actions).step (.advance id)).tasks.find? id =
      some { t with process := p, unit := unit' } := by
    simp [Service.step, Service.advance, ht, hmoved, settle]
  refine .on htask rfl hstage ?_
  rwa [ledger_advance ht, hmoved]

/-- The process of the task ends with its turn. -/
theorem Stepped.of_settled {l' : Ledger} {events : List Event} {how : Settled Answer}
    (ht : (s.run actions).tasks.find? id = some t)
    (hmoved : t.process.advance (s.run actions).ledger t.unit = ⟨l', none, events, .settled how⟩)
    (hended : s.Ended id w f (actions ++ [.advance id]) (some how))
    (hreleases : Releases t.unit l' none) : s.Stepped id w f actions t (.advance id) := by
  refine .ended ?_ ?_ ?_
  · simp [Service.step, Service.advance, ht, hmoved, settle]
  · simpa [ended?, Service.advance, ht, hmoved, settle] using hended
  · rwa [ledger_advance ht, hmoved]

/-- A turn that commits nothing is no publication. -/
theorem publications_unchanged (h : (s.run actions).ledger.Unchanged ((s.run actions).step a).ledger) :
    s.publications id (actions ++ [a]) = s.publications id actions := by
  rw [publications_concat, if_neg, List.append_nil]
  rintro ⟨-, hcommits⟩
  rcases hcommits with hne | hne
  · exact hne h.books
  · exact hne h.commits

/-- The turns of others neither answer calls of the task nor publish anything for it. -/
theorem answers_other (ha : a.turn? ≠ some id) :
    s.answers id (actions ++ [a]) = s.answers id actions := by
  have hnone : (s.run actions).answered? id a = none := by
    cases a with
    | advance id' => exact if_neg fun heq => ha (by rw [heq]; rfl)
    | _ => rfl
  rw [answers_concat, hnone, Option.toList_none, List.append_nil]

theorem publications_other (ha : a.turn? ≠ some id) :
    s.publications id (actions ++ [a]) = s.publications id actions := by
  rw [publications_concat, if_neg fun h => ha h.1, List.append_nil]

/-- A result stands in all turns in which nothing more happens for the task. -/
theorem Outcome.append (h : s.Outcome id w actions r)
    (hanswers : s.answers id (actions ++ [a]) = s.answers id actions)
    (hpublications : s.publications id (actions ++ [a]) = s.publications id actions) :
    s.Outcome id w (actions ++ [a]) r := by
  cases h with
  | @succeeded _ pre post path turn books commits publications =>
    rw [← hanswers] at path books
    have hturn : actions ++ [a] = pre ++ .advance id :: (post ++ [a]) := by simp [turn]
    exact .succeeded path hturn books commits (hpublications.trans publications)
  | @refused _ e pre post t u l' path turn task own commit publications =>
    rw [← hanswers] at path
    have hturn : actions ++ [a] = pre ++ .advance id :: (post ++ [a]) := by simp [turn]
    exact .refused path hturn task own commit (hpublications.trans publications)
  | failed path publications =>
    rw [← hanswers] at path
    exact .failed path (hpublications.trans publications)

namespace Stage

/-- A turn of others. -/
theorem other (h : s.Stage id w f actions t) (hs : s.Lawful)
    (ht : (s.run actions).tasks.find? id = some t) (ha : a.turn? ≠ some id) :
    s.Stage id w f (actions ++ [a]) t := by
  cases h with
  | works works publications =>
    have hgoes := (s.run actions).step_goes a
    have hleaves := hgoes.leaves (hs.run actions) (by simp [ht]) ha
    refine .works ?_ ((publications_other ha).trans publications)
    rw [answers_other ha, run_concat]
    exact works.spares (fun u hu => hleaves.spares t u ht hu)
      (hgoes.ledger_cases (hs.run actions)).2.1
  | closing outcome free process =>
    exact .closing (outcome.append (answers_other ha) (publications_other ha)) free process

/-- A turn in which nothing happens. -/
theorem still (h : s.Stage id w f actions t) (hstep : (s.run actions).step a = s.run actions)
    (hanswered : (s.run actions).answered? id a = none) : s.Stage id w f (actions ++ [a]) t := by
  have hanswers : s.answers id (actions ++ [a]) = s.answers id actions := by
    rw [answers_concat, hanswered, Option.toList_none, List.append_nil]
  have hpublications : s.publications id (actions ++ [a]) = s.publications id actions :=
    publications_unchanged (by rw [hstep]; exact .refl _)
  cases h with
  | works works publications =>
    refine .works ?_ (hpublications.trans publications)
    rw [hanswers, run_concat, hstep]
    exact works
  | closing outcome free process => exact .closing (outcome.append hanswers hpublications) free process

/-- A turn in which the task takes a step: it goes on, or ends with what the work has come to. -/
theorem advance (h : s.Stage id w f actions t) (hs : s.Lawful)
    (ht : (s.run actions).tasks.find? id = some t) : s.Stepped id w f actions t (.advance id) := by
  have hledger := ledger_advance ht
  have hanswers : s.answers id (actions ++ [.advance id]) =
      s.answers id actions ++ (t.process.answered? (s.run actions).ledger t.unit).toList := by
    rw [answers_concat, answered?, if_pos rfl, ht]
    rfl
  have hunchanged :
      (s.run actions).ledger.Unchanged (t.process.advance (s.run actions).ledger t.unit).ledger →
        s.publications id (actions ++ [.advance id]) = s.publications id actions := fun hsame =>
    publications_unchanged (by rw [hledger]; exact hsame)
  cases h with
  | works works publications =>
    have hworked := works.advance (hs.run actions).ledger
    generalize t.process.answered? (s.run actions).ledger t.unit = answered at hworked hanswers
    generalize hmoved : t.process.advance (s.run actions).ledger t.unit = moved
      at hworked hledger hunchanged
    cases hworked with
    | going works' unchanged releases =>
      refine .of_suspended ht hmoved (.works ?_ ((hunchanged unchanged).trans publications)) releases
      rw [hanswers, run_concat, hledger]
      exact works'
    | succeeded path books commits releases =>
      rw [Option.toList_none, List.append_nil] at hanswers
      rw [← hanswers] at path books
      have hcommits : (s.run actions).Commits ((s.run actions).step (.advance id)) := by
        right
        rw [hledger, commits]
        exact Nat.succ_ne_self _
      refine .of_suspended ht hmoved (.closing (.succeeded path rfl ?_ ?_ ?_) rfl (Or.inl rfl))
        releases
      · rw [run_concat, hledger]
        exact books
      · rw [run_concat, hledger]
        exact commits
      · rw [publications_concat, if_pos ⟨rfl, hcommits⟩, publications, run_concat]
        rfl
    | refused path own commit unchanged releases =>
      rw [Option.toList_none, List.append_nil] at hanswers
      rw [← hanswers] at path
      exact .of_suspended ht hmoved (.closing (.refused path rfl ht own commit
        ((hunchanged unchanged).trans publications)) rfl (Or.inl rfl)) releases
    | @failed e event l' path unchanged releases =>
      rw [Option.toList_none, List.append_nil] at hanswers
      rw [← hanswers] at path
      exact .of_suspended ht hmoved (.closing (.failed path
        ((hunchanged unchanged).trans publications)) rfl (Or.inr ⟨event, rfl⟩)) releases
    | panicked path unchanged releases =>
      rw [Option.toList_none, List.append_nil] at hanswers
      rw [← hanswers] at path
      exact .of_settled ht hmoved (.panicked path ((hunchanged unchanged).trans publications))
        releases
  | closing outcome free process =>
    have hquiet : t.process.answered? (s.run actions).ledger t.unit = none := by
      rcases process with hp | ⟨event, hp⟩ <;> rw [hp] <;> rfl
    rw [hquiet, Option.toList_none, List.append_nil] at hanswers
    have hreleases (unit' : Option UnitId) : Releases t.unit (s.run actions).ledger unit' := by
      rw [free]
      exact .of_none _ _
    rcases process with hp | ⟨event, hp⟩
    · rw [hp] at hunchanged
      exact .of_settled ht (by rw [hp, free]; rfl)
        (.returned (outcome.append hanswers (hunchanged (.refl _)))) (hreleases none)
    · rw [hp] at hunchanged
      exact .of_suspended ht (by rw [hp, free]; rfl)
        (.closing (outcome.append hanswers (hunchanged (.refl _))) rfl (Or.inl rfl)) (hreleases none)

/-- A task that tells its result cannot be dropped. -/
theorem works_of_stoppable (h : s.Stage id w f actions t) (hstoppable : t.Stoppable l) :
    Process.Works w f (s.run actions).ledger (s.answers id actions) t.unit t.process ∧
      s.publications id actions = [] := by
  cases h with
  | works works publications => exact ⟨works, publications⟩
  | closing outcome free process =>
    rcases process with hp | ⟨event, hp⟩ <;> simp [Task.Stoppable, hp] at hstoppable

/-- The task is dropped, or cannot be dropped where it stands. -/
theorem abort (h : s.Stage id w f actions t) (hs : s.Lawful)
    (ht : (s.run actions).tasks.find? id = some t) : s.Stepped id w f actions t (.abort id) := by
  have hanswered : (s.run actions).answered? id (.abort id) = none := rfl
  by_cases hstoppable : t.Stoppable (s.run actions).ledger
  · have hstep : (s.run actions).step (.abort id) = { s.run actions with
        ledger := ((s.run actions).ledger.abandonAny t.unit).1
        tasks := (s.run actions).tasks.erase id } := by
      simp [Service.step, Service.abort, ht, hstoppable]
    have hstopped := Follows.stopped (hs.run actions) ht
    rw [← hstep] at hstopped
    obtain ⟨works, publications⟩ := h.works_of_stoppable hstoppable
    obtain ⟨rest, path⟩ := works.path
    have hpath : w.Path (s.answers id (actions ++ [.abort id])) rest := by
      rwa [answers_concat, hanswered, Option.toList_none, List.append_nil]
    refine .ended hstopped.absent (.dropped hpath ?_) fun u hu => Or.inr
      (hstopped.released t u ht hu)
    exact (publications_unchanged ⟨hstopped.books, hstopped.commits⟩).trans publications
  · have hstep : (s.run actions).step (.abort id) = s.run actions := by
      simp [Service.step, Service.abort, ht, hstoppable]
    exact .on (by rw [hstep]; exact ht) rfl (h.still hstep hanswered)
      (by rw [hstep]; exact .refl _ _)

/-- Every step. -/
theorem step (h : s.Stage id w f actions t) (hs : s.Lawful)
    (ht : (s.run actions).tasks.find? id = some t) (hnever : t.interrupts = []) (a : Action) :
    s.Stepped id w f actions t a := by
  by_cases hturn : a.turn? = some id
  · cases a <;> simp only [Action.turn?, reduceCtorEq, Option.some.injEq] at hturn
    case advance => subst hturn; exact h.advance hs ht
    case abort => subst hturn; exact h.abort hs ht
    case interrupt id' =>
      subst hturn
      have hstep : (s.run actions).step (.interrupt id') = s.run actions := by
        simp [Service.step, Service.interrupt, ht, hnever]
      exact .on (by rw [hstep]; exact ht) rfl (h.still hstep rfl) (by rw [hstep]; exact .refl _ _)
  · have hleaves := ((s.run actions).step_goes a).leaves (hs.run actions) (by simp [ht]) hturn
    exact .on (hleaves.task.trans ht) rfl (h.other hs ht hturn) (.refl _ _)

end Stage

/-! ## Runs -/

/-- After every run the task that does the work is at some stage of it, or it has ended; whatever
unit of work it has had is over, or it still has it. -/
theorem launch_stages {launched : Service × TaskId} (hs : s.Lawful)
    (hlaunch : s.launch (w.atomically.map f) = launched) (actions : List Action) :
    ((launched.1.run actions).Past launched.2 ∨
      ∃ t, (launched.1.run actions).tasks.find? launched.2 = some t ∧ t.interrupts = [] ∧
        launched.1.Stage launched.2 w f actions t) ∧
    launched.1.Freed launched.2 actions := by
  subst hlaunch
  have hlawful : (s.launch (w.atomically.map f)).1.Lawful := hs.added rfl (by simp)
  have htask : (s.launch (w.atomically.map f)).1.tasks.find? (s.launch (w.atomically.map f)).2 =
      some ⟨w.atomically.map f, none, []⟩ := by
    simp [launch, addTask]
  generalize s.launch (w.atomically.map f) = launched at hlawful htask ⊢
  refine run_induction (s := launched.1)
    (P := fun as s' => (s'.Past launched.2 ∨ ∃ t, s'.tasks.find? launched.2 = some t ∧
      t.interrupts = [] ∧ launched.1.Stage launched.2 w f as t) ∧
      launched.1.Freed launched.2 as) ?_ (fun as a ih => ?_) actions
  · refine ⟨Or.inr ⟨_, htask, rfl, .works .waiting rfl⟩, fun u hu => ?_⟩
    obtain ⟨pre, rest, t, heq, ht, hu⟩ := hu
    have hpre : pre = [] := (List.append_eq_nil_iff.mp heq.symm).1
    subst hpre
    exact Or.inr ⟨t, ht, hu⟩
  · obtain ⟨hpast | ⟨t, ht, hnever, hstage⟩, hfreed⟩ := ih
    · refine ⟨Or.inl (hpast.goes ((launched.1.run as).step_goes a)), hfreed.concat hlawful ?_⟩
      intro t u ht hu
      rw [hpast.absent] at ht
      cases ht
    · have hown : ∀ {unit'}, Releases t.unit ((launched.1.run as).step a).ledger unit' → ∀ t₁ u,
          (launched.1.run as).tasks.find? launched.2 = some t₁ → t₁.unit = some u →
          unit' = some u ∨ ((launched.1.run as).step a).ledger.Over u := by
        intro unit' hreleases t₁ u ht₁ hu
        rw [ht] at ht₁
        cases ht₁
        exact hreleases u hu
      cases hstage.step hlawful ht hnever a with
      | @on t' task interrupts stage releases =>
        refine ⟨Or.inr ⟨t', task, interrupts.trans hnever, stage⟩,
          hfreed.concat hlawful fun t₁ u ht₁ hu => ?_⟩
        exact (hown releases t₁ u ht₁ hu).elim (fun hu' => Or.inr ⟨t', task, hu'⟩) Or.inl
      | ended gone ended releases =>
        refine ⟨Or.inl ⟨?_, gone⟩, hfreed.concat hlawful fun t₁ u ht₁ hu => ?_⟩
        · have hle := (hlawful.run as).numbered _ (by rw [ht]; rfl)
          exact Int.le_trans hle (Int.ofNat_le.mpr ((launched.1.run as).step_goes a).submitted_le)
        · exact Or.inl ((hown releases t₁ u ht₁ hu).resolve_left (by simp))

/-! ## Telling the result -/

/-- The step lets the task take a step. -/
def Action.advances (id : TaskId) : Action → Bool
  | advance id' => id' = id
  | _ => false

theorem Action.eq_of_advances (h : a.advances id = true) : a = .advance id := by
  cases a <;> simp [advances] at h
  rw [h]

/-- Only its own steps move a task that nothing cuts short, unless it is dropped. -/
theorem task_of_not_advances {t' : Task} (hs : s.Lawful) (ht : s.tasks.find? id = some t)
    (hnever : t.interrupts = []) (ha : a.advances id = false)
    (ht' : (s.step a).tasks.find? id = some t') : t' = t := by
  by_cases hturn : a.turn? = some id
  · cases a <;> simp only [Action.turn?, reduceCtorEq, Option.some.injEq] at hturn
    case advance id' => simp [Action.advances, hturn] at ha
    case interrupt id' =>
      subst hturn
      simp only [Service.step, Service.interrupt, ht, hnever, List.find?_nil] at ht'
      exact (Option.some.inj ht').symm
    case abort id' =>
      subst hturn
      simp only [Service.step, Service.abort, ht] at ht'
      split at ht'
      · simp at ht'
      · simp only [ht, Option.some.injEq] at ht'
        exact ht'.symm
  · have hleaves := (s.step_goes a).leaves hs (by simp [ht]) hturn
    rw [hleaves.task, ht] at ht'
    exact (Option.some.inj ht').symm

/-- All that is left for the process is to end its unit of work and to tell the result, and this is
how many steps that takes at most. -/
inductive Closes (f : Except ε α → Answer) : Process Answer → Nat → Prop
  | ending (r : Except ε α) : Closes f ((Work.done r).finishing.map f) 3
  | noted (event : Event) (r : Except ε α) : Closes f (.note event (.done (f r))) 2
  | told (r : Except ε α) : Closes f (.done (f r)) 1

theorem Closes.pos {p : Process Answer} {n : Nat} (h : Closes f p n) : 0 < n := by
  cases h <;> decide

/-- Each step of the task brings it closer to its end. -/
theorem Stage.closer {n : Nat} (h : s.Stage id w f actions t)
    (ht : (s.run actions).tasks.find? id = some t) (hc : Closes f t.process n) :
    ((s.run actions).advance id).1.tasks.find? id = none ∨
      ∃ t' m, ((s.run actions).advance id).1.tasks.find? id = some t' ∧
        Closes f t'.process m ∧ m < n := by
  obtain ⟨process, unit, interrupts⟩ := t
  simp only [Service.advance, ht]
  cases hc with
  | told r => exact Or.inl (by simp [Process.advance, settle])
  | noted event r =>
    exact Or.inr ⟨⟨.done (f r), unit, interrupts⟩, 1, by simp [Process.advance, settle],
      .told r, by omega⟩
  | ending r =>
    -- The commit or the rollback of an open unit of work never waits.
    have hworking : ∃ u v, unit = some u ∧ View.Fits v (s.run actions).ledger u none := by
      cases h with
      | works works publications => exact works.open_of_ending rfl
      | closing outcome free hprocess =>
        rcases hprocess with hp | ⟨event, hp⟩ <;> cases r <;>
          simp [Work.finishing, Process.bind] at hp
    obtain ⟨u, v, rfl, fits⟩ := hworking
    have hmoved : ∃ l' p' m, Process.advance (s.run actions).ledger (some u)
        ((Work.done r).finishing.map f) = ⟨l', none, [], .suspended p'⟩ ∧
        Closes f p' m ∧ m < 3 := by
      cases r with
      | ok a =>
        simp only [Work.finishing, Process.map, Process.bind, Process.advance, fits.respond_commit]
        cases ((s.run actions).ledger.commitUnit u v.staged).2 with
        | ok => exact ⟨_, _, 1, rfl, .told _, by omega⟩
        | error e => exact ⟨_, _, 1, rfl, .told _, by omega⟩
      | error e =>
        simp only [Work.finishing, Process.map, Process.bind, Process.advance,
          fits.respond_rollback]
        exact ⟨_, _, 2, rfl, .noted _ _, by omega⟩
    obtain ⟨l', p', m, hmoved, hcloser, hlt⟩ := hmoved
    rw [Process.map] at hmoved
    exact Or.inr ⟨⟨p', none, interrupts⟩, m, by simp [hmoved, settle], hcloser, hlt⟩

/-- Once the work has succeeded or failed, a few steps of the task are enough for it to end. -/
theorem Stage.finishes {n : Nat} (h : s.Stage id w f actions t) (hs : s.Lawful)
    (ht : (s.run actions).tasks.find? id = some t) (hnever : t.interrupts = [])
    (hc : Closes f t.process n) {more : List Action} (hn : n ≤ more.countP (·.advances id)) :
    (s.run (actions ++ more)).tasks.find? id = none := by
  induction more generalizing actions t n with
  | nil =>
    have hpos := hc.pos
    simp only [List.countP_nil] at hn
    omega
  | cons a rest ih =>
    have hassoc : actions ++ a :: rest = (actions ++ [a]) ++ rest := by simp
    rw [hassoc]
    have hle := (hs.run actions).numbered _ (by rw [ht]; rfl)
    cases h.step hs ht hnever a with
    | ended gone ended releases =>
      have hpast : ((s.run actions).step a).Past id :=
        ⟨Int.le_trans hle (Int.ofNat_le.mpr ((s.run actions).step_goes a).submitted_le), gone⟩
      rw [run_append, run_concat]
      exact (hpast.run rest).absent
    | @on t' task interrupts stage releases =>
      have htask : (s.run (actions ++ [a])).tasks.find? id = some t' := by
        rw [run_concat]
        exact task
      rw [List.countP_cons] at hn
      -- A step of the task brings it closer, and any other one leaves it where it is.
      cases ha : a.advances id with
      | false =>
        rw [ha] at hn
        have hsame := task_of_not_advances (hs.run actions) ht hnever ha task
        exact ih stage htask (interrupts.trans hnever) (hsame ▸ hc) (by simpa using hn)
      | true =>
        rw [ha] at hn
        obtain rfl := Action.eq_of_advances ha
        rcases h.closer ht hc with hgone | ⟨t₁, m, ht₁, hc₁, hlt⟩
        · have hgone : ((s.run actions).step (.advance id)).tasks.find? id = none := hgone
          rw [task] at hgone
          cases hgone
        · have ht₁ : ((s.run actions).step (.advance id)).tasks.find? id = some t₁ := ht₁
          rw [task, Option.some.injEq] at ht₁
          exact ih stage htask (interrupts.trans hnever) (ht₁ ▸ hc₁) (by simp at hn; omega)

/-! ## Isolation and atomicity -/

/-- Work that is done in a unit of work of its own is isolated: whatever it has staged, everybody
else does and is shown the same. And it is atomic: when its task ends, either the work has succeeded
and in one turn everything that its calls have written was committed, or nothing ever was, and the
task ends with the failure of the work, with that of the commit, with the panic of the work or
without an answer; its unit of work is over for good and holds no lock. Once the work has succeeded
or failed, three more steps of the task bring it to its end. -/
theorem atomically_atomic {launched : Service × TaskId} (hs : s.Reachable)
    (hlaunch : s.launch (w.atomically.map f) = launched) (actions : List Action) :
    (∀ t u x others, (launched.1.run actions).tasks.find? launched.2 = some t →
      t.unit = some u → (∀ a ∈ others, Action.turn? a ≠ some launched.2) →
      ((launched.1.run actions).restage u x).run others =
        ((launched.1.run actions).run others).restage u x ∧
      ((launched.1.run actions).restage u x).shown others =
        (launched.1.run actions).shown others) ∧
    (∀ a, ((launched.1.run actions).tasks.find? launched.2).isSome →
      ((launched.1.run actions).step a).tasks.find? launched.2 = none →
      launched.1.Ended launched.2 w f (actions ++ [a])
        ((launched.1.run actions).ended? launched.2 a) ∧
      ∀ u, launched.1.Had launched.2 actions u → ∀ more,
        (launched.1.run (actions ++ a :: more)).ledger.Over u ∧
        ∀ row, (⟨u, row⟩ : LockRequest) ∉
          (launched.1.run (actions ++ a :: more)).ledger.requests) ∧
    ∀ t r, (launched.1.run actions).tasks.find? launched.2 = some t →
      t.process = (Work.done r : Work ε α).finishing.map f → ∀ more,
      3 ≤ more.countP (·.advances launched.2) →
      (launched.1.run (actions ++ more)).tasks.find? launched.2 = none := by
  obtain ⟨hstages, hfreed⟩ := launch_stages hs.lawful hlaunch actions
  have hlawful : launched.1.Lawful := by
    rw [← hlaunch]
    exact hs.lawful.added rfl (by simp)
  -- A task that is there has not ended before.
  have hstage : ∀ t, (launched.1.run actions).tasks.find? launched.2 = some t →
      t.interrupts = [] ∧ launched.1.Stage launched.2 w f actions t := by
    intro t ht
    rcases hstages with hpast | ⟨t', ht', hnever, hstage⟩
    · rw [hpast.absent] at ht
      cases ht
    · rw [ht, Option.some.injEq] at ht'
      exact ht' ▸ ⟨hnever, hstage⟩
  refine ⟨fun t u x others ht hu hothers => (hlawful.run actions).run_restage ht hu hothers,
    fun a hthere hgone => ?_, fun t r ht hprocess more hmore => ?_⟩
  · obtain ⟨t, ht⟩ := Option.isSome_iff_exists.mp hthere
    obtain ⟨hnever, hstage⟩ := hstage t ht
    cases hstage.step hlawful ht hnever a with
    | @on t' task interrupts stage releases =>
      rw [hgone] at task
      cases task
    | ended gone ended releases =>
      refine ⟨ended, fun u hu more => ?_⟩
      have hover : ((launched.1.run actions).step a).ledger.Over u := by
        rcases hfreed u hu with hover | ⟨t₁, ht₁, hu₁⟩
        · exact (((launched.1.run actions).step_goes a).ledger_cases (hlawful.run actions)).2.2 u
            hover
        · rw [ht, Option.some.injEq] at ht₁
          subst ht₁
          exact (releases u hu₁).resolve_left (by simp)
      have hsplit : launched.1.run (actions ++ a :: more) =
          ((launched.1.run actions).step a).run more := run_append ..
      rw [hsplit]
      have hlater := ((hlawful.run actions).step a).over_run hover more
      exact ⟨hlater, hlater.not_mem (((hlawful.run actions).step a).run more).ledger.orderly⟩
  · obtain ⟨hnever, hstage⟩ := hstage t ht
    exact hstage.finishes hlawful ht hnever (hprocess ▸ .ending r) hmore

/-- An account is opened with 60 and then holds 80. -/
def funded : Work AccountError Account := do
  let a ← Work.ask (.createAccount "ann" ⟨"CAD", by decide⟩ ⟨60, by decide, by decide⟩)
  Work.ask (.addBalance a.id ⟨20, by decide, by decide⟩)

/-- A service that has been asked for nothing but this. -/
def fundedAlone : Service × TaskId :=
  (start ⟨RetryPolicy.once, none⟩).launch (funded.atomically.map .account)

theorem funded_atomic :
    ∃ a, fundedAlone.1.Outcome fundedAlone.2 funded (turns 1 4 ++ [.advance 1]) (.ok a) ∧
      a.balance.units = 80 := by
  have hended : ∃ a, (fundedAlone.1.run (turns 1 4)).ended? fundedAlone.2 (.advance 1) =
      some (.answered (.account (.ok a))) ∧ a.balance.units = 80 := ⟨_, rfl, rfl⟩
  obtain ⟨a, hended, hbalance⟩ := hended
  have hlaunch : (start ⟨RetryPolicy.once, none⟩).launch (funded.atomically.map .account) =
      fundedAlone := rfl
  have h := ((atomically_atomic ⟨_, [], rfl⟩ hlaunch (turns 1 4)).2.1 (.advance 1) rfl rfl).1
  rw [hended] at h
  cases h with
  | returned outcome => exact ⟨a, outcome, hbalance⟩

/-- A script does its calls in a unit of work of its own, whatever its failures are taken for. -/
theorem submit_script (s : Service) (kind : FailureKind) (script : Script) :
    ∃ (ε : Type) (_ : OfStoreError ε) (f : Except ε (List (Noted ε)) → Answer),
      s.submit (.script kind script) =
        s.launch ((script.work : Work ε (List (Noted ε))).atomically.map f) := by
  have hlaunch : ∀ p, p = (script.atomically kind).map .script →
      s.submit (.script kind script) = s.launch p := by
    rintro p rfl
    rfl
  cases kind with
  | store => exact ⟨_, _, _, hlaunch _ (Process.map_map _ _ _).symm⟩
  | account => exact ⟨_, _, _, hlaunch _ (Process.map_map _ _ _).symm⟩
  | transfer => exact ⟨_, _, _, hlaunch _ (Process.map_map _ _ _).symm⟩

end Service
end FundsLedger
