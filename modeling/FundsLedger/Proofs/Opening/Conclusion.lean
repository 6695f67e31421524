import FundsLedger.Proofs.Commits
import FundsLedger.Proofs.Service.Closing

/-!
What comes of an opening. Arguments that do not pass the checks are refused before a unit of work is
opened. Any other opening never waits, and what it answers is decided in the turn in which it ends
its unit of work: if no account is in its place by then, it publishes one there and answers with it;
otherwise it publishes nothing. Only the hand that injects faults can keep it from that.
-/

namespace FundsLedger

open Ledger

variable {C : Prop} {v v' : View} {l l' : Ledger} {u : UnitId} {q : Option Call}
variable {owner currency : String} {c : Currency} {deposit : Amount} {a : Account}

/-- What grows keeps the accounts in their places. -/
theorem Books.GrowsInto.taken {b b' : Books} {place : String × Currency} (h : b.GrowsInto b')
    (ht : b.Taken place) : b'.Taken place := by
  obtain ⟨id, a, ha, hplace⟩ := ht
  obtain ⟨a', ha', hsame⟩ := h.accounts id a ha
  exact ⟨id, a', ha', hsame.place.trans hplace⟩

/-- A call that has to wait gives out no identifier. -/
theorem Ledger.Called.drawn_of_waits {c : Call} (h : l.Called u c l' .waits) :
    l'.drawn = l.drawn := by
  cases h with
  | queued => exact request_drawn
  | waiting => rfl

namespace Rules

/-- The rules of an opening that may rely, if `C` holds, on nobody making the store fail. -/
def openingIf (C : Prop) : Rules :=
  { opening with relies := fun l => l.drawn.InRange ∧ (C → l.failPoint = none ∧ l.conflicts = 0) }

theorem opening_lenient_openingIf (C : Prop) : opening.Lenient (openingIf C) :=
  ⟨fun _ hr => hr.1, fun _ _ hc => hc, fun _ hv => hv⟩

/-- Whoever asks only for rows of accounts that he has staged himself never waits. -/
theorem openingIf_prompt (C : Prop) : (openingIf C).Prompt := by
  intro v l u q c hf hcalls hq
  have hresponds := hf.fits.respond_call hf.lawful hq
  generalize l.respond (some u) (.call c) = response at hresponds
  cases hresponds with
  | answered => rfl
  | @waits l' row row? waits fits called =>
    obtain ⟨m, hm, -⟩ := called.makes
    have hrange : l'.drawn.InRange := by
      rw [called.drawn_of_waits]
      exact hf.relied.1
    have hsound := (hf.lawful.makes hm).sound hrange
    have hnone := hsound.awaited u c row (by rw [fits.unit_eq]) row?
    rw [fits.unit_eq] at hnone
    have hsome := hcalls.2 row row?
    rw [hnone] at hsome
    cases hsome

end Rules

namespace Accounts

/-- Whatever has been staged with the account of an opening, only this can be a duplicate, and then
the books have an account in its place. -/
theorem Funded.taken {a' : Account} (h : Funded v a deposit)
    (hfirst : v.staged.firstDuplicate? l.books = some a') : a' = a ∧ l.books.Taken a.place := by
  obtain ⟨⟨id, ha'⟩, -, hduplicate⟩ := UnitOfWork.firstDuplicate?_eq_some hfirst
  have honly : ∀ {id x}, v.staged.accounts.find? id = some x → x = a := by
    intro id x hx
    rw [h.accounts, Table.find?_insert] at hx
    split at hx
    · exact (Option.some.inj hx).symm
    · simp at hx
  obtain rfl := honly ha'
  obtain ⟨id, x, hx, hne, hplace⟩ := UnitOfWork.isDuplicate_iff.mp hduplicate
  rcases hx with hbook | hstaged
  · exact ⟨rfl, id, x, hbook, hplace⟩
  · rw [honly hstaged] at hne
    exact absurd rfl hne

/-- An account that the check at the commit lets pass has its place to itself. -/
theorem Funded.free (h : Funded v a deposit) (hf : Rules.accounting.Finds v l u none)
    (hfirst : v.staged.firstDuplicate? l.books = none) : ¬ l.books.Taken a.place := by
  rintro ⟨id, x, hx, hplace⟩
  have hnew := h.new hf
  have hstaged : v.staged.accounts.find? a.id = some a := by simp [h.accounts]
  have hunique := UnitOfWork.isDuplicate_of_firstDuplicate? hfirst hstaged hnew
  have hid := UnitOfWork.id_eq_of_unique hunique (Or.inl hx) hplace.symm
  rw [((Rules.accounting.sound hf).committed id x hx).1] at hid
  rw [hid, hnew] at hx
  cases hx

/-- How an opening ends that has passed the checks: it has published the account that it answers
with, in a place that was free; or it has published nothing, and if `C` holds, it has found that its
place is taken. -/
def Judged (C : Prop) (owner : String) (c : Currency) (deposit : Amount) (h : History) :
    Except AccountError Account → Prop
  | .ok a => ∃ b b', h.published = some (b, b') ∧ Opened owner c.code deposit a b b' ∧
    ¬ b.Taken (owner, c)
  | .error e => h.published = none ∧
    (C → e = .duplicate owner c.code ∧ ∃ b ∈ h.seen, b.Taken (owner, c))

theorem atomically_judged (hd : 0 ≤ deposit.units) :
    (openingWork owner c deposit).atomically.Keeps (Rules.openingIf C)
      (Judged C owner c deposit) History.empty none := by
  have hK := Rules.opening_lenient_openingIf C
  have hmeets : (openingWork owner c deposit).Meets (Rules.openingIf C)
      (Opens (Rules.openingIf C) owner c deposit) [] View.fresh := openingWork_meets hK hd
  refine Work.Meets.atomically (hmeets.mono (.refl _) fun seen v result hopens => ?_)
  cases result with
  | error e =>
    refine ⟨rfl, fun hC => ?_⟩
    rcases hopens with htaken | ⟨l, point, fault, hr, hinjected⟩
    · exact htaken
    · rw [injected?, (hr.2 hC).1] at hinjected
      cases hinjected
  | ok a =>
    obtain ⟨rfl, rfl, hfunded⟩ := hopens
    refine ⟨hfunded.settled, fun l u hf => ?_⟩
    have hf' := Rules.accounting_finds hK hf
    cases hr : (l.commitUnit u v.staged).2 with
    | ok =>
      have hcommitted := commitUnit_committed l u v.staged
      generalize l.commitUnit u v.staged = committed at hcommitted hr
      obtain ⟨l', r⟩ := committed
      cases hcommitted with
      | failed e conflicts => cases hr
      | published unique => exact ⟨_, _, rfl, hfunded.opened rfl rfl hf', hfunded.free hf' unique⟩
    | error e =>
      refine ⟨rfl, fun hC => ?_⟩
      obtain ⟨hpoint, hconflicts⟩ := hf.relied.2 hC
      rw [commitUnit_unhindered (by simp [hpoint]) hconflicts] at hr
      split at hr
      · rename_i a' hfirst
        cases hr
        obtain ⟨rfl, htaken⟩ := hfunded.taken hfirst
        exact ⟨rfl, l.books, List.mem_cons_self, htaken⟩
      · cases hr

/-- What follows the unit of work of an opening. -/
def announced : Except AccountError Account → Process (Except AccountError Account)
  | .ok account => .note (.accountOpened account) (.done (.ok account))
  | .error e => .done (.error e)

theorem announced_tells (r : Except AccountError Account) : (announced r).Tells r := by
  cases r with
  | ok account => exact .note (.done _)
  | error e => exact .done _

variable {policy : RetryPolicy}

/-- An opening that is refused has its answer at once. -/
theorem process_of_error (policy : RetryPolicy) {e : ValidationError}
    (h : checkOpening owner currency deposit = .error e) :
    (Operation.openAccount owner currency deposit).process policy =
      .done (.account (.error (.validation e))) := by
  rw [Operation.process, openAccount, h]
  rfl

/-- An opening that is not refused does its work in a unit of work of its own. -/
theorem process_of_ok (h : checkOpening owner currency deposit = .ok c) :
    (Operation.openAccount owner currency deposit).process policy =
      ((openingWork owner c deposit).atomically.bind announced).map .account := by
  rw [Operation.process, openAccount, h]
  rfl

theorem process_judged (h : checkOpening owner currency deposit = .ok c) :
    ((Operation.openAccount owner currency deposit).process policy).Keeps (Rules.openingIf C)
      (fun h x => ∃ r, x = .account r ∧ Judged C owner c deposit h r) History.empty none := by
  rw [process_of_ok h]
  refine .map (.bind ((atomically_judged (of_checkOpening h).2).mono (.refl _) fun _ r hr => ?_))
  cases r <;> exact ⟨rfl, _, rfl, hr⟩

/-- An opening keeps its rules, whatever its arguments are. -/
theorem process_keeps :
    ((Operation.openAccount owner currency deposit).process policy).Keeps (Rules.openingIf C)
      (fun _ _ => True) History.empty none := by
  rcases checkOpening_cases owner currency deposit with ⟨e, -, h⟩ | ⟨-, -, c, -, h⟩
  · rw [process_of_error policy h]
    exact ⟨rfl, trivial⟩
  · exact (process_judged h).mono (.refl _) fun _ _ _ => trivial

/-- Once it has begun its unit of work, an opening has that to end. -/
theorem process_closing (policy : RetryPolicy)
    (h : checkOpening owner currency deposit = .ok c) :
    ∃ next, (Operation.openAccount owner currency deposit).process policy = .ask .begin next ∧
      (next (.ok ())).Closing := by
  rw [process_of_ok h]
  refine ⟨_, rfl, ?_⟩
  exact ((Work.finishing_closing _).bind fun r => ⟨r, announced_tells r⟩).bind
    fun r => ⟨.account r, .done _⟩

/-- The last part of an opening takes up to five steps. -/
theorem funding_within (account : Account) :
    ((((funding account deposit).finishing).bind announced).map Answer.account).Within 5 := by
  unfold funding
  split
  · rintro (e | ⟨⟩) <;> trivial
  · rintro (e | funded)
    · rintro (e | ⟨⟩) <;> trivial
    · rintro (e | entry)
      · rintro (e | ⟨⟩) <;> trivial
      · rintro (e | ⟨⟩) <;> trivial

/-- An opening takes up to seven steps. -/
theorem process_within :
    ((Operation.openAccount owner currency deposit).process policy).Within 7 := by
  rcases checkOpening_cases owner currency deposit with ⟨e, -, h⟩ | ⟨-, -, c, -, h⟩
  · rw [process_of_error policy h]
    trivial
  · rw [process_of_ok h, openingWork_eq]
    rintro (e | ⟨⟩)
    · trivial
    · rintro (e | account)
      · rintro (e | ⟨⟩) <;> trivial
      · exact funding_within account

end Accounts

namespace Service

variable {s : Service} {t : Service × TaskId} {id : TaskId} {pre actions : List Action}
variable {a last : Action} {result : Except AccountError Account} {h : History}

theorem Lawful.growsInto_run (hs : s.Lawful) (actions : List Action)
    (hr : (s.run actions).ledger.drawn.InRange) :
    s.ledger.books.GrowsInto (s.run actions).ledger.books := by
  refine run_induction (s := s)
    (P := fun _ s' => s'.ledger.drawn.InRange → s.ledger.books.GrowsInto s'.ledger.books)
    (fun _ => .refl _) (fun as a ih hr => ?_) actions hr
  have hgoes := (s.run as).step_goes a
  have hrange := hr.of_upTo (hgoes.ledger_cases (hs.run as)).2.1
  obtain ⟨m, hm⟩ := hgoes.makes
  exact (ih hrange).trans (hm.growsInto ((hs.run as).ledger.sound hrange))

/-- Whenever a step is taken in the run, the store has not been told to fail and no conflict is
due. -/
def Unhindered (s : Service) (actions : List Action) : Prop :=
  ∀ pre a post, actions = pre ++ a :: post →
    (s.run pre).ledger.failPoint = none ∧ (s.run pre).ledger.conflicts = 0

theorem unhindered_cons {rest : List Action} :
    s.Unhindered (a :: rest) ↔
      (s.ledger.failPoint = none ∧ s.ledger.conflicts = 0) ∧ (s.step a).Unhindered rest := by
  constructor
  · intro h
    exact ⟨h [] a rest rfl, fun pre b post heq => h (a :: pre) b post (by rw [heq]; rfl)⟩
  · rintro ⟨hfirst, hrest⟩ pre b post heq
    cases pre with
    | nil => exact hfirst
    | cons a' pre =>
      obtain ⟨rfl, hrest'⟩ := List.cons.inj heq
      exact hrest pre b post hrest'

instance decidableUnhindered (s : Service) :
    (actions : List Action) → Decidable (s.Unhindered actions)
  | [] => isTrue fun pre _ _ heq => absurd heq (by simp)
  | a :: rest =>
    have := decidableUnhindered (s.step a) rest
    decidable_of_iff _ unhindered_cons.symm

/-- The opening of an account for the place has been decided in the turn after `pre`. If it succeeds,
then it has published in that turn, and only then, the account with which it answers, and the place
was free; otherwise it has published nothing. If nobody has made the store fail, it succeeds exactly
if its place was free in that turn, and otherwise answers that it was not. -/
structure Concludes (s : Service) (id : TaskId) (owner : String) (c : Currency) (deposit : Amount)
    (actions pre : List Action) (result : Except AccountError Account) : Prop where
  turn : ∃ post, actions = pre ++ .advance id :: post
  decides : s.Decides id pre (.account result)
  opened : ∀ a, result = .ok a →
    s.publications id actions =
      [((s.run pre).ledger.books, (s.run (pre ++ [.advance id])).ledger.books)] ∧
    Opened owner c.code deposit a (s.run pre).ledger.books
      (s.run (pre ++ [.advance id])).ledger.books ∧
    ¬ (s.run pre).ledger.books.Taken (owner, c)
  unchanged : ∀ e, result = .error e → s.publications id actions = []
  free : s.Unhindered actions →
    ((∃ a, result = .ok a) ↔ ¬ (s.run pre).ledger.books.Taken (owner, c))
  refusal : s.Unhindered actions → ∀ e, result = .error e → e = .duplicate owner c.code

/-- How an opening ends in a run: it is refused before it has opened a unit of work, or it concludes
in one, or its client drops it and it has published nothing. -/
inductive OpeningEnds (s : Service) (id : TaskId) (owner currency : String) (deposit : Amount)
    (actions : List Action) : Option (Settled Answer) → Prop
  | refused {e : ValidationError} (fault : Accounts.firstFault? owner currency deposit = some e)
      (idle : ∀ u, ¬ s.Had id actions u) (unchanged : s.publications id actions = []) :
      OpeningEnds s id owner currency deposit actions
        (some (.answered (.account (.error (.validation e)))))
  | concluded {c : Currency} {pre : List Action} {result : Except AccountError Account}
      (faultless : Accounts.firstFault? owner currency deposit = none) (code : c.code = currency)
      (concludes : s.Concludes id owner c deposit actions pre result) :
      OpeningEnds s id owner currency deposit actions (some (.answered (.account result)))
  | dropped {pre : List Action} (abort : actions = pre ++ [.abort id])
      (unchanged : s.publications id actions = []) :
      OpeningEnds s id owner currency deposit actions none

/-- What the turn says in which an opening has been decided. -/
theorem Decides.judged {C : Prop} {h₀ h₁ : History}
    (hd : s.Decides id pre (.account result))
    (hk₀ : (s.run pre).Follows (Rules.openingIf C)
      (fun h x => ∃ r, x = .account r ∧ Accounts.Judged C owner c deposit h r) id h₀)
    (hk₁ : (s.run (pre ++ [.advance id])).Follows (Rules.openingIf C)
      (fun h x => ∃ r, x = .account r ∧ Accounts.Judged C owner c deposit h r) id h₁) :
    h₀.published = none ∧ Accounts.Judged C owner c deposit h₁ result := by
  obtain ⟨t₀, u, t₁, ht₀, hu, ht₁, hnone, htells⟩ := hd
  constructor
  · obtain ⟨t, view, ht, hattached, hk⟩ := hk₀
    rw [ht₀, Option.some.injEq] at ht
    subst ht
    rw [hu] at hattached
    cases hattached with
    | busy fits pending => exact hk.unpublished_of_open
  · obtain ⟨t, view, ht, hattached, hk⟩ := hk₁
    rw [ht₁, Option.some.injEq] at ht
    subst ht
    obtain ⟨r, hr, hjudged⟩ := htells.keeps hk
    cases hr
    exact hjudged

/-- What an opening may rely on in all states of a run in which the counters stay in range. -/
theorem Lawful.openingIf_relies (hs : s.Lawful) (hr : (s.run actions).ledger.drawn.InRange)
    (last : Action) (pre rest : List Action) (heq : actions = pre ++ rest) :
    (Rules.openingIf (s.Unhindered (actions ++ [last]))).relies (s.run pre).ledger := by
  subst heq
  refine ⟨hs.inRange_of_append hr, fun hunhindered => ?_⟩
  obtain ⟨a, post, hcons⟩ := List.exists_cons_of_ne_nil (l := rest ++ [last]) (by simp)
  exact hunhindered pre a post (by rw [List.append_assoc, hcons])

/-- Books that a task has found before a state of the run grow into the books of that state. -/
theorem Lawful.turn_growsInto {b b' : Books} (hs : s.Lawful)
    (hr : (s.run pre).ledger.drawn.InRange) (ht : s.Turn id (pre ++ [a]) b b') :
    b.GrowsInto (s.run pre).ledger.books := by
  obtain ⟨as, post, heq, rfl, -⟩ := ht
  rcases List.prefix_concat_iff.mp ⟨_, heq.symm⟩ with hall | ⟨rest, rfl⟩
  · simp [hall] at heq
  rw [run_append] at hr ⊢
  exact (hs.run as).growsInto_run rest hr

/-- An opening that has passed the checks and answers concludes in the turn in which it has ended its
unit of work. -/
theorem Reachable.opening_concludes (hs : s.Reachable)
    (ht : s.submit (.openAccount owner currency deposit) = t)
    (hchecked : Accounts.checkOpening owner currency deposit = .ok c)
    (hr : (t.1.run actions).ledger.drawn.InRange)
    (hended : (t.1.run actions).ended? t.2 (.advance t.2) = some (.answered (.account result)))
    (hc : t.1.Chronicle t.2 (actions ++ [.advance t.2]) h)
    (hjudged : Accounts.Judged (t.1.Unhindered (actions ++ [.advance t.2])) owner c deposit h
      result) :
    ∃ pre, t.1.Concludes t.2 owner c deposit (actions ++ [.advance t.2]) pre result := by
  have hlawful := hs.lawful.of_submit ht
  have hfound := find?_submit s (.openAccount owner currency deposit)
  rw [ht] at hfound
  obtain ⟨task, htask⟩ := Option.isSome_iff_exists.mp (gone_of_ended hended).1
  -- The answer has been decided in an earlier turn of the task.
  obtain ⟨next, hprocess, hclosing⟩ := Accounts.process_closing s.settings.policy hchecked
  have hcourse := hlawful.course hfound rfl (.waiting rfl hprocess hclosing) actions task htask
  obtain ⟨pre, post, heq, hdecides⟩ := hcourse.decided htask hended
  have hcame : ∀ as bs, actions = as ++ bs → t.1.Came _ _ t.2 as := fun as bs hactions =>
    hs.lawful.came ht (Accounts.process_judged hchecked) fun as' bs' has =>
      hlawful.openingIf_relies hr (.advance t.2) as' (bs' ++ bs)
        (by rw [hactions, has, List.append_assoc])
  have heq' : actions = (pre ++ [.advance t.2]) ++ post := by simp [heq]
  obtain ⟨t₀, -, t₁, ht₀, -, ht₁, -⟩ := id hdecides
  obtain ⟨h₀, hc₀, hk₀⟩ := (hcame pre _ heq).live (by rw [ht₀]; rfl)
  obtain ⟨h₁, hc₁, hk₁⟩ := (hcame _ _ heq').live (by rw [ht₁]; rfl)
  obtain ⟨hnone, hjudged₁⟩ := hdecides.judged hk₀ hk₁
  have hrange : (t.1.run pre).ledger.drawn.InRange := by
    rw [heq] at hr
    exact hlawful.inRange_of_append hr
  refine ⟨pre, ⟨post ++ [.advance t.2], by simp [heq]⟩, hdecides, ?_, ?_, fun hC => ⟨?_, ?_⟩, ?_⟩
  · rintro a rfl
    obtain ⟨b, b', hpublished, hopened, hfree⟩ := hjudged₁
    obtain ⟨rfl, rfl⟩ := Prod.mk.inj (hc₀.published_last hnone hc₁ hpublished)
    have hend := hc
    rw [heq', List.append_assoc] at hend
    have hlast := hc₁.published_append hpublished hend
    refine ⟨?_, hopened, hfree⟩
    rw [hc.publications, hlast]
    rfl
  · rintro e rfl
    exact hc.unpublished hjudged.1
  · rintro ⟨a, rfl⟩
    obtain ⟨b, b', hpublished, -, hfree⟩ := hjudged₁
    obtain ⟨rfl, -⟩ := Prod.mk.inj (hc₀.published_last hnone hc₁ hpublished)
    exact hfree
  · intro hfree
    cases result with
    | ok a => exact ⟨a, rfl⟩
    | error e =>
      obtain ⟨-, b, hb, htaken⟩ := hjudged₁.2 hC
      have hgrows := hlawful.turn_growsInto hrange (hc₁.seen b hb)
      exact absurd (hgrows.taken htaken) hfree
  · rintro hC e rfl
    exact (hjudged.2 hC).1

/-- An opening that is refused has its answer without a unit of work. -/
theorem Lawful.opening_refused {e : ValidationError} (hs : s.Lawful)
    (ht : s.submit (.openAccount owner currency deposit) = t)
    (hfault : Accounts.firstFault? owner currency deposit = some e)
    (hchecked : Accounts.checkOpening owner currency deposit = .error e)
    (hr : (t.1.run actions).ledger.drawn.InRange)
    (hlive : ((t.1.run actions).tasks.find? t.2).isSome)
    (hgone : ((t.1.run actions).step last).tasks.find? t.2 = none) :
    t.1.OpeningEnds t.2 owner currency deposit (actions ++ [last])
      ((t.1.run actions).ended? t.2 last) := by
  have hlawful := hs.of_submit ht
  have hfound := find?_submit s (.openAccount owner currency deposit)
  rw [ht] at hfound
  have hprocess := Accounts.process_of_error s.settings.policy hchecked
  have hkeeps : ((Operation.openAccount owner currency deposit).process s.settings.policy).Keeps
      (Rules.openingIf (t.1.Unhindered (actions ++ [last])))
      (fun h x => h.published = none ∧ x = .account (.error (.validation e)))
      History.empty none := by
    rw [hprocess]
    exact ⟨rfl, rfl, rfl⟩
  obtain ⟨h, -, hc, hends⟩ :=
    hs.ends_uncut ht hkeeps rfl (hlawful.openingIf_relies hr last) hlive hgone
  rcases hends with ⟨a, rfl, hended, hnone, rfl⟩ | ⟨rfl, hended, hnone⟩
  · rw [hended]
    exact .refused hfault (hlawful.not_had_of_done hfound rfl hprocess rfl _) (hc.unpublished hnone)
  · rw [hended]
    exact .dropped rfl (hc.unpublished hnone)

/-- An opening from its submission to its end, whatever others do meanwhile. It ends within seven
steps of its own. If its arguments do not pass the checks, it answers with the first condition that
is not met and never has a unit of work. Otherwise it answers with a new account exactly if its place
was free in the turn in which it ended its unit of work, and has published that account and its
deposit in that one turn; or it has published nothing. -/
theorem opening_end_to_end (hs : s.Reachable)
    (ht : s.submit (.openAccount owner currency deposit) = t) (actions : List Action)
    (hr : (t.1.run actions).ledger.drawn.InRange)
    (hlive : ((t.1.run actions).tasks.find? t.2).isSome) :
    actions.countP (·.advances t.2) < 7 ∧
    ∀ last, ((t.1.run actions).step last).tasks.find? t.2 = none →
      t.1.OpeningEnds t.2 owner currency deposit (actions ++ [last])
        ((t.1.run actions).ended? t.2 last) := by
  have hlawful := hs.lawful.of_submit ht
  refine ⟨?_, fun last hgone => ?_⟩
  · obtain ⟨task, htask⟩ := Option.isSome_iff_exists.mp hlive
    have hwithin := hs.lawful.within ht Accounts.process_keeps rfl
      (hlawful.openingIf_relies hr (.advance t.2)) (Rules.openingIf_prompt _)
      Accounts.process_within task htask
    have := hwithin.pos
    omega
  rcases Accounts.checkOpening_cases owner currency deposit with
    ⟨e, hfault, hchecked⟩ | ⟨hfaultless, -, c, hcode, hchecked⟩
  · exact hs.lawful.opening_refused ht hfault hchecked hr hlive hgone
  obtain ⟨h, -, hc, ⟨a, rfl, hended, result, rfl, hjudged⟩ | ⟨rfl, hended, hnone⟩⟩ :=
    hs.lawful.ends_uncut ht (Accounts.process_judged hchecked) rfl
      (hlawful.openingIf_relies hr last) hlive hgone
  · obtain ⟨pre, hconcludes⟩ := hs.opening_concludes ht hchecked hr hended hc hjudged
    rw [hended]
    exact .concluded hfaultless hcode hconcludes
  · rw [hended]
    exact .dropped rfl (hc.unpublished hnone)

/-- A client opens an account with a deposit of 5 cents. -/
def opener : Service × TaskId :=
  (start ⟨.once, none⟩).submit (.openAccount "ann" "USD" (cents 5))

/-- Another client opens an account for the same place when the first one has staged its own. -/
def rival : Service × TaskId :=
  (opener.1.run (turns 1 2)).submit (.openAccount "ann" "USD" (cents 7))

/-- Both have staged their accounts and deposits before the first of them ends. -/
def race : List Action := turns 2 4 ++ (turns 1 5 ++ turns 2 1)

set_option maxRecDepth 8000 in
/-- The first client gets the account that it has published. The second one publishes nothing and is
told that the place is taken, which it is in the turn in which its commit fails. -/
theorem race_end_to_end :
    (∃ a b b', (opener.1.run (turns 1 6)).ended? 1 (.advance 1) =
        some (.answered (.account (.ok a))) ∧
      opener.1.publications 1 (turns 1 7) = [(b, b')] ∧ Opened "ann" "USD" (cents 5) a b b') ∧
    (rival.1.run race).ended? 2 (.advance 2) =
      some (.answered (.account (.error (.duplicate "ann" "USD")))) ∧
    rival.1.publications 2 (race ++ [.advance 2]) = [] ∧
    ∃ pre post, race ++ [.advance 2] = pre ++ .advance 2 :: post ∧
      (rival.1.run pre).ledger.books.Taken ("ann", dollar) := by
  constructor
  · obtain ⟨a, hended⟩ : ∃ a, (opener.1.run (turns 1 6)).ended? 1 (.advance 1) =
        some (.answered (.account (.ok a))) := ⟨_, rfl⟩
    have hends := (opening_end_to_end ⟨_, [], rfl⟩ (rfl : _ = opener) (turns 1 6) (by decide) rfl).2
      (.advance 1) rfl
    rw [show opener.2 = 1 from rfl, hended] at hends
    cases hends with
    | concluded faultless code concludes =>
      obtain ⟨hpublications, hopened, -⟩ := concludes.opened a rfl
      exact ⟨a, _, _, hended, hpublications, code ▸ hopened⟩
  · have hended : (rival.1.run race).ended? 2 (.advance 2) =
        some (.answered (.account (.error (.duplicate "ann" "USD")))) := rfl
    have hunhindered : rival.1.Unhindered (race ++ [.advance 2]) := by decide
    have hends := (opening_end_to_end ⟨_, .submit _ :: turns 1 2, rfl⟩ (rfl : _ = rival) race
      (by decide) rfl).2 (.advance 2) rfl
    rw [show rival.2 = 2 from rfl, hended] at hends
    cases hends with
    | @concluded c pre _ faultless code concludes =>
      obtain ⟨code', wellFormed⟩ := c
      obtain rfl : code' = "USD" := code
      obtain ⟨post, hturn⟩ := concludes.turn
      refine ⟨hended, concludes.unchanged _ rfl, pre, post, hturn, ?_⟩
      by_contra hfree
      obtain ⟨a, heq⟩ := (concludes.free hunhindered).mpr hfree
      cases heq

end Service
end FundsLedger
