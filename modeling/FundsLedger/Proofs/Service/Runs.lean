import FundsLedger.Proofs.Service.Following

/-!
Runs, seen from one task. The turns of a task in a run say what it has found and what it has
published, and what its process knows of them is its history. A task that is still there at the end
of a run has kept its rules all along, and every unit of work that it has had is over or is the one
it has open.
-/

namespace FundsLedger.Service

open Ledger

variable {s s' : Service} {id : TaskId} {t : Task} {a : Action} {actions : List Action}
variable {K : Rules} {post : History → Answer → Prop} {h h' : History} {b b' : Books} {u : Int}

theorem run_append (s : Service) (as bs : List Action) :
    s.run (as ++ bs) = (s.run as).run bs :=
  List.foldl_append

theorem run_concat (s : Service) (as : List Action) (a : Action) :
    s.run (as ++ [a]) = (s.run as).step a := by
  rw [run_append]
  rfl

/-- What holds at the start and is kept by every step holds at the end of every run. -/
theorem run_induction {P : List Action → Service → Prop} (start : P [] s)
    (step : ∀ as a, P as (s.run as) → P (as ++ [a]) ((s.run as).step a)) (actions : List Action) :
    P actions (s.run actions) := by
  suffices h : ∀ bs as, P as (s.run as) → P (as ++ bs) (s.run (as ++ bs)) from h actions [] start
  intro bs
  induction bs with
  | nil =>
    intro as h
    rwa [List.append_nil]
  | cons a bs ih =>
    intro as h
    have hnext := step as a h
    rw [← run_concat] at hnext
    simpa using ih (as ++ [a]) hnext

theorem find?_submit (s : Service) (op : Operation) :
    (s.submit op).1.tasks.find? (s.submit op).2 =
      some ⟨op.process s.settings.policy, none, op.interrupts s.settings.timeout s.now⟩ := by
  simp [submit, addTask]

theorem Lawful.run (hs : s.Lawful) (actions : List Action) : (s.run actions).Lawful :=
  run_induction (P := fun _ s => s.Lawful) hs (fun _ a h => h.step a) actions

theorem Reachable.lawful (hs : s.Reachable) : s.Lawful := by
  obtain ⟨settings, actions, rfl⟩ := hs
  exact (Lawful.start settings).run actions

/-- Counters that are in range at the end of a run have been so all along. -/
theorem Lawful.upTo_run (hs : s.Lawful) (actions : List Action) :
    s.ledger.drawn.UpTo (s.run actions).ledger.drawn := by
  have h := run_induction (s := s)
    (P := fun _ s' => s'.Lawful ∧ s.ledger.drawn.UpTo s'.ledger.drawn) ⟨hs, .refl _⟩
    (fun as a h => ⟨h.1.step a, h.2.trans (((s.run as).step_goes a).ledger_cases h.1).2.1⟩) actions
  exact h.2

/-- Counters that are in range at the end of a run are in range after its first part. -/
theorem Lawful.inRange_of_append (hs : s.Lawful) {as bs : List Action}
    (hr : (s.run (as ++ bs)).ledger.drawn.InRange) : (s.run as).ledger.drawn.InRange := by
  rw [run_append] at hr
  exact hr.of_upTo ((hs.run as).upTo_run bs)

theorem inRange_of_append (settings : Settings) {as bs : List Action}
    (hr : ((start settings).run (as ++ bs)).ledger.drawn.InRange) :
    ((start settings).run as).ledger.drawn.InRange :=
  (Lawful.start settings).inRange_of_append hr

theorem Lawful.of_submit {op : Operation} {t : Service × TaskId} (hs : s.Lawful)
    (ht : s.submit op = t) : t.1.Lawful := by
  rw [← ht]
  exact hs.submit op

/-- A unit of work that is over stays over. -/
theorem Lawful.over_run (hs : s.Lawful) (ho : s.ledger.Over u) (actions : List Action) :
    (s.run actions).ledger.Over u := by
  have h := run_induction (s := s) (P := fun _ s' => s'.Lawful ∧ s'.ledger.Over u) ⟨hs, ho⟩
    (fun as a h => ⟨h.1.step a, (((s.run as).step_goes a).ledger_cases h.1).2.2 u h.2⟩) actions
  exact h.2

/-- A committed account stays committed. -/
theorem committed_run {row : Int} (ha : (s.ledger.books.accounts.find? row).isSome)
    (actions : List Action) : ((s.run actions).ledger.books.accounts.find? row).isSome := by
  refine run_induction (s := s)
    (P := fun _ s' => (s'.ledger.books.accounts.find? row).isSome) ha (fun as a h => ?_) actions
  obtain ⟨m, hm⟩ := ((s.run as).step_goes a).makes
  exact hm.committed h

/-! ## The turns of a task -/

/-- In one of its turns in the run the task found the first books and left the second. -/
def Turn (s : Service) (id : TaskId) (actions : List Action) (b b' : Books) : Prop :=
  ∃ pre post, actions = pre ++ .advance id :: post ∧ (s.run pre).ledger.books = b ∧
    (s.run (pre ++ [.advance id])).ledger.books = b'

/-- At some time of the run the task has the unit of work open. -/
def Had (s : Service) (id : TaskId) (actions : List Action) (u : UnitId) : Prop :=
  ∃ pre post t, actions = pre ++ post ∧ (s.run pre).tasks.find? id = some t ∧ t.unit = some u

/-- Something has been committed between two states. -/
def Commits (s s' : Service) : Prop :=
  s'.ledger.books ≠ s.ledger.books ∨ s'.ledger.commits ≠ s.ledger.commits

instance (s s' : Service) : Decidable (s.Commits s') := inferInstanceAs (Decidable (_ ∨ _))

/-- Where nothing happens nothing is committed. -/
theorem not_commits_self (s : Service) : ¬ s.Commits s := by
  rintro (hne | hne)
  · exact hne rfl
  · exact hne rfl

/-- The books before and after each turn of the task in which something is committed. -/
def publications (s : Service) (id : TaskId) : List Action → List (Books × Books)
  | [] => []
  | a :: rest =>
    (if a.turn? = some id ∧ s.Commits (s.step a) then [(s.ledger.books, (s.step a).ledger.books)]
      else []) ++ publications (s.step a) id rest

theorem publications_append (s : Service) (id : TaskId) (as bs : List Action) :
    s.publications id (as ++ bs) = s.publications id as ++ (s.run as).publications id bs := by
  induction as generalizing s with
  | nil => rfl
  | cons a as ih =>
    simp only [List.cons_append, publications, ih, List.append_assoc]
    rfl

theorem publications_concat (s : Service) (id : TaskId) (as : List Action) (a : Action) :
    s.publications id (as ++ [a]) = s.publications id as ++
      if a.turn? = some id ∧ (s.run as).Commits ((s.run as).step a) then
        [((s.run as).ledger.books, ((s.run as).step a).ledger.books)] else [] := by
  simp [publications_append, publications]

theorem Turn.append (h : s.Turn id actions b b') (more : List Action) :
    s.Turn id (actions ++ more) b b' := by
  obtain ⟨pre, post, rfl, hb, hb'⟩ := h
  exact ⟨pre, post ++ more, by simp, hb, hb'⟩

theorem Turn.last (s : Service) (id : TaskId) (actions : List Action) :
    s.Turn id (actions ++ [.advance id]) (s.run actions).ledger.books
      ((s.run actions).advance id).1.ledger.books :=
  ⟨actions, [], rfl, rfl, by rw [run_concat]; rfl⟩

theorem Had.concat_cases (h : s.Had id (actions ++ [a]) u) :
    s.Had id actions u ∨
      ∃ t, (s.run (actions ++ [a])).tasks.find? id = some t ∧ t.unit = some u := by
  obtain ⟨pre, post, t, heq, ht, hu⟩ := h
  rcases List.eq_nil_or_concat post with rfl | ⟨post', last, rfl⟩
  · rw [List.append_nil] at heq
    subst heq
    exact Or.inr ⟨t, ht, hu⟩
  · rw [List.concat_eq_append, ← List.append_assoc] at heq
    have := (List.append_inj' heq rfl).1
    exact Or.inl ⟨pre, post', t, this, ht, hu⟩

/-! ## The history of a task -/

/-- The history is that of the task in the run. -/
structure Chronicle (s : Service) (id : TaskId) (actions : List Action) (h : History) : Prop where
  seen : ∀ b ∈ h.seen, s.Turn id actions b b
  published : ∀ p, h.published = some p → s.Turn id actions p.1 p.2
  publications : s.publications id actions = h.published.toList

/-- A unit of work that a task has had is over, or the task still has it. -/
def Freed (s : Service) (id : TaskId) (actions : List Action) : Prop :=
  ∀ u, s.Had id actions u → (s.run actions).ledger.Over u ∨
    ∃ t, (s.run actions).tasks.find? id = some t ∧ t.unit = some u

theorem Chronicle.start (s : Service) (id : TaskId) : s.Chronicle id [] History.empty where
  seen b hb := by simp [History.empty] at hb
  published p hp := by simp [History.empty] at hp
  publications := rfl

/-- A turn in which nothing is committed adds nothing to the history. -/
theorem Chronicle.quiet (hc : s.Chronicle id actions h)
    (hquiet : ¬ (a.turn? = some id ∧ (s.run actions).Commits ((s.run actions).step a))) :
    s.Chronicle id (actions ++ [a]) h where
  seen b hb := (hc.seen b hb).append [a]
  published p hp := (hc.published p hp).append [a]
  publications := by
    rw [publications_concat, if_neg hquiet, hc.publications, List.append_nil]

/-- A turn of the task adds to the history what the task has found or published. -/
theorem Chronicle.passes (hc : s.Chronicle id actions h)
    (hp : h.Passes (s.run actions).ledger ((s.run actions).advance id).1.ledger h') :
    s.Chronicle id (actions ++ [.advance id]) h' := by
  have hquiet : ∀ {l' : Ledger}, ((s.run actions).advance id).1.ledger = l' →
      l'.books = (s.run actions).ledger.books → l'.commits = (s.run actions).ledger.commits →
      s.Chronicle id (actions ++ [.advance id]) h := by
    rintro l' rfl hbooks hcommits
    refine hc.quiet fun hcommitted => ?_
    rcases hcommitted.2 with hne | hne
    · exact hne hbooks
    · exact hne hcommits
  cases hp with
  | idle books commits => exact hquiet rfl books commits
  | saw books commits =>
    have hc' := hquiet rfl books commits
    refine ⟨fun b hb => ?_, hc'.published, hc'.publications⟩
    rcases List.mem_cons.mp hb with rfl | hb
    · have := Turn.last s id actions
      rwa [books] at this
    · exact hc'.seen b hb
  | published unpublished commits =>
    refine ⟨fun b hb => (hc.seen b hb).append _, fun p hp => ?_, ?_⟩
    · cases hp
      exact Turn.last s id actions
    · have hcommits : (s.run actions).Commits ((s.run actions).step (.advance id)) := by
        right
        show ((s.run actions).advance id).1.ledger.commits ≠ _
        omega
      rw [publications_concat, if_pos ⟨rfl, hcommits⟩, hc.publications, unpublished]
      rfl

/-- A task whose history knows of no publication has published nothing. -/
theorem Chronicle.unpublished (hc : s.Chronicle id actions h) (hnone : h.published = none) :
    s.publications id actions = [] := by
  rw [hc.publications, hnone]
  rfl

/-- What a task publishes in a turn are the books before and after the turn. -/
theorem Chronicle.published_last {p : Books × Books} (hc : s.Chronicle id actions h)
    (hnone : h.published = none) (hc' : s.Chronicle id (actions ++ [.advance id]) h')
    (hsome : h'.published = some p) :
    p = ((s.run actions).ledger.books, (s.run (actions ++ [.advance id])).ledger.books) := by
  have hlist := hc'.publications
  rw [publications_concat, hc.publications, hnone, hsome] at hlist
  split at hlist
  · rw [run_concat]
    exact (List.singleton_inj.mp hlist).symm
  · cases hlist

/-- What a task has published stays published, and nothing is added to it. -/
theorem Chronicle.published_append {p : Books × Books} {more : List Action}
    (hc : s.Chronicle id actions h) (hsome : h.published = some p)
    (hc' : s.Chronicle id (actions ++ more) h') : h'.published = some p := by
  have hlist := hc'.publications
  rw [publications_append, hc.publications, hsome] at hlist
  cases hp : h'.published with
  | none =>
    rw [hp] at hlist
    cases hlist
  | some q =>
    rw [hp] at hlist
    rw [(List.cons.inj hlist).1]

/-- After one more step a unit of work that the task had is over, or the task still has it. -/
theorem Freed.concat (hfreed : s.Freed id actions) (hs : s.Lawful)
    (hown : ∀ t u, (s.run actions).tasks.find? id = some t → t.unit = some u →
      ((s.run actions).step a).ledger.Over u ∨
        ∃ t', ((s.run actions).step a).tasks.find? id = some t' ∧ t'.unit = some u) :
    s.Freed id (actions ++ [a]) := by
  intro u hu
  rcases hu.concat_cases with hu | hu
  · rw [run_concat]
    rcases hfreed u hu with hover | ⟨t, ht, hunit⟩
    · exact Or.inl ((((s.run actions).step_goes a).ledger_cases (hs.run actions)).2.2 u hover)
    · exact hown t u ht hunit
  · exact Or.inr hu

/-- What a run has come to for a task that was in the service at its start. -/
inductive Came (s : Service) (K : Rules) (post : History → Answer → Prop) (id : TaskId)
    (actions : List Action) : Prop
  | following {h : History} (chronicle : s.Chronicle id actions h)
      (follows : (s.run actions).Follows K post id h) (freed : s.Freed id actions)
  | past (past : (s.run actions).Past id) (freed : s.Freed id actions)

/-- A task that is still there has kept its rules. -/
theorem Came.live (hc : s.Came K post id actions) (ht : ((s.run actions).tasks.find? id).isSome) :
    ∃ h, s.Chronicle id actions h ∧ (s.run actions).Follows K post id h := by
  cases hc with
  | following chronicle follows freed => exact ⟨_, chronicle, follows⟩
  | past past freed =>
    rw [past.absent] at ht
    cases ht

/-- Once a task has ended, every unit of work that it has had is over. -/
theorem Came.released (hc : s.Came K post id actions)
    (hgone : (s.run actions).tasks.find? id = none)
    (hu : s.Had id actions u) : (s.run actions).ledger.Over u := by
  have hfreed : s.Freed id actions := by
    cases hc with
    | following chronicle follows freed => exact freed
    | past past freed => exact freed
  rcases hfreed u hu with hover | ⟨t, ht, -⟩
  · exact hover
  · rw [hgone] at ht
    cases ht

theorem Goes.submitted_le {turn : Option TaskId} (hg : s.Goes turn s') :
    s.submitted ≤ s'.submitted := by
  cases hg with
  | aside ledger tasks submitted => exact Nat.le_of_eq submitted.symm
  | added t unit interrupts => exact Nat.le_succ _
  | outside | moved | gone => exact Nat.le_refl _

/-- The number of a task is not given out again. -/
theorem Past.goes {turn : Option TaskId} (hp : s.Past id) (hg : s.Goes turn s') : s'.Past id := by
  have hle := hp.numbered
  refine ⟨Int.le_trans hle (Int.ofNat_le.mpr hg.submitted_le), ?_⟩
  have habsent := hp.absent
  have hne : ∀ {id' t}, s.tasks.find? id' = some t → id ≠ id' := by
    rintro id' t ht rfl
    rw [habsent] at ht
    cases ht
  -- A step changes the entry of one live task, or adds one under a new number.
  cases hg with
  | aside ledger tasks submitted => rwa [tasks]
  | added t unit interrupts =>
    have hnew : id ≠ s.submitted + 1 := by
      rintro rfl
      omega
    simpa [addTask, hnew] using habsent
  | outside => exact habsent
  | moved task serves => simpa [hne task] using habsent
  | gone task serves => simpa [hne task] using habsent

theorem Past.run (hp : s.Past id) (actions : List Action) : (s.run actions).Past id :=
  run_induction (P := fun _ s' => s'.Past id) hp (fun as a h => h.goes ((s.run as).step_goes a))
    actions

/-- A task keeps the interrupts with which it has been submitted. -/
theorem Goes.interrupts {turn : Option TaskId} {t' : Task} (hg : s.Goes turn s') (hs : s.Lawful)
    (ht : s.tasks.find? id = some t) (ht' : s'.tasks.find? id = some t') :
    t'.interrupts = t.interrupts := by
  have hsame : s'.tasks.find? id = s.tasks.find? id → t'.interrupts = t.interrupts := by
    intro heq
    rw [heq, ht] at ht'
    cases ht'
    rfl
  cases hg with
  | aside ledger tasks submitted => exact hsame (by rw [tasks])
  | added t₁ unit interrupts =>
    have hnew : id ≠ s.submitted + 1 := by
      rintro rfl
      have := hs.numbered _ (by rw [ht]; rfl)
      omega
    exact hsame (by simp [addTask, hnew])
  | outside => exact hsame rfl
  | @moved id' t₁ l' unit process task serves =>
    by_cases hne : id = id'
    · subst hne
      rw [ht] at task
      cases task
      simp only [Table.find?_insert, if_pos] at ht'
      cases ht'
      rfl
    · exact hsame (by simp [hne])
  | @gone id' t₁ l' unit task serves =>
    by_cases hne : id = id'
    · subst hne
      simp at ht'
    · exact hsame (by simp [hne])

theorem Lawful.interrupts_run (hs : s.Lawful) (ht : s.tasks.find? id = some t)
    (actions : List Action) :
    (s.run actions).Past id ∨
      ∃ t', (s.run actions).tasks.find? id = some t' ∧ t'.interrupts = t.interrupts := by
  refine run_induction (s := s)
    (P := fun _ s' => s'.Past id ∨
      ∃ t', s'.tasks.find? id = some t' ∧ t'.interrupts = t.interrupts)
    (Or.inr ⟨t, ht, rfl⟩) (fun as a h => ?_) actions
  have hg := (s.run as).step_goes a
  rcases h with hpast | ⟨t₁, ht₁, hsame⟩
  · exact Or.inl (hpast.goes hg)
  · cases hgone : ((s.run as).step a).tasks.find? id with
    | none =>
      have hle := (hs.run as).numbered id (by rw [ht₁]; rfl)
      exact Or.inl ⟨Int.le_trans hle (Int.ofNat_le.mpr hg.submitted_le), hgone⟩
    | some t₂ => exact Or.inr ⟨t₂, rfl, (hg.interrupts (hs.run as) ht₁ hgone).trans hsame⟩

theorem Follows.isSome (hf : s.Follows K post id h) : (s.tasks.find? id).isSome := by
  obtain ⟨t, view, ht, -⟩ := hf
  simp [ht]

theorem Stopped.past (hst : s.Stopped s' id) (hs : s.Lawful) (hid : (s.tasks.find? id).isSome)
    (hle : s.submitted ≤ s'.submitted) : s'.Past id :=
  ⟨Int.le_trans (hs.numbered id hid) (Int.ofNat_le.mpr hle), hst.absent⟩

namespace Came

/-- A step that leaves the task alone. -/
theorem others (hs : s.Lawful) (hc : s.Chronicle id actions h)
    (hf : (s.run actions).Follows K post id h) (hfreed : s.Freed id actions)
    (hturn : a.turn? ≠ some id) : s.Came K post id (actions ++ [a]) := by
  have hlawful := hs.run actions
  have hgoes := (s.run actions).step_goes a
  have hleaves := hgoes.leaves hlawful hf.isSome hturn
  refine .following (hc.quiet fun hcommits => hturn hcommits.1) ?_
    (hfreed.concat hs fun t u ht hu => Or.inr ⟨t, hleaves.task.trans ht, hu⟩)
  rw [run_concat]
  exact hf.leaves hleaves (hgoes.ledger_cases hlawful).2.1

/-- A step that does nothing. -/
theorem still (hs : s.Lawful) (hc : s.Chronicle id actions h)
    (hf : (s.run actions).Follows K post id h) (hfreed : s.Freed id actions)
    (hstep : (s.run actions).step a = s.run actions) : s.Came K post id (actions ++ [a]) := by
  refine .following (hc.quiet fun hcommits => ?_) ?_
    (hfreed.concat hs fun t u ht hu => Or.inr ⟨t, by rw [hstep]; exact ht, hu⟩)
  · rw [hstep] at hcommits
    exact not_commits_self _ hcommits.2
  · rwa [run_concat, hstep]

/-- A step in which the task ends. -/
theorem stopped (hs : s.Lawful) (hid : ((s.run actions).tasks.find? id).isSome)
    (hfreed : s.Freed id actions)
    (hstopped : (s.run actions).Stopped ((s.run actions).step a) id) :
    s.Came K post id (actions ++ [a]) := by
  refine .past ?_ (hfreed.concat hs fun t u ht hu => Or.inl (hstopped.released t u ht hu))
  rw [run_concat]
  exact hstopped.past (hs.run actions) hid ((s.run actions).step_goes a).submitted_le

/-- A turn in which the task takes a step. -/
theorem advance (hs : s.Lawful) (hr : K.relies (s.run actions).ledger)
    (hc : s.Chronicle id actions h) (hf : (s.run actions).Follows K post id h)
    (hfreed : s.Freed id actions) : s.Came K post id (actions ++ [.advance id]) := by
  rcases hf.advance (hs.run actions) hr with ⟨a, -, -, hstopped⟩ | ⟨-, h', hpasses, hf', hreleases⟩
  · exact .stopped hs hf.isSome hfreed hstopped
  · refine .following (hc.passes hpasses) (by rw [run_concat]; exact hf')
      (hfreed.concat hs fun t u ht hu => ?_)
    obtain ⟨t', ht'⟩ := Option.isSome_iff_exists.mp hf'.isSome
    exact (hreleases t t' ht ht' u hu).elim (fun hu' => Or.inr ⟨t', ht', hu'⟩) Or.inl

/-- A step after the task has ended: its number is not given out again. -/
theorem after (hs : s.Lawful) (hpast : (s.run actions).Past id) (hfreed : s.Freed id actions) :
    s.Came K post id (actions ++ [a]) := by
  refine .past ?_ (hfreed.concat hs fun t u ht hu => ?_)
  · rw [run_concat]
    exact hpast.goes ((s.run actions).step_goes a)
  · rw [hpast.absent] at ht
    cases ht

end Came

/-- A task that keeps rules on whose grounds it may rely goes on keeping them until it ends. -/
theorem Follows.came (hs : s.Lawful) (hf : s.Follows K post id History.empty)
    (hrelies : ∀ pre rest, actions = pre ++ rest → K.relies (s.run pre).ledger) :
    s.Came K post id actions := by
  -- Induction on the run from its end, so that every prefix may be relied on.
  refine run_induction (s := s)
    (P := fun as _ => (∀ pre rest, as = pre ++ rest → K.relies (s.run pre).ledger) →
      s.Came K post id as) (fun _ => ?_) (fun as a ih hrelies => ?_) actions hrelies
  · refine .following (.start s id) hf fun u hu => ?_
    obtain ⟨pre, rest, t, heq, ht, hu⟩ := hu
    have hpre : pre = [] := (List.append_eq_nil_iff.mp heq.symm).1
    subst hpre
    exact Or.inr ⟨t, ht, hu⟩
  · have hcame := ih fun pre rest heq => hrelies pre (rest ++ [a]) (by rw [heq]; simp)
    have hr := hrelies as [a] rfl
    cases hcame with
    | past past freed => exact .after hs past freed
    | following hc hf hfreed =>
      -- A step that is not a turn of the task leaves it alone.
      by_cases hturn : a.turn? = some id
      · cases a <;> simp only [Action.turn?, reduceCtorEq, Option.some.injEq] at hturn
        case advance => subst hturn; exact .advance hs hr hc hf hfreed
        case interrupt =>
          subst hturn
          rcases hf.interrupt (hs.run as) with ⟨hstep, -⟩ | ⟨-, hstopped, -⟩
          · exact .still hs hc hf hfreed hstep
          · exact .stopped hs hf.isSome hfreed hstopped
        case abort =>
          subst hturn
          rcases hf.abort (hs.run as) with hstep | ⟨-, hstopped⟩
          · exact .still hs hc hf hfreed hstep
          · exact .stopped hs hf.isSome hfreed hstopped
      · exact .others hs hc hf hfreed hturn

/-! ## The end of a task -/

/-- How the task ends in a step, if it does and is not dropped. -/
def ended? (s : Service) (id : TaskId) : Action → Option (Settled Answer)
  | .advance id' => if id' = id then (s.advance id).2.2 else none
  | .interrupt id' => if id' = id then (s.interrupt id).2.2 else none
  | _ => none

/-- A task that ends in a step was there before it and is not there afterwards. -/
theorem gone_of_ended {how : Settled Answer} (h : s.ended? id a = some how) :
    (s.tasks.find? id).isSome ∧ (s.step a).tasks.find? id = none := by
  cases a <;> simp only [ended?, reduceCtorEq] at h
  case advance id' =>
    split at h
    · rename_i heq
      subst heq
      simp only [step]
      unfold advance at h ⊢
      split at h
      · cases h
      · rename_i t ht
        simp only [ht]
        unfold settle at h ⊢
        split at h
        · simp
        · cases h
    · cases h
  case interrupt id' =>
    split at h
    · rename_i heq
      subst heq
      simp only [step]
      unfold interrupt at h ⊢
      split at h
      · cases h
      · rename_i t ht
        simp only [ht]
        split at h
        · cases h
        · split at h
          · rename_i hinterruptible
            simp [hinterruptible]
          · cases h
    · cases h

/-- A task without interrupts is not cut short. -/
theorem not_interrupted (ht : s.tasks.find? id = some t) (hnone : t.interrupts = []) :
    s.ended? id (.interrupt id) = none := by
  simp [ended?, interrupt, ht, hnone]

/-- How a task that keeps rules ends: with an answer for which the rules vouch, or cut short or
dropped before it has published anything. -/
inductive Ends (s : Service) (post : History → Answer → Prop) (id : TaskId) (h : History) :
    Action → Option (Settled Answer) → Prop
  | answered {a : Answer} (answers : post h a) : Ends s post id h (.advance id) (some (.answered a))
  | interrupted {i : Interrupt} (proper : i.Proper) (unpublished : h.published = none) :
      Ends s post id h (.interrupt id) (some (.answered (.receipt (.error i.error))))
  | dropped (unpublished : h.published = none) : Ends s post id h (.abort id) none

/-- A task that is there before a step and not after it has ended in one of these ways. -/
theorem Follows.ends (hf : s.Follows K post id h) (hs : s.Lawful) (hr : K.relies s.ledger)
    (hgone : (s.step a).tasks.find? id = none) :
    s.Ends post id h a (s.ended? id a) ∧ s.Stopped (s.step a) id := by
  have hturn : a.turn? = some id := by
    refine Classical.byContradiction fun hne => ?_
    have := ((s.step_goes a).leaves hs hf.isSome hne).task
    rw [hgone] at this
    have hsome := hf.isSome
    simp [← this] at hsome
  -- A step that changes nothing does not end the task either.
  have hstays : s.step a ≠ s := by
    intro heq
    have hsome := hf.isSome
    rw [heq] at hgone
    simp [hgone] at hsome
  cases a <;> simp only [Action.turn?, reduceCtorEq, Option.some.injEq] at hturn
  case advance id' =>
    subst hturn
    rcases hf.advance hs hr with ⟨a, hanswer, hpost, hstopped⟩ | ⟨-, h', -, hf', -⟩
    · rw [ended?, if_pos rfl, hanswer]
      exact ⟨.answered hpost, hstopped⟩
    · have hsome := hf'.isSome
      have hgone : (s.advance id').1.tasks.find? id' = none := hgone
      simp [hgone] at hsome
  case interrupt =>
    subst hturn
    rcases hf.interrupt hs with ⟨heq, -⟩ | ⟨hnone, hstopped, i, hproper, hanswer⟩
    · exact absurd heq hstays
    · rw [ended?, if_pos rfl, hanswer]
      exact ⟨.interrupted hproper hnone, hstopped⟩
  case abort =>
    subst hturn
    rcases hf.abort hs with heq | ⟨hnone, hstopped⟩
    · exact absurd heq hstays
    · exact ⟨.dropped hnone, hstopped⟩

/-- An operation whose process keeps rules has gone on keeping them, unless it has ended. -/
theorem Lawful.came {op : Operation} {t : Service × TaskId} (hs : s.Lawful) (ht : s.submit op = t)
    (hkeeps : (op.process s.settings.policy).Keeps K post History.empty none)
    (hrelies : ∀ pre rest, actions = pre ++ rest → K.relies (t.1.run pre).ledger) :
    t.1.Came K post t.2 actions := by
  have hlawful := hs.of_submit ht
  subst ht
  exact (Follows.submit hkeeps).came hlawful hrelies

/-- A step in which a task ends commits nothing. -/
theorem Stopped.not_commits (hst : s.Stopped s' id) : ¬ s.Commits s' := by
  rintro (hne | hne)
  · exact hne hst.books
  · exact hne hst.commits

/-- The history of a task goes on for the step in which it ends. -/
theorem Chronicle.stopped (hc : s.Chronicle id actions h)
    (hst : (s.run actions).Stopped ((s.run actions).step a) id) :
    s.Chronicle id (actions ++ [a]) h :=
  hc.quiet fun hcommits => hst.not_commits hcommits.2

/-- An operation whose process keeps rules ends as they say. -/
theorem Lawful.ends {op : Operation} {t : Service × TaskId} {last : Action} (hs : s.Lawful)
    (ht : s.submit op = t)
    (hkeeps : (op.process s.settings.policy).Keeps K post History.empty none)
    (hrelies : ∀ pre rest, actions = pre ++ rest → K.relies (t.1.run pre).ledger)
    (hlive : ((t.1.run actions).tasks.find? t.2).isSome)
    (hgone : ((t.1.run actions).step last).tasks.find? t.2 = none) :
    ∃ h, t.1.Chronicle t.2 actions h ∧
      (t.1.run actions).Ends post t.2 h last ((t.1.run actions).ended? t.2 last) ∧
      (t.1.run actions).Stopped ((t.1.run actions).step last) t.2 := by
  obtain ⟨h, hc, hf⟩ := (hs.came ht hkeeps hrelies).live hlive
  have hlawful := (hs.of_submit ht).run actions
  exact ⟨h, hc, hf.ends hlawful (hrelies actions [] (by simp)) hgone⟩

/-- An operation that nothing cuts short ends with an answer for which its rules vouch, or it is
dropped before it has published anything. -/
theorem Lawful.ends_uncut {op : Operation} {t : Service × TaskId} {last : Action} (hs : s.Lawful)
    (ht : s.submit op = t)
    (hkeeps : (op.process s.settings.policy).Keeps K post History.empty none)
    (hnone : op.interrupts s.settings.timeout s.now = [])
    (hrelies : ∀ pre rest, actions = pre ++ rest → K.relies (t.1.run pre).ledger)
    (hlive : ((t.1.run actions).tasks.find? t.2).isSome)
    (hgone : ((t.1.run actions).step last).tasks.find? t.2 = none) :
    ∃ h, t.1.Chronicle t.2 actions h ∧ t.1.Chronicle t.2 (actions ++ [last]) h ∧
      ((∃ a, last = .advance t.2 ∧ (t.1.run actions).ended? t.2 last = some (.answered a) ∧
          post h a) ∨
        (last = .abort t.2 ∧ (t.1.run actions).ended? t.2 last = none ∧ h.published = none)) := by
  obtain ⟨h, hc, hends, hstopped⟩ := hs.ends ht hkeeps hrelies hlive hgone
  refine ⟨h, hc, hc.stopped hstopped, ?_⟩
  generalize hhow : (t.1.run actions).ended? t.2 last = how at hends
  cases hends with
  | answered answers => exact Or.inl ⟨_, rfl, rfl, answers⟩
  | dropped unpublished => exact Or.inr ⟨rfl, rfl, unpublished⟩
  | interrupted proper unpublished =>
    have hfound := find?_submit s op
    rw [ht] at hfound
    rcases (hs.of_submit ht).interrupts_run hfound actions with hpast | ⟨t', ht', hsame⟩
    · rw [hpast.absent] at hlive
      cases hlive
    · rw [not_interrupted ht' (hsame.trans hnone)] at hhow
      cases hhow

/-- An operation that nothing cuts short ends with an answer for which its rules vouch. -/
theorem answered_of_ended {op : Operation} {t : Service × TaskId} {last : Action}
    {how : Settled Answer} (hs : s.Lawful) (ht : s.submit op = t)
    (hkeeps : (op.process s.settings.policy).Keeps K post History.empty none)
    (hnone : op.interrupts s.settings.timeout s.now = [])
    (hrelies : ∀ pre rest, actions = pre ++ rest → K.relies (t.1.run pre).ledger)
    (hended : (t.1.run actions).ended? t.2 last = some how) :
    ∃ h a, how = .answered a ∧ post h a ∧ t.1.Chronicle t.2 actions h := by
  obtain ⟨hlive, hgone⟩ := gone_of_ended hended
  obtain ⟨h, hc, -, ⟨a, -, ha, hpost⟩ | ⟨-, hdropped, -⟩⟩ :=
    hs.ends_uncut ht hkeeps hnone hrelies hlive hgone
  · rw [hended, Option.some.injEq] at ha
    exact ⟨h, a, ha, hpost, hc⟩
  · rw [hended] at hdropped
    cases hdropped

end FundsLedger.Service
