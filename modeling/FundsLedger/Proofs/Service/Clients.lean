import FundsLedger.Proofs.Inquiries
import FundsLedger.Proofs.Service.Polls

/-!
Services of which clients only ask what the ledger offers. Then every unit of work belongs to a
task, so rules that all operations on offer keep are kept by everybody: each step of the service is
a move that the rules allow, and nobody but a task ever has a unit of work open.
-/

namespace FundsLedger

open Ledger

/-- The operation is on offer: it is not a script of single calls. -/
def Operation.IsOffered : Operation → Prop
  | script .. => False
  | _ => True

instance (op : Operation) : Decidable op.IsOffered := by
  unfold Operation.IsOffered
  split <;> infer_instance

/-- The step is one of clients, of the clock or of the hand that injects faults. -/
def Service.Action.IsClient : Action → Prop
  | submit op => op.IsOffered
  | ledger (.failAt _) | ledger (.injectConflicts _) | ledger (.setClock _) => True
  | ledger _ => False
  | configure _ | advance _ | interrupt _ | abort _ | pass _ => True

instance (a : Service.Action) : Decidable a.IsClient := by
  unfold Service.Action.IsClient
  split <;> infer_instance

/-- The rules are kept by all operations on offer. -/
def Rules.Bind (K : Rules) : Prop :=
  ∀ (op : Operation) (policy : RetryPolicy), op.IsOffered →
    (op.process policy).Keeps K (fun _ _ => True) History.empty none

/-- Rules that allow reading are kept by an operation on offer, if openings, transfers and
reconciliations keep them. -/
theorem Operation.process_keeps {K : Rules} {op : Operation} (hoffered : op.IsOffered)
    (policy : RetryPolicy) (hread : K.AllowReading)
    (hopening : ∀ owner currency deposit, op = .openAccount owner currency deposit →
      (Accounts.openAccount owner currency deposit).Keeps K (fun _ _ => True) History.empty none)
    (htransfer : ∀ request limit, op = .transfer request limit →
      (request.execute policy).Keeps K (fun _ _ => True) History.empty none)
    (hreconcile : ∀ id, op = .reconcile id →
      (Inquiries.reconcile policy id).Keeps K (fun _ _ => True) History.empty none) :
    (op.process policy).Keeps K (fun _ _ => True) History.empty none := by
  cases op with
  | openAccount owner currency deposit => exact .map (hopening owner currency deposit rfl)
  | getAccount id => exact .map (Accounts.getAccount_keeps hread id)
  | listAccounts owner pageId pageSize =>
    exact .map (Accounts.listAccounts_keeps hread owner pageId pageSize)
  | transfer request limit => exact .map (htransfer request limit rfl)
  | getTransfer id => exact .map (Inquiries.getTransfer_keeps hread id)
  | listTransfers fromId toId pageId pageSize =>
    exact .map (Inquiries.listTransfers_keeps hread fromId toId pageId pageSize)
  | listEntries accountId pageId pageSize =>
    exact .map (Inquiries.listEntries_keeps hread accountId pageId pageSize)
  | reconcile id => exact .map (hreconcile id rfl)
  | script kind script => exact hoffered.elim

/-- A move that a task with these rules may make. -/
def Rules.Allows (K : Rules) (l : Ledger) : Move → Prop
  | .performed u c => ∃ v p, K.Finds v l u p ∧ K.calls v c
  | .published u => ∃ v, K.Finds v l u none ∧ K.commits v
  | .withdrawn _ => False
  | .rest | .opened _ | .queued .. | .closed _ => True

variable {K : Rules} {l l' : Ledger}

/-- A call that the rules allow is a move that they allow. -/
theorem Ledger.Called.allows {u : UnitId} {c : Call} {o : Outcome c} {v : View} {q : Option Call}
    (h : l.Called u c l' o) (hf : K.Finds v l u q) (hcalls : K.calls v c) :
    ∃ m, l.Makes m l' ∧ K.Allows l m := by
  cases h with
  | refused isOpen idle refusal => exact ⟨.rest, .refl l, trivial⟩
  | performed isOpen ready granted =>
    exact ⟨.performed u c, .performed isOpen ready granted, v, q, hf, hcalls⟩
  | queued isOpen idle row known taken =>
    exact ⟨.queued u c, .queued isOpen idle row known taken, trivial⟩
  | waiting isOpen pending row taken => exact ⟨.rest, .refl l, trivial⟩

/-- A process that keeps the rules makes a move that they allow. -/
theorem Process.Keeps.allows {α : Type} {p : Process α} {post : History → α → Prop} {h : History}
    {view : Option View} {unit : Option UnitId} (hk : p.Keeps K post h view) (hl : l.Lawful)
    (hr : K.relies l) (ha : View.Attached l unit view p) :
    ∃ m, l.Makes m (p.advance l unit).ledger ∧ K.Allows l m := by
  -- Whatever asks nothing of the ledger leaves it as it is.
  have stay : ∃ m, l.Makes m l ∧ K.Allows l m := ⟨.rest, .refl l, trivial⟩
  cases p with
  | done a => exact stay
  | note event rest => exact stay
  | sleep longest rest => exact stay
  | panic message => exact hk.elim
  | ask request next =>
    cases request with
    | begin => exact ⟨.opened (l.begins + 1), .opened, trivial⟩
    | call c =>
      obtain ⟨-, v, rfl, hcalls, -⟩ := hk
      cases ha with
      | @busy u v q p fits pending =>
        have hresponds := fits.respond_call hl pending
        simp only [Process.advance]
        cases hresponse : l.respond (some u) (.call c) with
        | mk l' unit' reply =>
          rw [hresponse] at hresponds
          cases hresponds with
          | waits row? waits fits' called => exact called.allows ⟨hl, hr, fits⟩ hcalls
          | answered answers fits' called => exact called.allows ⟨hl, hr, fits⟩ hcalls
    | commit =>
      obtain ⟨-, v, rfl, hcommits, -⟩ := hk
      cases ha with
      | @busy u v q p fits pending =>
        have hq : q = none := by simpa [Process.call?] using pending
        subst hq
        -- The move is a publication or, if the commit fails, a closing.
        have hmakes := (commitUnit_committed l u { v.staged with pending := none }).makes
          fits.stands rfl
        rw [commitUnit_pending] at hmakes
        simp only [Process.advance, fits.respond_commit]
        refine ⟨_, hmakes, ?_⟩
        split
        · exact ⟨v, ⟨hl, hr, fits⟩, hcommits⟩
        · trivial
    | rollback =>
      cases ha with
      | idle => cases hk.2.1
      | @busy u v q p fits pending =>
        have hq : q = none := by simpa [Process.call?] using pending
        subst hq
        simp only [Process.advance, fits.respond_rollback]
        exact ⟨.closed u, makes_close fits.stands, trivial⟩

namespace Service

variable {s s' : Service} {turn : Option TaskId} {id : Int} {a : Action} {u : Int}

/-- Every task keeps the rules. -/
def Disciplined (s : Service) (K : Rules) : Prop :=
  ∀ id, (s.tasks.find? id).isSome → ∃ h, s.Follows K (fun _ _ => True) id h

theorem Disciplined.start (settings : Settings) (K : Rules) :
    (Service.start settings).Disciplined K := by
  intro id hid
  simp [Service.start] at hid

/-- A task that is there after a step was there before it, or has just been added. -/
theorem Goes.tasks_cases (hg : s.Goes turn s') (hid : (s'.tasks.find? id).isSome) :
    (s.tasks.find? id).isSome ∨ (turn = none ∧ id = s.submitted + 1) := by
  cases hg with
  | aside ledger tasks submitted =>
    rw [tasks] at hid
    exact Or.inl hid
  | added t unit interrupts =>
    simp only [addTask, Table.find?_insert] at hid
    split at hid
    · rename_i heq
      exact Or.inr ⟨rfl, heq⟩
    · exact Or.inl hid
  | outside => exact Or.inl hid
  | moved task serves =>
    simp only [Table.find?_insert] at hid
    split at hid
    · rename_i heq
      rw [heq, task]
      exact Or.inl rfl
    · exact Or.inl hid
  | gone task serves =>
    simp only [Table.find?_erase] at hid
    split at hid
    · cases hid
    · exact Or.inl hid

/-- What the turn of a task that keeps the rules comes to: nothing, the end of the task, or a
step. -/
theorem Follows.turn_cases {post : History → Answer → Prop} {h : History}
    (hf : s.Follows K post id h) (hs : s.Lawful) (hr : K.relies s.ledger)
    (hturn : a.turn? = some id) :
    s.step a = s ∨ s.Stopped (s.step a) id ∨
      ∃ h', (s.step a).Follows K post id h' ∧
        ∀ t t', s.tasks.find? id = some t → (s.step a).tasks.find? id = some t' →
          Releases t.unit (s.step a).ledger t'.unit := by
  cases a <;> simp only [Action.turn?, reduceCtorEq, Option.some.injEq] at hturn
  case advance =>
    subst hturn
    rcases hf.advance hs hr with ⟨_, -, -, hstopped⟩ | ⟨-, h', -, hf', hreleases⟩
    · exact Or.inr (Or.inl hstopped)
    · exact Or.inr (Or.inr ⟨h', hf', hreleases⟩)
  case interrupt =>
    subst hturn
    rcases hf.interrupt hs with ⟨heq, -⟩ | ⟨-, hstopped, -⟩
    · exact Or.inl heq
    · exact Or.inr (Or.inl hstopped)
  case abort =>
    subst hturn
    rcases hf.abort hs with heq | ⟨-, hstopped⟩
    · exact Or.inl heq
    · exact Or.inr (Or.inl hstopped)

/-- A turn of a task that is not there changes nothing. -/
theorem step_of_absent (hturn : a.turn? = some id) (hid : s.tasks.find? id = none) :
    s.step a = s := by
  cases a <;> simp only [Action.turn?, reduceCtorEq, Option.some.injEq] at hturn
  case advance => subst hturn; simp [step, advance, hid]
  case interrupt => subst hturn; simp [step, interrupt, hid]
  case abort => subst hturn; simp [step, abort, hid]

/-- Every task keeps rules of its own. -/
def Governed (s : Service) (K : TaskId → Rules) : Prop :=
  ∀ id, (s.tasks.find? id).isSome → ∃ h, s.Follows (K id) (fun _ _ => True) id h

/-- Every step leaves each task to its rules, if a new task keeps those that it is given. -/
theorem Governed.step {R R' : TaskId → Rules} (h : s.Governed R) (hs : s.Lawful)
    (hr : ∀ id, (R id).relies s.ledger) (hsame : ∀ id, (s.tasks.find? id).isSome → R' id = R id)
    (hnew : ∀ op, a = .submit op → (op.process s.settings.policy).Keeps (R' (s.submit op).2)
      (fun _ _ => True) History.empty none) : (s.step a).Governed R' := by
  intro id hid
  have hg := s.step_goes a
  rcases hg.tasks_cases hid with hold | ⟨hturn, hadded⟩
  · rw [hsame id hold]
    obtain ⟨history, hf⟩ := h id hold
    by_cases hturn : a.turn? = some id
    · rcases hf.turn_cases hs (hr id) hturn with heq | hstopped | ⟨history', hf', -⟩
      · rw [heq]
        exact ⟨history, hf⟩
      · rw [hstopped.absent] at hid
        cases hid
      · exact ⟨history', hf'⟩
    · exact ⟨history, hf.leaves (hg.leaves hs hold hturn) (hg.ledger_cases hs).2.1⟩
  · have hfresh : ¬ (s.tasks.find? id).isSome := by
      intro hsome
      have := hs.numbered id hsome
      rw [hadded] at this
      omega
    cases a <;> simp only [Action.turn?, reduceCtorEq] at hturn
    case submit op =>
      subst hadded
      exact ⟨_, Follows.submit (hnew op rfl)⟩
    case configure => exact absurd hid hfresh
    case pass => exact absurd hid hfresh
    case ledger action =>
      simp only [Service.step] at hid
      split at hid
      · exact absurd hid hfresh
      · exact absurd hid hfresh

/-- Every step of clients leaves a service disciplined. -/
theorem Disciplined.step (h : s.Disciplined K) (hs : s.Lawful) (hr : K.relies s.ledger)
    (hK : K.Bind) (ha : a.IsClient) : (s.step a).Disciplined K := by
  have hgoverned : s.Governed fun _ => K := h
  refine hgoverned.step hs (fun _ => hr) (fun _ _ => rfl) fun op hop => ?_
  subst hop
  exact hK op s.settings.policy ha

/-- Dropping a unit of work is a move that all rules allow. -/
theorem abandonAny_allows (K : Rules) (l : Ledger) (unit : Option UnitId) :
    ∃ m, l.Makes m (l.abandonAny unit).1 ∧ K.Allows l m := by
  cases unit with
  | none => exact ⟨.rest, .refl l, trivial⟩
  | some u =>
    obtain ⟨m, hm, rfl | rfl⟩ := abandon_makes l u
    · exact ⟨.rest, hm, trivial⟩
    · exact ⟨.closed u, hm, trivial⟩

/-- The turn of a task that keeps the rules is a move that they allow. -/
theorem Follows.allows {post : History → Answer → Prop} {h : History}
    (hf : s.Follows K post id h) (hs : s.Lawful) (hr : K.relies s.ledger) :
    ∃ m, s.ledger.Makes m (s.step (.advance id)).ledger ∧ K.Allows s.ledger m := by
  obtain ⟨t, view, ht, hattached, hk⟩ := hf
  rw [ledger_advance ht]
  exact hk.allows hs.ledger hr hattached

/-- Every other step of clients is a move that all rules allow. -/
theorem step_allows (ha : a.IsClient) (hother : ∀ id, a ≠ .advance id) (K : Rules) :
    ∃ m, s.ledger.Makes m (s.step a).ledger ∧ K.Allows s.ledger m := by
  have stay : ∃ m, s.ledger.Makes m s.ledger ∧ K.Allows s.ledger m :=
    ⟨.rest, .refl s.ledger, trivial⟩
  cases a with
  | configure settings => exact stay
  | submit op => exact stay
  | pass d => exact stay
  | advance id => exact absurd rfl (hother id)
  | interrupt id =>
    simp only [Service.step, Service.interrupt]
    split
    · exact stay
    · split
      · exact stay
      · split
        · exact abandonAny_allows K s.ledger _
        · exact stay
  | abort id =>
    simp only [Service.step, Service.abort]
    split
    · exact stay
    · split
      · exact abandonAny_allows K s.ledger _
      · exact stay
  | ledger action =>
    have hrest : s.ledger.Makes .rest (s.step (.ledger action)).ledger := by
      cases action <;> simp only [Action.IsClient] at ha
      all_goals exact .rest rfl rfl rfl rfl rfl rfl
    exact ⟨.rest, hrest, trivial⟩

/-- Every step of clients is a move that all rules allow, or it is the turn of a task and its rules
allow it. -/
theorem Governed.allows {R : TaskId → Rules} (h : s.Governed R) (hs : s.Lawful)
    (hr : ∀ id, (R id).relies s.ledger) (ha : a.IsClient) :
    (∀ K : Rules, ∃ m, s.ledger.Makes m (s.step a).ledger ∧ K.Allows s.ledger m) ∨
      ∃ id, a = .advance id ∧
        ∃ m, s.ledger.Makes m (s.step a).ledger ∧ (R id).Allows s.ledger m := by
  by_cases hother : ∀ id, a ≠ .advance id
  · exact Or.inl (step_allows ha hother)
  · obtain ⟨id, hid⟩ := Classical.not_forall.mp hother
    obtain rfl := Classical.not_not.mp hid
    cases hlive : s.tasks.find? id with
    | none =>
      rw [step_of_absent rfl hlive]
      exact Or.inl fun _ => ⟨.rest, .refl s.ledger, trivial⟩
    | some t =>
      obtain ⟨history, hf⟩ := h id (by simp [hlive])
      exact Or.inr ⟨id, rfl, hf.allows hs (hr id)⟩

/-- Every step of clients is a move that the rules allow. -/
theorem Disciplined.allows (h : s.Disciplined K) (hs : s.Lawful) (hr : K.relies s.ledger)
    (ha : a.IsClient) : ∃ m, s.ledger.Makes m (s.step a).ledger ∧ K.Allows s.ledger m := by
  have hgoverned : s.Governed fun _ => K := h
  rcases hgoverned.allows hs (fun _ => hr) ha with hall | ⟨-, -, hallows⟩
  · exact hall K
  · exact hallows

/-! ## Units of work and their tasks -/

/-- Every open unit of work is that of a task. -/
def Manned (s : Service) : Prop :=
  ∀ u, (s.ledger.units.find? u).isSome → ∃ id t, s.tasks.find? id = some t ∧ t.unit = some u

theorem Manned.start (settings : Settings) : (Service.start settings).Manned := by
  intro u hu
  simp [Service.start, Ledger.empty] at hu

/-- A unit of work that is open after a turn was open before it, or the task has it now. -/
theorem Goes.opens (hg : s.Goes (some id) s') (hs : s.Lawful)
    (hlive : (s'.tasks.find? id).isSome) (hu : (s'.ledger.units.find? u).isSome) :
    (s.ledger.units.find? u).isSome ∨ ∃ t, s'.tasks.find? id = some t ∧ t.unit = some u := by
  cases hg with
  | aside ledger tasks submitted =>
    rw [ledger] at hu
    exact Or.inl hu
  | @moved id t l' unit process task serves =>
    refine (serves.opens (fun u' hu' => hs.opened id t u' task hu') hu).imp (fun h => h)
      fun hunit => ?_
    exact ⟨{ t with process, unit }, by simp, hunit⟩
  | gone task serves => simp at hlive

/-- The unit of work of a task that has ended is over. -/
theorem Manned.of_stopped (h : s.Manned) (hst : s.Stopped s' id)
    (hothers : ∀ id' t, id' ≠ id → s.tasks.find? id' = some t → s'.tasks.find? id' = some t) :
    s'.Manned := by
  intro u hu
  obtain ⟨id', t, ht, hunit⟩ := h u (hst.opens u hu)
  by_cases hne : id' = id
  · subst hne
    rw [(hst.released t u ht hunit).closed] at hu
    cases hu
  · exact ⟨id', t, hothers id' t hne ht, hunit⟩

/-- Every step of clients leaves all open units of work to tasks. -/
theorem Manned.step (h : s.Manned) (hd : s.Disciplined K) (hs : s.Lawful)
    (hr : K.relies s.ledger) (ha : a.IsClient) : (s.step a).Manned := by
  have hg := s.step_goes a
  have hothers : ∀ id' t, a.turn? ≠ some id' → s.tasks.find? id' = some t →
      (s.step a).tasks.find? id' = some t := fun id' t hne ht =>
    (hg.leaves hs (by simp [ht]) hne).task.trans ht
  cases hturn : a.turn? with
  | none =>
    -- Clients do not open units of work by hand.
    have hunits : (s.step a).ledger.units = s.ledger.units := by
      cases a <;> simp only [Action.turn?, reduceCtorEq] at hturn
      case ledger action =>
        cases action <;> simp only [Action.IsClient] at ha
        all_goals rfl
      all_goals rfl
    intro u hu
    rw [hunits] at hu
    obtain ⟨id, t, ht, hunit⟩ := h u hu
    exact ⟨id, t, hothers id t (by simp [hturn]) ht, hunit⟩
  | some id =>
    rw [hturn] at hg
    have hothers : ∀ id' t, id' ≠ id → s.tasks.find? id' = some t →
        (s.step a).tasks.find? id' = some t := fun id' t hne ht =>
      hothers id' t (by rw [hturn]; exact fun heq => hne (Option.some.inj heq).symm) ht
    cases hid : s.tasks.find? id with
    | none =>
      rw [step_of_absent hturn hid]
      exact h
    | some t =>
      obtain ⟨history, hf⟩ := hd id (by simp [hid])
      rcases hf.turn_cases hs hr hturn with heq | hstopped | ⟨history', hf', hreleases⟩
      · rw [heq]
        exact h
      · exact h.of_stopped hstopped hothers
      · intro u hu
        rcases hg.opens hs hf'.isSome hu with hold | ⟨t', ht', hunit⟩
        · obtain ⟨id', t', ht', hunit⟩ := h u hold
          by_cases hne : id' = id
          · -- The task has kept the unit of work, for it is not over.
            subst hne
            obtain ⟨t₁, ht₁⟩ := Option.isSome_iff_exists.mp hf'.isSome
            rcases hreleases t' t₁ ht' ht₁ u hunit with hkept | hover
            · exact ⟨id', t₁, ht₁, hkept⟩
            · rw [hover.closed] at hu
              cases hu
          · exact ⟨id', t', hothers id' t' hne ht', hunit⟩
        · exact ⟨id, t', ht', hunit⟩

/-! ## Runs of clients -/

/-- Rules that all operations on offer keep are kept in every run of clients, if what they rely on
holds at the start and again after every move that they allow. -/
theorem clients_run {D : Drawn → Prop} (hD : ∀ {d d' : Drawn}, D d' → d.UpTo d' → D d)
    (hK : K.Bind) (hempty : K.relies Ledger.empty)
    (hmakes : ∀ l m l', l.Lawful → K.relies l → l.Makes m l' → K.Allows l m → D l'.drawn →
      K.relies l')
    (settings : Settings) (actions : List Action) (hclient : ∀ a ∈ actions, a.IsClient)
    (hr : D ((Service.start settings).run actions).ledger.drawn) :
    ((Service.start settings).run actions).Disciplined K ∧
      K.relies ((Service.start settings).run actions).ledger ∧
      ((Service.start settings).run actions).Manned := by
  -- All three are carried along together: each of them needs the other two for its next step.
  refine run_induction (s := Service.start settings)
    (P := fun as s => (∀ a ∈ as, a.IsClient) → D s.ledger.drawn →
      s.Disciplined K ∧ K.relies s.ledger ∧ s.Manned)
    (fun _ _ => ⟨.start settings K, hempty, .start settings⟩) (fun as a ih hclient hr => ?_)
    actions hclient hr
  have hs := (Lawful.start settings).run as
  have hup := (((Service.start settings).run as).step_goes a).ledger_cases hs |>.2.1
  obtain ⟨hdisciplined, hrelies, hmanned⟩ :=
    ih (fun b hb => hclient b (List.mem_append_left _ hb)) (hD hr hup)
  have ha := hclient a (by simp)
  obtain ⟨m, hm, hallows⟩ := hdisciplined.allows hs hrelies ha
  exact ⟨hdisciplined.step hs hrelies hK ha, hmakes _ m _ hs.ledger hrelies hm hallows hr,
    hmanned.step hdisciplined hs hrelies ha⟩

end Service
end FundsLedger
