import FundsLedger.Proofs.Ledger.View

/-!
Rules of conduct for a task. What a task does depends on the answers it gets, and those depend on
what everybody else does in between; so a process is judged against every ledger that its view may
fit at each of its requests. A process that keeps the rules makes only calls that they allow,
commits only what they allow, publishes once at most and only answers after that, and has no unit of
work open whenever it sleeps or ends.
-/

namespace FundsLedger

open Ledger

/-- What a task has gone through: the books that it found at the calls it has made and at commits
that have failed, the latest first, and the books before and after its commit. -/
structure History where
  seen : List Books
  published : Option (Books × Books)

namespace History

/-- Nothing has happened. -/
def empty : History := ⟨[], none⟩

/-- The history after a call that found these books. -/
def see (h : History) (b : Books) : History := { h with seen := b :: h.seen }

/-- The history after a commit, which has published or has found the books and left them. -/
def commit (h : History) (before after : Books) : Except StoreError Unit → History
  | .ok () => { h with published := some (before, after) }
  | .error _ => h.see before

end History

/-- Rules for a task: what it may rely on, and which calls and commits are allowed. -/
structure Rules where
  relies : Ledger → Prop
  calls : View → Call → Prop
  commits : View → Prop

/-- A ledger in which the unit of work of a task with this view may stand, in no call or in the call
`p`. -/
structure Rules.Finds (K : Rules) (v : View) (l : Ledger) (u : UnitId) (p : Option Call) :
    Prop where
  lawful : l.Lawful
  relied : K.relies l
  fits : v.Fits l u p

/-- One set of rules is at least as lenient as another: it lets a task rely on more and asks less of
it. -/
structure Rules.Lenient (K K' : Rules) : Prop where
  relies : ∀ l, K'.relies l → K.relies l
  calls : ∀ v c, K.calls v c → K'.calls v c
  commits : ∀ v, K.commits v → K'.commits v

theorem Rules.Lenient.refl (K : Rules) : K.Lenient K :=
  ⟨fun _ h => h, fun _ _ h => h, fun _ h => h⟩

theorem Rules.Lenient.trans {K K' K'' : Rules} (h : K.Lenient K') (h' : K'.Lenient K'') :
    K.Lenient K'' :=
  ⟨fun l hr => h.relies l (h'.relies l hr), fun v c hc => h'.calls v c (h.calls v c hc),
    fun v hv => h'.commits v (h.commits v hv)⟩

theorem Rules.Lenient.finds {K K' : Rules} {v : View} {l : Ledger} {u : UnitId} {p : Option Call}
    (h : K.Lenient K') (hf : K'.Finds v l u p) : K.Finds v l u p :=
  ⟨hf.lawful, h.relies l hf.relied, hf.fits⟩

variable {ε α β : Type} {K K' : Rules} {seen : List Books} {v : View}

/-! ## Work -/

namespace Work

/-- Work keeps the rules, and however it ends, `post` holds of the books that it has found, of its
view and of its result. -/
def Meets (K : Rules) (post : List Books → View → Except ε α → Prop) :
    Work ε α → List Books → View → Prop
  | done result, seen, v => post seen v result
  | call c next, seen, v =>
    K.calls v c ∧ ∀ l u p r v', K.Finds v l u p → v.Answers l c r v' →
      (next r).Meets K post (l.books :: seen) v'
  | note _ rest, seen, v => rest.Meets K post seen v
  | panic _, _, _ => False

/-- Which commits rules allow does not matter while work goes on. -/
theorem Meets.under {w : Work ε α} {post post' : List Books → View → Except ε α → Prop}
    (h : w.Meets K post seen v) (hrelies : ∀ l, K'.relies l → K.relies l)
    (hcalls : ∀ v c, K.calls v c → K'.calls v c)
    (hpost : ∀ seen v r, post seen v r → post' seen v r) : w.Meets K' post' seen v := by
  induction w generalizing seen v with
  | done result => exact hpost _ _ _ h
  | call c next ih =>
    refine ⟨hcalls v c h.1, fun l u p r v' hf ha => ih r (h.2 l u p r v' ?_ ha)⟩
    exact ⟨hf.lawful, hrelies l hf.relied, hf.fits⟩
  | note event rest ih => exact ih h
  | panic message => exact h.elim

theorem Meets.mono {w : Work ε α} {post post' : List Books → View → Except ε α → Prop}
    (h : w.Meets K post seen v) (hK : K.Lenient K')
    (hpost : ∀ seen v r, post seen v r → post' seen v r) : w.Meets K' post' seen v :=
  h.under hK.relies hK.calls hpost

/-- What has to hold at the end of the first part of some work: the rest has to keep the rules,
unless the first part has failed. -/
def Followed (K : Rules) (post : List Books → View → Except ε β → Prop) (f : α → Work ε β)
    (seen : List Books) (v : View) : Except ε α → Prop
  | .ok a => (f a).Meets K post seen v
  | .error e => post seen v (.error e)

variable {post : List Books → View → Except ε β → Prop}

theorem Meets.bind {w : Work ε α} {f : α → Work ε β}
    (h : w.Meets K (Followed K post f) seen v) : (w >>= f).Meets K post seen v := by
  change (w.bind f).Meets K post seen v
  induction w generalizing seen v with
  | done result =>
    cases result with
    | ok a => exact h
    | error e => exact h
  | call c next ih => exact ⟨h.1, fun l u p r v' hf ha => ih r (h.2 l u p r v' hf ha)⟩
  | note event rest ih => exact ih h
  | panic message => exact h.elim

/-- A call that goes on with the answer, and ends the work if it fails. -/
theorem Meets.ask [OfStoreError ε] {c : Call} {f : c.Answer → Work ε β} (hcalls : K.calls v c)
    (h : ∀ l u p r v', K.Finds v l u p → v.Answers l c r v' →
      Followed K post f (l.books :: seen) v' (r.mapError ofStoreError)) :
    (Work.ask c >>= f).Meets K post seen v :=
  .bind ⟨hcalls, h⟩

theorem Meets.require {condition : Prop} [Decidable condition] {e : ε} {f : Unit → Work ε β}
    (hok : condition → (f ()).Meets K post seen v)
    (herror : ¬ condition → post seen v (.error e)) :
    (Work.require condition e >>= f).Meets K post seen v := by
  apply Meets.bind
  unfold Work.require
  split
  · rename_i hcondition
    exact hok hcondition
  · rename_i hcondition
    exact herror hcondition

/-- The work makes only calls of this kind. -/
def Only (P : Call → Prop) : Work ε α → Prop
  | done _ => True
  | call c next => P c ∧ ∀ r, (next r).Only P
  | note _ rest => rest.Only P
  | panic _ => False

variable {P : Call → Prop}

theorem Only.mono {P' : Call → Prop} {w : Work ε α} (h : w.Only P) (hP : ∀ c, P c → P' c) :
    w.Only P' := by
  induction w with
  | done result => trivial
  | call c next ih => exact ⟨hP c h.1, fun r => ih r (h.2 r)⟩
  | note event rest ih => exact ih h
  | panic message => exact h.elim

theorem Only.bind {w : Work ε α} {f : α → Work ε β} (h : w.Only P) (hf : ∀ a, (f a).Only P) :
    (w >>= f).Only P := by
  change (w.bind f).Only P
  induction w with
  | done result =>
    cases result with
    | ok a => exact hf a
    | error e => trivial
  | call c next ih => exact ⟨h.1, fun r => ih r (h.2 r)⟩
  | note event rest ih => exact ih h
  | panic message => exact h.elim

theorem Only.ask [OfStoreError ε] {c : Call} {f : c.Answer → Work ε β} (hc : P c)
    (hf : ∀ a, (f a).Only P) : (Work.ask c >>= f).Only P :=
  .bind ⟨hc, fun _ => trivial⟩ hf

theorem Only.require {condition : Prop} [Decidable condition] {e : ε} {f : Unit → Work ε β}
    (hf : (f ()).Only P) : (Work.require condition e >>= f).Only P := by
  refine .bind ?_ fun _ => hf
  unfold Work.require
  split <;> trivial

/-- Work keeps the rules if they allow its calls in every view that such calls lead to. -/
theorem Only.meets {I : View → Prop} {w : Work ε α} (h : w.Only P) (hv : I v)
    (hcalls : ∀ v c, I v → P c → K.calls v c)
    (hanswers : ∀ v l c r v', I v → P c → v.Answers l c r v' → I v') :
    w.Meets K (fun _ v' _ => I v') seen v := by
  induction w generalizing seen v with
  | done result => exact hv
  | call c next ih =>
    exact ⟨hcalls v c hv h.1, fun l u p r v' _ ha => ih r (h.2 r) (hanswers v l c r v' hv h.1 ha)⟩
  | note event rest ih => exact ih h hv
  | panic message => exact h.elim

end Work

/-! ## Processes -/

namespace Process

/-- The process keeps the rules, and `post` holds of its history and its answer. -/
def Keeps (K : Rules) (post : History → α → Prop) : Process α → History → Option View → Prop
  | done a, h, view => view = none ∧ post h a
  | ask .begin next, h, view =>
    h.published = none ∧ view = none ∧ (next (.ok ())).Keeps K post h (some View.fresh)
  | ask (.call c) next, h, view =>
    h.published = none ∧ ∃ v, view = some v ∧ K.calls v c ∧
      ∀ l u p r v', K.Finds v l u p → v.Answers l c r v' →
        (next r).Keeps K post (h.see l.books) (some v')
  | ask .commit next, h, view =>
    h.published = none ∧ ∃ v, view = some v ∧ K.commits v ∧
      ∀ l u, K.Finds v l u none →
        (next (l.commitUnit u v.staged).2).Keeps K post
          (h.commit l.books (v.staged.publish l.books) (l.commitUnit u v.staged).2) none
  | ask .rollback next, h, view =>
    h.published = none ∧ view.isSome ∧ (next (.ok ())).Keeps K post h none
  | note _ rest, h, view => rest.Keeps K post h view
  | sleep _ rest, h, view => h.published = none ∧ view = none ∧ rest.Keeps K post h view
  | panic _, _, _ => False

variable {h : History} {view : Option View}

theorem Keeps.mono {p : Process α} {post post' : History → α → Prop} (hp : p.Keeps K post h view)
    (hK : K.Lenient K') (hpost : ∀ h a, post h a → post' h a) : p.Keeps K' post' h view := by
  induction p generalizing h view with
  | done a => exact ⟨hp.1, hpost h a hp.2⟩
  | ask request next ih =>
    cases request with
    | begin => exact ⟨hp.1, hp.2.1, ih _ hp.2.2⟩
    | call c =>
      obtain ⟨hnone, v, hview, hcalls, hnext⟩ := hp
      exact ⟨hnone, v, hview, hK.calls v c hcalls,
        fun l u p r v' hf ha => ih r (hnext l u p r v' (hK.finds hf) ha)⟩
    | commit =>
      obtain ⟨hnone, v, hview, hcommits, hnext⟩ := hp
      exact ⟨hnone, v, hview, hK.commits v hcommits, fun l u hf => ih _ (hnext l u (hK.finds hf))⟩
    | rollback => exact ⟨hp.1, hp.2.1, ih _ hp.2.2⟩
  | note event rest ih => exact ih hp
  | sleep longest rest ih => exact ⟨hp.1, hp.2.1, ih hp.2.2⟩
  | panic message => exact hp.elim

theorem Keeps.bind {p : Process α} {f : α → Process β} {post : History → β → Prop}
    (hp : p.Keeps K (fun h a => (f a).Keeps K post h none) h view) :
    (p.bind f).Keeps K post h view := by
  induction p generalizing h view with
  | done a =>
    obtain ⟨rfl, hrest⟩ := hp
    exact hrest
  | ask request next ih =>
    cases request with
    | begin => exact ⟨hp.1, hp.2.1, ih _ hp.2.2⟩
    | call c =>
      obtain ⟨hnone, v, hview, hcalls, hnext⟩ := hp
      exact ⟨hnone, v, hview, hcalls, fun l u p r v' hf ha => ih r (hnext l u p r v' hf ha)⟩
    | commit =>
      obtain ⟨hnone, v, hview, hcommits, hnext⟩ := hp
      exact ⟨hnone, v, hview, hcommits, fun l u hf => ih _ (hnext l u hf)⟩
    | rollback => exact ⟨hp.1, hp.2.1, ih _ hp.2.2⟩
  | note event rest ih => exact ih hp
  | sleep longest rest ih => exact ⟨hp.1, hp.2.1, ih hp.2.2⟩
  | panic message => exact hp.elim

theorem Keeps.map {p : Process α} {f : α → β} {post : History → β → Prop}
    (hp : p.Keeps K (fun h a => post h (f a)) h view) : (p.map f).Keeps K post h view :=
  .bind (hp.mono (.refl K) fun _ _ ha => ⟨rfl, ha⟩)

end Process

/-! ## Work in a unit of its own -/

namespace Work

variable [OfStoreError ε] {post : History → Except ε α → Prop}

/-- What has to hold when work ends, for the process that then ends its unit of work: success is
committed, and `post` holds whether the commit succeeds or fails. -/
def Ends (K : Rules) (post : History → Except ε α → Prop) (seen : List Books) (v : View) :
    Except ε α → Prop
  | .ok a =>
    K.commits v ∧ ∀ l u, K.Finds v l u none →
      match (l.commitUnit u v.staged).2 with
      | .ok () => post ⟨seen, some (l.books, v.staged.publish l.books)⟩ (.ok a)
      | .error e => post ⟨l.books :: seen, none⟩ (.error (ofStoreError e))
  | .error e => post ⟨seen, none⟩ (.error e)

theorem Meets.finishing {w : Work ε α} (h : w.Meets K (Ends K post) seen v) :
    w.finishing.Keeps K post ⟨seen, none⟩ (some v) := by
  induction w generalizing seen v with
  | done result =>
    cases result with
    | ok a =>
      refine ⟨rfl, v, rfl, h.1, fun l u hf => ?_⟩
      have hend := h.2 l u hf
      cases hr : (l.commitUnit u v.staged).2 with
      | ok => rw [hr] at hend; exact ⟨rfl, hend⟩
      | error e => rw [hr] at hend; exact ⟨rfl, hend⟩
    | error e => exact ⟨rfl, rfl, rfl, h⟩
  | call c next ih =>
    exact ⟨rfl, v, rfl, h.1, fun l u p r v' hf ha => ih r (h.2 l u p r v' hf ha)⟩
  | note event rest ih => exact ih h
  | panic message => exact h.elim

theorem Meets.atomically {w : Work ε α} (h : w.Meets K (Ends K post) seen View.fresh) :
    w.atomically.Keeps K post ⟨seen, none⟩ none :=
  ⟨rfl, rfl, h.finishing⟩

end Work
end FundsLedger
