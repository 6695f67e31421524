import FundsLedger.Proofs.Service.Clients
import FundsLedger.Proofs.Transfer.ExactlyOnce

/-!
Payments are the transfers that succeed in a run. Each of them is posted in one step of the run, and
in no other. So if a run writes nothing but payments, then it has carried them out one after the
other, however its tasks have taken turns: in the order of their commits.
-/

namespace FundsLedger

open Ledger

/-- The second books come from the first ones by these transfers, of which the latest is named
first. -/
inductive Books.Carries (b : Books) : List TransferRequest → Books → Prop
  | nothing : b.Carries [] b
  | posted {requests : List TransferRequest} {r : TransferRequest} {receipt : Receipt}
      {before after : Books} (carries : b.Carries requests before)
      (posts : r.Posted receipt before after) : b.Carries (r :: requests) after

/-- The end of a transfer that succeeds. -/
def Settled.isPaid : Settled Answer → Bool
  | .answered (.receipt (.ok _)) => true
  | _ => false

theorem Settled.isPaid_iff {how : Settled Answer} :
    how.isPaid = true ↔ ∃ receipt, how = .answered (.receipt (.ok receipt)) := by
  unfold isPaid
  split <;> simp_all

namespace Service

/-- The task ends in the run, with success of the transfer that it has executed. -/
def succeeds (s : Service) (id : TaskId) : List Action → Bool
  | [] => false
  | a :: rest => (s.ended? id a).any (·.isPaid) || (s.step a).succeeds id rest

/-- The transfer that a step submits, if it submits one. -/
def Action.request? : Action → Option TransferRequest
  | .submit (.transfer r _) => some r
  | _ => none

/-- The transfers that are submitted in the run and succeed in it, with their tasks. -/
def payments (s : Service) : List Action → List (TaskId × TransferRequest)
  | [] => []
  | a :: rest =>
    let id : TaskId := s.submitted + 1
    ((a.request?.filter fun _ => (s.step a).succeeds id rest).map (id, ·)).toList ++
      (s.step a).payments rest

/-- The requests that succeed in the run. -/
def paidRequests (s : Service) (actions : List Action) : Multiset TransferRequest :=
  (s.payments actions).map Prod.snd

/-- Whose turns the steps are that change the books. -/
def writers (s : Service) : List Action → List (Option TaskId)
  | [] => []
  | a :: rest =>
    (if (s.step a).ledger.books = s.ledger.books then [] else [a.turn?]) ++
      (s.step a).writers rest

/-- Nothing but payments is written in the run. -/
def OnlyPays (s : Service) (actions : List Action) : Prop :=
  ∀ turn ∈ s.writers actions, ∃ p ∈ s.payments actions, turn = some p.1

instance (s : Service) (actions : List Action) : Decidable (s.OnlyPays actions) :=
  inferInstanceAs
    (Decidable (∀ turn ∈ s.writers actions, ∃ p ∈ s.payments actions, turn = some p.1))

variable {s : Service} {id : TaskId} {a : Action} {actions : List Action}
variable {p p' : TaskId × TransferRequest}

/-! ## The place of a payment in a run -/

theorem Reachable.run (hs : s.Reachable) (actions : List Action) : (s.run actions).Reachable := by
  obtain ⟨settings, before, rfl⟩ := hs
  exact ⟨settings, before ++ actions, (run_append _ _ _).symm⟩

theorem submitted_le_run (s : Service) (actions : List Action) :
    s.submitted ≤ (s.run actions).submitted :=
  run_induction (P := fun _ s' => s.submitted ≤ s'.submitted) (Nat.le_refl _)
    (fun as a h => Nat.le_trans h ((s.run as).step_goes a).submitted_le) actions

theorem mem_writers {pre post : List Action}
    (h : ((s.run pre).step a).ledger.books ≠ (s.run pre).ledger.books) :
    a.turn? ∈ s.writers (pre ++ a :: post) := by
  induction pre generalizing s with
  | nil =>
    have h : (s.step a).ledger.books ≠ s.ledger.books := h
    rw [List.nil_append, writers, if_neg h]
    exact List.mem_append_left _ (List.mem_singleton_self _)
  | cons first pre ih => exact List.mem_append_right _ (ih h)

/-- A task that succeeds does so in a step of the run. -/
theorem ended_of_succeeds (h : s.succeeds id actions = true) :
    ∃ pre last post receipt, actions = pre ++ last :: post ∧
      (s.run pre).ended? id last = some (.answered (.receipt (.ok receipt))) := by
  induction actions generalizing s with
  | nil => cases h
  | cons a rest ih =>
    rw [succeeds, Bool.or_eq_true] at h
    rcases h with h | h
    · cases hended : s.ended? id a with
      | none =>
        rw [hended] at h
        cases h
      | some how =>
        rw [hended] at h
        obtain ⟨receipt, rfl⟩ := Settled.isPaid_iff.mp h
        exact ⟨[], a, rest, receipt, rfl, hended⟩
    · obtain ⟨pre, last, post, receipt, rfl, hended⟩ := ih h
      exact ⟨a :: pre, last, post, receipt, rfl, hended⟩

theorem submit_of_request? {r : TransferRequest} (h : a.request? = some r) :
    ∃ limit, a = .submit (.transfer r limit) := by
  unfold Action.request? at h
  split at h
  · rename_i limit
    cases h
    exact ⟨limit, rfl⟩
  · cases h

/-- A payment is submitted in the run and succeeds afterwards. -/
theorem submitted_of_mem_payments (h : p ∈ s.payments actions) :
    ∃ pre limit rest, actions = pre ++ .submit (.transfer p.2 limit) :: rest ∧
      p.1 = (s.run pre).submitted + 1 ∧
      ((s.run pre).submit (.transfer p.2 limit)).1.succeeds p.1 rest = true := by
  induction actions generalizing s with
  | nil => cases h
  | cons a rest ih =>
    rw [payments, List.mem_append] at h
    rcases h with h | h
    · obtain ⟨r, hfilter, rfl⟩ := Option.map_eq_some_iff.mp (Option.mem_toList.mp h)
      obtain ⟨hrequest, hsucceeds⟩ := Option.filter_eq_some_iff.mp hfilter
      obtain ⟨limit, rfl⟩ := submit_of_request? hrequest
      exact ⟨[], limit, rest, rfl, rfl, hsucceeds⟩
    · obtain ⟨pre, limit, rest', rfl, hid, hsucceeds⟩ := ih h
      exact ⟨a :: pre, limit, rest', rfl, hid, hsucceeds⟩

theorem submitted_lt_of_mem_payments (h : p ∈ s.payments actions) : s.submitted + 1 ≤ p.1 := by
  obtain ⟨pre, limit, rest, -, hid, -⟩ := submitted_of_mem_payments h
  rw [hid]
  exact Int.add_le_add_right (Int.ofNat_le.mpr (submitted_le_run s pre)) 1

/-- Payments stand in the order of their submission. -/
theorem payments_ascending (s : Service) (actions : List Action) :
    (s.payments actions).Pairwise (·.1 < ·.1) := by
  induction actions generalizing s with
  | nil => exact .nil
  | cons a rest ih =>
    rw [payments]
    cases hfilter : a.request?.filter fun _ => (s.step a).succeeds (s.submitted + 1) rest with
    | none => exact ih _
    | some r =>
      obtain ⟨limit, rfl⟩ := submit_of_request? (Option.filter_eq_some_iff.mp hfilter).1
      exact List.pairwise_cons.mpr
        ⟨fun p hp => Int.lt_of_add_one_le (submitted_lt_of_mem_payments hp), ih _⟩

theorem payments_keys_nodup (s : Service) (actions : List Action) :
    ((s.payments actions).map Prod.fst).Nodup :=
  List.pairwise_map.mpr ((payments_ascending s actions).imp Int.ne_of_lt)

/-! ## A payment is posted once -/

/-- A task that is not there publishes nothing. -/
theorem publications_of_absent
    (h : ∀ pre post, actions = pre ++ post → (s.run pre).tasks.find? id = none) :
    s.publications id actions = [] := by
  induction actions generalizing s with
  | nil => rfl
  | cons a rest ih =>
    have habsent : s.tasks.find? id = none := h [] _ rfl
    have hquiet : ¬ (a.turn? = some id ∧ s.Commits (s.step a)) := by
      rintro ⟨hturn, hcommits⟩
      rw [step_of_absent hturn habsent] at hcommits
      exact not_commits_self s hcommits
    rw [publications, if_neg hquiet, List.nil_append]
    exact ih fun pre post heq => h (a :: pre) post (by rw [heq]; rfl)

theorem publications_submit (s : Service) (op : Operation) (rest : List Action) :
    s.publications id (.submit op :: rest) = (s.submit op).1.publications id rest := by
  have hturn : ¬ (Action.turn? (.submit op) = some id ∧ s.Commits (s.step (.submit op))) :=
    fun h => nomatch h.1
  rw [publications, if_neg hturn, List.nil_append]
  rfl

/-- A transfer that succeeds publishes once, before its end. -/
theorem Reachable.publications_of_succeeds {r : TransferRequest} {limit : Limit}
    {t : Service × TaskId} (hs : s.Reachable) (ht : s.submit (.transfer r limit) = t)
    (h : t.1.succeeds t.2 actions = true) (hr : (t.1.run actions).ledger.drawn.InRange) :
    ∃ receipt before after, t.1.publications t.2 actions = [(before, after)] ∧
      r.Posted receipt before after := by
  obtain ⟨pre, last, post, receipt, rfl, hended⟩ := ended_of_succeeds h
  obtain ⟨hlive, hgone⟩ := gone_of_ended hended
  have hlawful := hs.lawful.of_submit ht
  have hsplit : pre ++ last :: post = pre ++ [last] ++ post := by simp
  rw [hsplit] at hr
  obtain ⟨haccounted, -⟩ := hs.transfer_end ht hlive hgone (hlawful.inRange_of_append hr)
  rw [hended] at haccounted
  obtain ⟨before, after, hpublished, hposted⟩ := haccounted
  refine ⟨receipt, before, after, ?_, hposted⟩
  -- After its end the task is not there any more.
  have hpast : (t.1.run (pre ++ [last])).Past t.2 := by
    rw [run_concat]
    refine ⟨?_, hgone⟩
    exact Int.le_trans ((hlawful.run pre).numbered _ hlive)
      (Int.ofNat_le.mpr (Goes.submitted_le (step_goes _ last)))
  have hafter : (t.1.run (pre ++ [last])).publications t.2 post = [] :=
    publications_of_absent fun pre' _ _ => (hpast.run pre').absent
  rw [hsplit, publications_append, hpublished, hafter, List.append_nil]

/-- A task that publishes once in a run and does so in this step has not published before. -/
theorem publications_of_single {pre post : List Action} {before after : Books}
    (h : s.publications id (pre ++ a :: post) = [(before, after)]) (hturn : a.turn? = some id)
    (hcommits : (s.run pre).Commits ((s.run pre).step a)) :
    s.publications id pre = [] ∧ (s.run pre).ledger.books = before ∧
      ((s.run pre).step a).ledger.books = after := by
  rw [publications_append, publications, if_pos ⟨hturn, hcommits⟩] at h
  cases hpre : s.publications id pre with
  | nil =>
    rw [hpre, List.nil_append, List.singleton_append, List.cons.injEq, Prod.mk.injEq] at h
    exact ⟨rfl, h.1⟩
  | cons first more =>
    rw [hpre] at h
    simp at h

/-- A payment is posted in one step of the run, in which its task has a turn. -/
theorem Reachable.payment_posted (hs : s.Reachable) (hr : (s.run actions).ledger.drawn.InRange)
    (h : p ∈ s.payments actions) :
    ∃ receipt before after, s.publications p.1 actions = [(before, after)] ∧
      p.2.Posted receipt before after := by
  obtain ⟨pre, limit, rest, rfl, hid, hsucceeds⟩ := submitted_of_mem_payments h
  rw [run_append] at hr
  -- The task is not there before it is submitted.
  have hbefore : s.publications p.1 pre = [] := by
    refine publications_of_absent fun pre' post' heq => ?_
    refine Option.not_isSome_iff_eq_none.mp fun hlive => ?_
    have hle := (hs.run pre').lawful.numbered _ hlive
    have hlater := submitted_le_run (s.run pre') post'
    rw [← run_append, ← heq] at hlater
    rw [hid] at hle
    omega
  rw [publications_append, hbefore, List.nil_append, publications_submit]
  rw [hid] at hsucceeds ⊢
  exact (hs.run pre).publications_of_succeeds rfl hsucceeds hr

/-! ## Runs that only pay -/

/-- The first part of the run has carried out the payments of these tasks, which are those that have
published in it. -/
structure PaidBy (s : Service) (actions pre : List Action) (ps : List (TaskId × TransferRequest)) :
    Prop where
  nodup : ps.Nodup
  mem : ∀ p, p ∈ ps ↔ p ∈ s.payments actions ∧ s.publications p.1 pre ≠ []
  carries : s.ledger.books.Carries (ps.map Prod.snd) (s.run pre).ledger.books

namespace PaidBy

variable {pre post : List Action} {ps : List (TaskId × TransferRequest)}

theorem start (s : Service) (actions : List Action) : s.PaidBy actions [] [] where
  nodup := .nil
  mem p := by simp [publications]
  carries := .nothing

/-- A step in which no payment is published writes nothing. -/
theorem quiet (h : s.PaidBy actions pre ps) (honly : s.OnlyPays actions)
    (heq : actions = pre ++ a :: post)
    (hquiet : ∀ p ∈ s.payments actions,
      ¬ (a.turn? = some p.1 ∧ (s.run pre).Commits ((s.run pre).step a))) :
    s.PaidBy actions (pre ++ [a]) ps := by
  have hbooks : ((s.run pre).step a).ledger.books = (s.run pre).ledger.books := by
    by_contra hne
    obtain ⟨p, hp, hturn⟩ := honly a.turn? (by rw [heq]; exact mem_writers hne)
    exact hquiet p hp ⟨hturn, Or.inl hne⟩
  refine ⟨h.nodup, fun p => (h.mem p).trans (and_congr_right fun hp => ?_), ?_⟩
  · rw [publications_concat, if_neg (hquiet p hp), List.append_nil]
  · rw [run_concat, hbooks]
    exact h.carries

/-- A step in which a payment is published posts it. -/
theorem posted (h : s.PaidBy actions pre ps) (hs : s.Reachable)
    (hr : (s.run actions).ledger.drawn.InRange) (heq : actions = pre ++ a :: post)
    (hp : p ∈ s.payments actions) (hturn : a.turn? = some p.1)
    (hcommits : (s.run pre).Commits ((s.run pre).step a)) :
    s.PaidBy actions (pre ++ [a]) (p :: ps) := by
  obtain ⟨receipt, before, after, hpublished, hposted⟩ := hs.payment_posted hr hp
  rw [heq] at hpublished
  obtain ⟨hnone, rfl, rfl⟩ := publications_of_single hpublished hturn hcommits
  refine ⟨List.nodup_cons.mpr ⟨fun hmem => ((h.mem p).mp hmem).2 hnone, h.nodup⟩, fun p' => ?_, ?_⟩
  · rw [List.mem_cons, h.mem p', publications_concat]
    constructor
    · rintro (rfl | ⟨hp', hpre⟩)
      · rw [if_pos ⟨hturn, hcommits⟩]
        exact ⟨hp, by simp⟩
      · exact ⟨hp', fun hnil => hpre (List.append_eq_nil_iff.mp hnil).1⟩
    · rintro ⟨hp', hne⟩
      by_cases hpre : s.publications p'.1 pre = []
      · left
        rw [hpre, List.nil_append] at hne
        have hturn' : a.turn? = some p'.1 := by
          by_contra hturn'
          exact hne (if_neg fun h => hturn' h.1)
        exact List.inj_on_of_nodup_map (payments_keys_nodup s actions) hp' hp
          (Option.some.inj (hturn'.symm.trans hturn))
      · exact Or.inr ⟨hp', hpre⟩
  · rw [run_concat]
    exact .posted h.carries hposted

end PaidBy

/-- A run that writes nothing but payments has carried them out one after the other. -/
theorem Reachable.carries (hs : s.Reachable) (honly : s.OnlyPays actions)
    (hr : (s.run actions).ledger.drawn.InRange) :
    ∃ requests : List TransferRequest,
      (requests : Multiset TransferRequest) = s.paidRequests actions ∧
      s.ledger.books.Carries requests (s.run actions).ledger.books := by
  -- Induction on the run from its end, so that every first part is followed by the rest of the run.
  have hpre : ∀ pre, (∃ post, actions = pre ++ post) → ∃ ps, s.PaidBy actions pre ps := by
    refine fun pre => run_induction (s := s)
      (P := fun pre _ => (∃ post, actions = pre ++ post) → ∃ ps, s.PaidBy actions pre ps)
      (fun _ => ⟨[], .start s actions⟩) (fun pre a ih hpost => ?_) pre
    obtain ⟨post, hpost⟩ := hpost
    have heq : actions = pre ++ a :: post := by rw [hpost]; simp
    obtain ⟨ps, hps⟩ := ih ⟨a :: post, heq⟩
    by_cases hpays : ∃ p ∈ s.payments actions,
        a.turn? = some p.1 ∧ (s.run pre).Commits ((s.run pre).step a)
    · obtain ⟨p, hp, hturn, hcommits⟩ := hpays
      exact ⟨p :: ps, hps.posted hs hr heq hp hturn hcommits⟩
    · exact ⟨ps, hps.quiet honly heq fun p hp hpays' => hpays ⟨p, hp, hpays'⟩⟩
  obtain ⟨ps, hnodup, hmem, hcarries⟩ := hpre actions ⟨[], by simp⟩
  -- In the end every payment has been published.
  have hperm : ps.Perm (s.payments actions) := by
    refine (List.perm_ext_iff_of_nodup hnodup (.of_map _ (payments_keys_nodup s actions))).mpr
      fun p => (hmem p).trans (and_iff_left_of_imp fun hp => ?_)
    obtain ⟨receipt, before, after, hpublished, -⟩ := hs.payment_posted hr hp
    rw [hpublished]
    exact List.cons_ne_nil _ _
  exact ⟨ps.map Prod.snd, Multiset.coe_eq_coe.mpr (hperm.map _), hcarries⟩

end Service
end FundsLedger
