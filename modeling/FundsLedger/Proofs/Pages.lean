import FundsLedger.Proofs.Sequencing
import FundsLedger.Proofs.Transfer.Linearizable

/-!
Pages of a history. Who lists the history of an account reads a window on what is committed at one
moment. The history only grows at its end, so a window that is full once shows the same rows for
ever.
-/

namespace FundsLedger

open Ledger

variable {ε α : Type} {b b' : Books} {a : AccountId} {pageId pageSize : Int}

/-! ## Windows -/

theorem Page.limit_of_numbered {page : Page} (h : numbered pageId pageSize = .ok page) :
    page.limit = pageSize := by
  unfold numbered at h
  split at h
  · cases h
  · split at h
    · cases h
    · cases h
      rfl

/-- A full window shows the same rows of a list that goes on. -/
theorem Page.window_of_prefix {page : Page} {rows rows' : List α} (h : rows <+: rows')
    (hfull : ((page.window rows).length : Int) = page.limit) :
    page.window rows' = page.window rows := by
  obtain ⟨more, rfl⟩ := h
  have hlimit : page.limit.toNat ≤ (rows.drop page.offset.toNat).length := by
    rw [window, List.length_take] at hfull
    omega
  rw [window, window, List.drop_append, List.take_append_of_le_length hlimit]

/-! ## Listings -/

/-- What is listed is a window on the history in some of the books that have been found. -/
def Listed (history : Books → List α) (pageId pageSize : Int) (h : History) :
    Except ε (List α) → Prop
  | .ok rows => ∃ page, Page.numbered pageId pageSize = .ok page ∧
      ∃ b ∈ h.seen, rows = page.window (history b)
  | .error _ => True

theorem Rules.sequencing.chronological {v : View} {l : Ledger} {u : UnitId} {p : Option Call}
    (h : sequencing.Finds v l u p) : l.books.Chronological :=
  (h.lawful.sound h.relied.1).chronological

/-- Work that ends with a window on what it has just found. -/
theorem Listed.ends [OfStoreError ε] {history : Books → List α} {page : Page} {seen : List Books}
    {v : View} (hpage : Page.numbered pageId pageSize = .ok page) (hb : b ∈ seen) :
    Work.Ends Rules.sequencing (Listed (ε := ε) history pageId pageSize) seen v
      (.ok (page.window (history b))) := by
  refine ⟨trivial, fun l u _ => ?_⟩
  split
  · exact ⟨page, hpage, b, hb, rfl⟩
  · trivial

namespace Inquiries

theorem listEntries_listed (a : AccountId) (pageId pageSize : Int) :
    (listEntries a pageId pageSize).Keeps Rules.sequencing
      (Listed (·.entriesOf a) pageId pageSize) History.empty none := by
  unfold listEntries
  split
  · exact ⟨rfl, trivial⟩
  rename_i page hpage
  refine Work.Meets.atomically (.ask (Rules.sequencing_of_silent fun _ => id)
    fun l u p r v _ ha => ?_)
  obtain rfl := View.answers_reads (c := .getAccount a) trivial ha
  cases r with
  | error e => trivial
  | ok account =>
    refine ⟨Rules.sequencing_of_silent fun _ => id, fun l u p r v hf ha => ?_⟩
    rw [View.answers_listEntries ha, View.fresh,
      UnitOfWork.fresh_entriesOf ((Rules.sequencing.chronological hf).entries a)]
    exact Listed.ends hpage List.mem_cons_self

theorem listTransfers_listed (a : AccountId) (pageId pageSize : Int) :
    (listTransfers a a pageId pageSize).Keeps Rules.sequencing
      (Listed (·.transfersBetween a a) pageId pageSize) History.empty none := by
  unfold listTransfers
  split
  · exact ⟨rfl, trivial⟩
  rename_i page hpage
  refine Work.Meets.atomically ⟨Rules.sequencing_of_silent fun _ => id, fun l u p r v hf ha => ?_⟩
  rw [View.answers_listTransfers ha, View.fresh,
    UnitOfWork.fresh_transfersBetween ((Rules.sequencing.chronological hf).transfers a)]
  exact Listed.ends hpage List.mem_cons_self

end Inquiries

/-- The operation lists a page of a history, and nothing cuts it short. -/
structure Operation.Lists (op : Operation) (answer : Except TransferError (List α) → Answer)
    (history : Books → List α) (pageId pageSize : Int) : Prop where
  keeps : ∀ policy, (op.process policy).Keeps Rules.sequencing
    (fun h got => ∃ result, got = answer result ∧ Listed history pageId pageSize h result)
    History.empty none
  uncut : ∀ timeout now, op.interrupts timeout now = []
  injective : Function.Injective answer

theorem Operation.lists_entries (a : AccountId) (pageId pageSize : Int) :
    (listEntries a pageId pageSize).Lists .entries (·.entriesOf a) pageId pageSize where
  keeps _ := .map ((Inquiries.listEntries_listed a pageId pageSize).mono (.refl _)
    fun _ result h => ⟨result, rfl, h⟩)
  uncut _ _ := rfl
  injective _ _ h := Answer.entries.inj h

theorem Operation.lists_transfers (a : AccountId) (pageId pageSize : Int) :
    (listTransfers a a pageId pageSize).Lists .transfers (·.transfersBetween a a) pageId
      pageSize where
  keeps _ := .map ((Inquiries.listTransfers_listed a pageId pageSize).mono (.refl _)
    fun _ result h => ⟨result, rfl, h⟩)
  uncut _ _ := rfl
  injective _ _ h := Answer.transfers.inj h

/-! ## Runs of clients -/

namespace Service

variable {op : Operation} {answer : Except TransferError (List α) → Answer}
variable {history : Books → List α} {rows rows' : List α}
variable {pre call between call' : List Action}

/-- In these steps a client asks for the operation, in the first one, and gets the answer, in the
last one. -/
def Calls (s : Service) (op : Operation) (actions : List Action) (answer : Answer) : Prop :=
  ∃ post last, actions = .submit op :: (post ++ [last]) ∧
    ((s.submit op).1.run post).ended? (s.submit op).2 last = some (.answered answer)

/-- Whoever gets a page gets a window on the history as it is at some moment of the call. -/
theorem Calls.window (hop : op.Lists answer history pageId pageSize) (settings : Settings)
    (hclient : ∀ a ∈ pre ++ call, a.IsClient)
    (hr : ((start settings).run (pre ++ call)).ledger.drawn.InRange)
    (hcall : ((start settings).run pre).Calls op call (answer (.ok rows))) :
    ∃ page, Page.numbered pageId pageSize = .ok page ∧ ∃ part rest, call = part ++ rest ∧
      rows = page.window (history ((start settings).run (pre ++ part)).ledger.books) := by
  obtain ⟨post, last, rfl, hended⟩ := hcall
  have hs := (Lawful.start settings).run pre
  -- The state at every moment of the call is one of the whole run.
  have hmoment : ∀ part rest, post = part ++ rest →
      (((start settings).run pre).submit op).1.run part =
          (start settings).run (pre ++ .submit op :: part) ∧
        Rules.sequencing.relies ((start settings).run (pre ++ .submit op :: part)).ledger := by
    rintro part rest rfl
    refine ⟨by rw [run_append]; rfl, ?_⟩
    have hsplit : pre ++ .submit op :: (part ++ rest ++ [last]) =
        (pre ++ .submit op :: part) ++ (rest ++ [last]) := by simp
    rw [hsplit] at hclient hr
    have hr' := inRange_of_append settings hr
    exact ⟨hr', (clients_sequenced settings (fun a ha => hclient a (List.mem_append_left _ ha))
      hr').2⟩
  obtain ⟨h, got, hgot, ⟨result, rfl, hlisted⟩, hc⟩ := answered_of_ended hs rfl
    (hop.keeps _) (hop.uncut _ _) (fun part rest heq => by
      obtain ⟨hrun, hrelies⟩ := hmoment part rest heq
      rwa [hrun]) hended
  obtain rfl := hop.injective (Settled.answered.inj hgot)
  obtain ⟨page, hpage, b, hb, rfl⟩ := hlisted
  obtain ⟨part, rest, heq, rfl, -⟩ := hc.seen b hb
  refine ⟨page, hpage, .submit op :: part, .advance (((start settings).run pre).submit op).2 ::
    rest ++ [last], by simp [heq], ?_⟩
  rw [(hmoment part _ heq).1]

/-- A page that is full once is the same in every later call. -/
theorem Calls.full (hop : op.Lists answer history pageId pageSize) (settings : Settings)
    (hhistory : ∀ {b b' : Books}, b.Continues b' → history b <+: history b')
    (hclient : ∀ a ∈ pre ++ call ++ between ++ call', a.IsClient)
    (hr : ((start settings).run (pre ++ call ++ between ++ call')).ledger.drawn.InRange)
    (hcall : ((start settings).run pre).Calls op call (answer (.ok rows)))
    (hfull : (rows.length : Int) = pageSize)
    (hcall' : ((start settings).run (pre ++ call ++ between)).Calls op call'
      (answer (.ok rows'))) : rows' = rows := by
  have hfirst : pre ++ call ++ between ++ call' = (pre ++ call) ++ (between ++ call') := by simp
  have hr₁ := hr
  rw [hfirst] at hr₁
  obtain ⟨page, hpage, part, rest, rfl, rfl⟩ := Calls.window hop settings
    (fun a ha => hclient a (hfirst ▸ List.mem_append_left _ ha)) (inRange_of_append settings hr₁)
    hcall
  obtain ⟨page', hpage', part', rest', rfl, rfl⟩ := Calls.window hop settings hclient hr hcall'
  rw [hpage] at hpage'
  cases hpage'
  -- The second call looks at the books later than the first one.
  have hsplit : pre ++ (part ++ rest) ++ between ++ part' =
      pre ++ part ++ (rest ++ between ++ part') := by simp
  rw [← List.append_assoc] at hclient hr
  have hr₂ := inRange_of_append settings hr
  have hclient₂ := fun a ha => hclient a (List.mem_append_left rest' ha)
  rw [hsplit] at hclient₂ hr₂ ⊢
  exact Page.window_of_prefix (hhistory (clients_continue settings hclient₂ hr₂))
    (by rw [hfull, Page.limit_of_numbered hpage])

/-- In every run of clients the history of each account stands in ascending order and grows at its
end only, so a page of it that is full once is the same in every later call. -/
theorem clients_history (settings : Settings) (actions : List Action)
    (hclient : ∀ a ∈ actions, a.IsClient)
    (hr : ((start settings).run actions).ledger.drawn.InRange) :
    (∀ pre between rest, actions = pre ++ between ++ rest →
      ((start settings).run pre).ledger.books.Chronological ∧
      ((start settings).run (pre ++ between)).ledger.books.Chronological ∧
      ((start settings).run pre).ledger.books.Continues
        ((start settings).run (pre ++ between)).ledger.books) ∧
    (∀ pre call between call' rest a pageId pageSize rows rows',
      actions = pre ++ call ++ between ++ call' ++ rest →
      ((start settings).run pre).Calls (.listEntries a pageId pageSize) call
        (.entries (.ok rows)) →
      (rows.length : Int) = pageSize →
      ((start settings).run (pre ++ call ++ between)).Calls (.listEntries a pageId pageSize) call'
        (.entries (.ok rows')) →
      rows' = rows) ∧
    ∀ pre call between call' rest a pageId pageSize rows rows',
      actions = pre ++ call ++ between ++ call' ++ rest →
      ((start settings).run pre).Calls (.listTransfers a a pageId pageSize) call
        (.transfers (.ok rows)) →
      (rows.length : Int) = pageSize →
      ((start settings).run (pre ++ call ++ between)).Calls (.listTransfers a a pageId pageSize)
        call' (.transfers (.ok rows')) →
      rows' = rows := by
  refine ⟨?_, ?_, ?_⟩
  · rintro pre between rest rfl
    have hclient' := fun a ha => hclient a (List.mem_append_left rest ha)
    have hr' := inRange_of_append settings hr
    have hchronological : ∀ as, ((start settings).run as).ledger.drawn.InRange →
        ((start settings).run as).ledger.books.Chronological := fun as hr =>
      (((Lawful.start settings).run as).ledger.sound hr).chronological
    exact ⟨hchronological pre (inRange_of_append settings hr'),
      hchronological (pre ++ between) hr', clients_continue settings hclient' hr'⟩
  · rintro pre call between call' rest a pageId pageSize rows rows' rfl hcall hfull hcall'
    exact Calls.full (Operation.lists_entries a pageId pageSize) settings
      (fun h => h.entries a) (fun b hb => hclient b (List.mem_append_left rest hb))
      (inRange_of_append settings hr) hcall hfull hcall'
  · rintro pre call between call' rest a pageId pageSize rows rows' rfl hcall hfull hcall'
    exact Calls.full (Operation.lists_transfers a pageId pageSize) settings
      (fun h => h.transfers a) (fun b hb => hclient b (List.mem_append_left rest hb))
      (inRange_of_append settings hr) hcall hfull hcall'

/-- The first owner is to pay the second one 10 cents. -/
def coin : TransferRequest := ⟨1, 2, ⟨10, by decide, by decide⟩, "USD"⟩

/-- A payment of 10 cents is made. -/
def coining (id : TaskId) : List Action := .submit (.transfer coin .usual) :: turns id 12

/-- Two accounts have been opened, and five payments made. -/
def coins : List Action := openings ++ [3, 4, 5, 6, 7].flatMap coining

/-- The first page of the entries on the first account is asked for. -/
def entryPage (id : TaskId) : List Action :=
  .submit (.listEntries 1 1 5) :: (turns id 4 ++ [.advance id])

/-- The first page of the transfers out of and into the first account is asked for. -/
def transferPage (id : TaskId) : List Action :=
  .submit (.listTransfers 1 1 1 5) :: (turns id 3 ++ [.advance id])

/-- The service after these steps. -/
def sampleAfter (actions : List Action) : Service := (start ⟨RetryPolicy.once, none⟩).run actions

set_option maxRecDepth 8000 in
/-- After five payments the first pages are full, and one more payment does not change them. -/
theorem coins_history :
    (∃ rows, rows.length = 5 ∧
      (sampleAfter coins).Calls (.listEntries 1 1 5) (entryPage 8) (.entries (.ok rows)) ∧
      (sampleAfter (coins ++ entryPage 8 ++ (transferPage 9 ++ coining 10))).Calls (.listEntries 1 1 5)
        (entryPage 11) (.entries (.ok rows))) ∧
    ∃ rows, rows.length = 5 ∧
      (sampleAfter (coins ++ entryPage 8)).Calls (.listTransfers 1 1 1 5) (transferPage 9)
        (.transfers (.ok rows)) ∧
      (sampleAfter (coins ++ entryPage 8 ++ transferPage 9 ++ (coining 10 ++ entryPage 11))).Calls
        (.listTransfers 1 1 1 5) (transferPage 12) (.transfers (.ok rows)) := by
  obtain ⟨-, hentries, htransfers⟩ := clients_history ⟨RetryPolicy.once, none⟩
    (coins ++ entryPage 8 ++ transferPage 9 ++ coining 10 ++ entryPage 11 ++ transferPage 12)
    (by decide) (by decide)
  constructor
  · obtain ⟨rows, hcall, hfull⟩ : ∃ rows,
        (sampleAfter coins).Calls (.listEntries 1 1 5) (entryPage 8) (.entries (.ok rows)) ∧
        rows.length = 5 := ⟨_, ⟨_, _, rfl, rfl⟩, rfl⟩
    obtain ⟨rows', hcall'⟩ : ∃ rows',
        (sampleAfter (coins ++ entryPage 8 ++ (transferPage 9 ++ coining 10))).Calls
          (.listEntries 1 1 5) (entryPage 11) (.entries (.ok rows')) := ⟨_, _, _, rfl, rfl⟩
    obtain rfl := hentries coins (entryPage 8) (transferPage 9 ++ coining 10) (entryPage 11)
      (transferPage 12) 1 1 5 rows rows' rfl hcall (by rw [hfull]; rfl) hcall'
    exact ⟨rows', hfull, hcall, hcall'⟩
  · obtain ⟨rows, hcall, hfull⟩ : ∃ rows,
        (sampleAfter (coins ++ entryPage 8)).Calls (.listTransfers 1 1 1 5) (transferPage 9)
          (.transfers (.ok rows)) ∧ rows.length = 5 := ⟨_, ⟨_, _, rfl, rfl⟩, rfl⟩
    obtain ⟨rows', hcall'⟩ : ∃ rows',
        (sampleAfter (coins ++ entryPage 8 ++ transferPage 9 ++ (coining 10 ++ entryPage 11))).Calls
          (.listTransfers 1 1 1 5) (transferPage 12) (.transfers (.ok rows')) :=
      ⟨_, _, _, rfl, rfl⟩
    obtain rfl := htransfers (coins ++ entryPage 8) (transferPage 9) (coining 10 ++ entryPage 11)
      (transferPage 12) [] 1 1 5 rows rows' rfl hcall (by rw [hfull]; rfl) hcall'
    exact ⟨rows', hfull, hcall, hcall'⟩

end Service
end FundsLedger
