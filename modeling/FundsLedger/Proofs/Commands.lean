import FundsLedger.Command
import FundsLedger.Proofs.Text.Integer

/-!
The grammar of commands. A command is a name and its slots: texts and numbers of a width, of which
the last may have a usual value. Arguments that fill the slots from left to right are read as the
command with just these texts and numbers; of arguments that do not, the first slot at fault is
named. Both directions hold, so the seven forms below say all there is about what is read.
-/

namespace FundsLedger

open Command (usualPageId usualPageSize)

/-! ## Forms -/

/-- What stands in a slot. -/
inductive Filling where
  | text (s : String)
  | number (n : Int)
deriving DecidableEq

/-- A slot: it takes a number of a word, or else any text, and it may be left out if there is a
usual number. -/
structure Slot where
  name : String
  word? : Option Word
  usual? : Option Int

/-- A command as it is written: its name and its slots. -/
structure Form where
  name : String
  slots : List Slot

namespace Slot

/-- A text, which has to be given. -/
def ofText (name : String) : Slot := ⟨name, none, none⟩

/-- A number, which has to be given. -/
def ofNumber (w : Word) (name : String) : Slot := ⟨name, some w, none⟩

/-- A number that may be left out. -/
def ofNumberOr (usual : Int) (w : Word) (name : String) : Slot := ⟨name, some w, some usual⟩

/-- The argument, if there is one, fills the slot, and this is what then stands in it. -/
def Takes (slot : Slot) : Option String → Filling → Prop
  | some raw, .text s => slot.word? = none ∧ s = raw
  | some raw, .number n => ∃ w, slot.word? = some w ∧ w.Holds n ∧ Integer.Spells raw.toList n
  | none, .text _ => False
  | none, .number n => slot.usual? = some n

/-- The argument, if there is one, does not fill the slot, and this is what is wrong: it is missing,
or its text is no number of the word. -/
def Refuses (slot : Slot) : Option String → CommandError → Prop
  | none, e => slot.usual? = none ∧ e = .missingArgument slot.name
  | some raw, e => ∃ w cause, slot.word? = some w ∧
    (∀ n, w.Holds n → ¬ Integer.Spells raw.toList n) ∧ Integer.parse w raw = .error cause ∧
    e = .invalidArgument slot.name raw cause

/-- The arguments fill the slots from left to right; more arguments do not matter. -/
def TakeAll : List Slot → List String → List Filling → Prop
  | [], _, [] => True
  | slot :: slots, args, filling :: fillings =>
    slot.Takes args.head? filling ∧ TakeAll slots args.tail fillings
  | _, _, _ => False

/-- Of the slots from left to right this is the first that is not filled, and what is wrong. -/
def FirstRefuses : List Slot → List String → CommandError → Prop
  | [], _, _ => False
  | slot :: slots, args, e =>
    slot.Refuses args.head? e ∨
      (∃ filling, slot.Takes args.head? filling) ∧ FirstRefuses slots args.tail e

/-- The slot is filled by an argument that is no number only if it wants none, and it is left out
only if it has a usual number. -/
def Accepts (slot : Slot) : Option String → Prop
  | some raw => ∀ w, slot.word? = some w → ∃ n, w.Holds n ∧ Integer.Spells raw.toList n
  | none => slot.usual?.isSome

theorem accepts_iff {slot : Slot} {arg : Option String} :
    slot.Accepts arg ↔ ∃ filling, slot.Takes arg filling := by
  cases arg with
  | none =>
    constructor
    · intro h
      obtain ⟨n, hn⟩ := Option.isSome_iff_exists.mp h
      exact ⟨.number n, hn⟩
    · rintro ⟨v, hv⟩
      cases v with
      | text s => exact hv.elim
      | number n => exact Option.isSome_iff_exists.mpr ⟨n, hv⟩
  | some raw =>
    constructor
    · intro h
      cases hword : slot.word? with
      | none => exact ⟨.text raw, hword, rfl⟩
      | some w =>
        obtain ⟨n, hn, hspells⟩ := h w hword
        exact ⟨.number n, w, hword, hn, hspells⟩
    · rintro ⟨v, hv⟩ w hword
      cases v with
      | text s => exact absurd (hv.1.symm.trans hword) (Option.some_ne_none w).symm
      | number n =>
        obtain ⟨w', hword', hn, hspells⟩ := hv
        obtain rfl := Option.some.inj (hword'.symm.trans hword)
        exact ⟨n, hn, hspells⟩

theorem takeAll_iff_accepts {slots : List Slot} {args : List String} :
    (∃ fillings, TakeAll slots args fillings) ↔
      ∀ (i : Nat) slot, slots[i]? = some slot → slot.Accepts args[i]? := by
  induction slots generalizing args with
  | nil => exact ⟨fun _ i slot h => (by simp at h), fun _ => ⟨[], trivial⟩⟩
  | cons slot slots ih =>
    have hhead : args.head? = args[0]? := List.head?_eq_getElem?
    have htail : ∀ i : Nat, args.tail[i]? = args[i + 1]? := fun i => List.getElem?_tail
    constructor
    · rintro ⟨fillings, h⟩ i slot' hslot
      cases fillings with
      | nil => exact h.elim
      | cons v fillings =>
        cases i with
        | zero =>
          cases hslot
          rw [← hhead]
          exact accepts_iff.mpr ⟨v, h.1⟩
        | succ i =>
          rw [← htail]
          exact ih.mp ⟨fillings, h.2⟩ i slot' hslot
    · intro h
      have hfirst := h 0 slot rfl
      rw [← hhead] at hfirst
      obtain ⟨v, hv⟩ := accepts_iff.mp hfirst
      obtain ⟨fillings, hfillings⟩ := ih.mpr fun i slot' hslot => by
        rw [htail]
        exact h (i + 1) slot' hslot
      exact ⟨v :: fillings, hv, hfillings⟩

theorem Refuses.not_takes {slot : Slot} {arg : Option String} {e : CommandError} {v : Filling}
    (h : slot.Refuses arg e) : ¬ slot.Takes arg v := by
  intro hv
  cases arg with
  | none =>
    cases v with
    | text s => exact hv
    | number n => exact absurd (h.1.symm.trans hv) (Option.some_ne_none n).symm
  | some raw =>
    obtain ⟨w, cause, hword, hmisspelt, -⟩ := h
    cases v with
    | text s => exact absurd (hv.1.symm.trans hword) (Option.some_ne_none w).symm
    | number n =>
      obtain ⟨w', hword', hn, hspells⟩ := hv
      obtain rfl := Option.some.inj (hword'.symm.trans hword)
      exact hmisspelt n hn hspells

theorem TakeAll.not_firstRefuses {slots : List Slot} {args : List String} {fillings : List Filling}
    {e : CommandError} (h : TakeAll slots args fillings) : ¬ FirstRefuses slots args e := by
  induction slots generalizing args fillings with
  | nil => exact id
  | cons slot slots ih =>
    cases fillings with
    | nil => exact h.elim
    | cons v fillings =>
      rintro (hrefuses | ⟨-, hrest⟩)
      · exact hrefuses.not_takes h.1
      · exact ih h.2 hrest

end Slot

namespace Command

/-- The seven commands. -/
def forms : List Form :=
  [⟨"create-account", [.ofText "owner", .ofText "currency",
      .ofNumberOr 0 .int64 "initial_deposit"]⟩,
    ⟨"get-account", [.ofNumber .int64 "account_id"]⟩,
    ⟨"list-accounts", [.ofText "owner", .ofNumberOr usualPageId .int32 "page_id",
      .ofNumberOr usualPageSize .int32 "page_size"]⟩,
    ⟨"transfer", [.ofNumber .int64 "from_id", .ofNumber .int64 "to_id", .ofNumber .int64 "amount",
      .ofText "currency"]⟩,
    ⟨"list-transfers", [.ofNumber .int64 "from_id", .ofNumber .int64 "to_id",
      .ofNumberOr usualPageId .int32 "page_id", .ofNumberOr usualPageSize .int32 "page_size"]⟩,
    ⟨"list-entries", [.ofNumber .int64 "account_id", .ofNumberOr usualPageId .int32 "page_id",
      .ofNumberOr usualPageSize .int32 "page_size"]⟩,
    ⟨"reconcile", [.ofNumber .int64 "account_id"]⟩]

/-- The name of the command. -/
def name : Command → String
  | createAccount .. => "create-account"
  | getAccount .. => "get-account"
  | listAccounts .. => "list-accounts"
  | transfer .. => "transfer"
  | listTransfers .. => "list-transfers"
  | listEntries .. => "list-entries"
  | reconcile .. => "reconcile"

/-- What stands in the slots of the command. -/
def fillings : Command → List Filling
  | createAccount owner currency deposit => [.text owner, .text currency, .number deposit.units]
  | getAccount id => [.number id]
  | listAccounts owner pageId pageSize => [.text owner, .number pageId, .number pageSize]
  | transfer r => [.number r.fromId, .number r.toId, .number r.amount.units, .text r.currency]
  | listTransfers fromId toId pageId pageSize =>
    [.number fromId, .number toId, .number pageId, .number pageSize]
  | listEntries accountId pageId pageSize =>
    [.number accountId, .number pageId, .number pageSize]
  | reconcile accountId => [.number accountId]

/-- Every number of the command fits the word of its slot. -/
def Fits : Command → Prop
  | createAccount .. => True
  | getAccount id | reconcile id => Word.int64.Holds id
  | listAccounts _ pageId pageSize => Word.int32.Holds pageId ∧ Word.int32.Holds pageSize
  | transfer r => Word.int64.Holds r.fromId ∧ Word.int64.Holds r.toId
  | listTransfers fromId toId pageId pageSize =>
    (Word.int64.Holds fromId ∧ Word.int64.Holds toId) ∧
      Word.int32.Holds pageId ∧ Word.int32.Holds pageSize
  | listEntries accountId pageId pageSize =>
    Word.int64.Holds accountId ∧ Word.int32.Holds pageId ∧ Word.int32.Holds pageSize

/-- A command is determined by how it is written. -/
theorem eq_of_fillings {c c' : Command} (hname : c.name = c'.name)
    (hfillings : c.fillings = c'.fillings) : c = c' := by
  cases c <;> cases c' <;> simp_all [name, fillings, Amount.ext_iff]
  case transfer r r' =>
    cases r
    cases r'
    simp_all [Amount.ext_iff]

end Command

/-! ## Readers of slots -/

namespace Slots

variable {α β : Type}

/-- The reader reads the slot: it gives what stands in the slot, or names what is wrong. -/
structure Reads (x : Except CommandError α) (slot : Slot) (arg : Option String)
    (filling : α → Filling) : Prop where
  ok : ∀ v, slot.Takes arg v ↔ ∃ a, x = .ok a ∧ filling a = v
  error : ∀ e, slot.Refuses arg e ↔ x = .error e

variable {args : Slots} {i : Nat} {slot : String} {w : Word}

theorem text_reads : Reads (args.text i slot) (.ofText slot) args[i]? .text := by
  unfold text
  cases args[i]? with
  | none =>
    exact ⟨fun v => by cases v <;> simp [Slot.Takes, Slot.ofText],
      fun e => by simp [Slot.Refuses, Slot.ofText, eq_comm]⟩
  | some raw =>
    exact ⟨fun v => by cases v <;> simp [Slot.Takes, Slot.ofText, eq_comm],
      fun e => by simp [Slot.Refuses, Slot.ofText]⟩

theorem number_of_none (h : args[i]? = none) :
    args.number w i slot = .error (.missingArgument slot) := by
  rw [number, text, h]
  rfl

theorem number_of_some {raw : String} (h : args[i]? = some raw) : args.number w i slot =
    (Integer.parse w raw).mapError fun cause => .invalidArgument slot raw cause := by
  rw [number, text, h]
  rfl

theorem number_reads :
    Reads (args.number w i slot) (.ofNumber w slot) args[i]? fun n => .number n.val := by
  cases harg : args[i]? with
  | none =>
    rw [number_of_none harg]
    exact ⟨fun v => by cases v <;> simp [Slot.Takes, Slot.ofNumber],
      fun e => by simp [Slot.Refuses, Slot.ofNumber, eq_comm]⟩
  | some raw =>
    rw [number_of_some harg]
    constructor
    · intro v
      have hok : ∀ n : { n : Int // w.Holds n },
          (Integer.parse w raw).mapError
            (fun cause => CommandError.invalidArgument slot raw cause) = .ok n ↔
            Integer.Spells raw.toList n := by
        intro n
        rw [← Integer.parse_eq_ok_iff]
        cases Integer.parse w raw with
        | ok m => exact ⟨fun h => by cases h; rfl, fun h => by cases h; rfl⟩
        | error cause => exact ⟨nofun, nofun⟩
      simp only [hok]
      cases v with
      | text s => simp [Slot.Takes, Slot.ofNumber]
      | number n =>
        constructor
        · rintro ⟨w', hw, hn, hspells⟩
          cases hw
          exact ⟨⟨n, hn⟩, hspells, rfl⟩
        · rintro ⟨m, hspells, hm⟩
          cases hm
          exact ⟨w, rfl, m.property, hspells⟩
    · intro e
      constructor
      · rintro ⟨w', cause, hw, -, hcause, rfl⟩
        cases hw
        rw [hcause]
        rfl
      · cases hparse : Integer.parse w raw with
        | ok n => exact nofun
        | error cause =>
          intro h
          cases h
          exact ⟨w, cause, rfl, fun n => Integer.not_spells_of_parse hparse, hparse, rfl⟩

/-- The reader of a slot whose number is wanted in another form. -/
theorem Reads.map {x : Except CommandError α} {slot : Slot} {arg : Option String}
    {filling : α → Filling} {filling' : β → Filling} {f : α → β} (h : Reads x slot arg filling)
    (hf : ∀ a, filling' (f a) = filling a) : Reads (do return f (← x)) slot arg filling' := by
  change Reads (x.map f) slot arg filling'
  constructor
  · intro v
    rw [h.ok]
    cases x <;> simp [Except.map, hf]
  · intro e
    rw [h.error]
    cases x <;> simp [Except.map]

/-- The reader of a slot that may be left out. -/
theorem Reads.optional {x : Except CommandError α} {usual : α} {n : Int} {filling : α → Filling}
    (h : Reads x (.ofNumber w slot) args[i]? filling) (husual : filling usual = .number n) :
    Reads (if i < args.length then x else .ok usual) (.ofNumberOr n w slot) args[i]? filling := by
  split
  · rename_i hi
    rw [List.getElem?_eq_getElem hi] at h ⊢
    refine ⟨fun v => Iff.trans ?_ (h.ok v), h.error⟩
    cases v <;> rfl
  · rename_i hi
    rw [List.getElem?_eq_none (Nat.le_of_not_lt hi)]
    refine ⟨fun v => ?_, fun e => by simp [Slot.Refuses, Slot.ofNumberOr]⟩
    cases v <;> simp [Slot.Takes, Slot.ofNumberOr, husual]

theorem id_reads : Reads (args.id i slot) (.ofNumber .int64 slot) args[i]? .number :=
  number_reads.map fun _ => rfl

theorem amount_reads :
    Reads (args.amount i slot) (.ofNumber .int64 slot) args[i]? fun a => .number a.units :=
  number_reads.map fun _ => rfl

theorem amountOrZero_reads : Reads (args.amountOrZero i slot) (.ofNumberOr 0 .int64 slot) args[i]?
    fun a => .number a.units :=
  amount_reads.optional rfl

theorem numberOr_reads {usual : Int} : Reads (args.numberOr usual i slot)
    (.ofNumberOr usual .int32 slot) args[i]? .number :=
  (number_reads.map fun _ => rfl).optional rfl

end Slots

/-! ## Readers of commands -/

namespace Command

open Slots

variable {α : Type} {form : String} {before : List Filling} {slots : List Slot}
variable {args : List String} {x : Except CommandError Command}

/-- What has been read stands in the first slots of the command, and the reader reads the others. -/
structure Completes (x : Except CommandError Command) (form : String) (before : List Filling)
    (slots : List Slot) (args : List String) : Prop where
  ok : ∀ c, x = .ok c ↔ c.name = form ∧
    ∃ after, Slot.TakeAll slots args after ∧ c.fillings = before ++ after
  error : ∀ e, x = .error e ↔ Slot.FirstRefuses slots args e

theorem Completes.done {c : Command} (hname : c.name = form) (hfillings : c.fillings = before) :
    Completes (pure c) form before [] args := by
  constructor
  · intro c'
    constructor
    · intro h
      cases h
      exact ⟨hname, [], trivial, by rw [hfillings, List.append_nil]⟩
    · rintro ⟨hname', after, hafter, hfillings'⟩
      cases after with
      | nil =>
        rw [List.append_nil, ← hfillings] at hfillings'
        exact congrArg Except.ok (eq_of_fillings (hname.trans hname'.symm) hfillings'.symm)
      | cons filling after => exact hafter.elim
  · intro e
    constructor
    · intro h
      cases h
    · intro h
      exact h.elim

/-- A reader that reads one slot and then the others. -/
theorem Completes.slot {i : Nat} {y : Except CommandError α} {f : α → Except CommandError Command}
    {slot : Slot} {filling : α → Filling} (h : Reads y slot args[i]? filling)
    (hrest : ∀ a, Completes (f a) form (before ++ [filling a]) slots (args.drop (i + 1))) :
    Completes (y >>= f) form before (slot :: slots) (args.drop i) := by
  rw [← List.head?_drop] at h
  rw [← List.tail_drop] at hrest
  constructor
  · intro c
    constructor
    · intro hc
      cases y with
      | error e => cases hc
      | ok a =>
        obtain ⟨hname, after, hafter, hfillings⟩ := ((hrest a).ok c).mp hc
        refine ⟨hname, filling a :: after, ⟨(h.ok _).mpr ⟨a, rfl, rfl⟩, hafter⟩, ?_⟩
        rw [hfillings, List.append_assoc, List.singleton_append]
    · rintro ⟨hname, after, hafter, hfillings⟩
      cases after with
      | nil => exact hafter.elim
      | cons v after =>
        obtain ⟨a, rfl, rfl⟩ := (h.ok v).mp hafter.1
        refine ((hrest a).ok c).mpr ⟨hname, after, hafter.2, ?_⟩
        rw [hfillings, List.append_assoc, List.singleton_append]
  · intro e
    rw [Slot.FirstRefuses, h.error]
    cases y with
    | error e' =>
      have hno : ¬ ∃ v, slot.Takes (args.drop i).head? v := by
        rintro ⟨v, hv⟩
        obtain ⟨a, ha, -⟩ := (h.ok v).mp hv
        cases ha
      simp only [hno, false_and, or_false, Except.error.injEq]
      change Except.error e' = Except.error e ↔ _
      rw [Except.error.injEq]
    | ok a =>
      have htaken : ∃ v, slot.Takes (args.drop i).head? v := ⟨_, (h.ok _).mpr ⟨a, rfl, rfl⟩⟩
      simp only [htaken, true_and, reduceCtorEq, false_or]
      exact (hrest a).error e

/-- Each of the seven forms is read slot by slot. -/
theorem ofSlots_completes {form : Form} (hform : form ∈ forms) (args : List String) :
    Completes (ofSlots form.name args) form.name [] form.slots args := by
  simp only [forms, List.mem_cons, List.not_mem_nil, or_false] at hform
  rcases hform with rfl | rfl | rfl | rfl | rfl | rfl | rfl
  · exact .slot (i := 0) text_reads fun owner => .slot text_reads fun currency =>
      .slot amountOrZero_reads fun deposit => .done rfl rfl
  · exact .slot (i := 0) id_reads fun id => .done rfl rfl
  · exact .slot (i := 0) text_reads fun owner => .slot numberOr_reads fun pageId =>
      .slot numberOr_reads fun pageSize => .done rfl rfl
  · exact .slot (i := 0) id_reads fun fromId => .slot id_reads fun toId =>
      .slot amount_reads fun amount => .slot text_reads fun currency => .done rfl rfl
  · exact .slot (i := 0) id_reads fun fromId => .slot id_reads fun toId =>
      .slot numberOr_reads fun pageId => .slot numberOr_reads fun pageSize => .done rfl rfl
  · exact .slot (i := 0) id_reads fun accountId => .slot numberOr_reads fun pageId =>
      .slot numberOr_reads fun pageSize => .done rfl rfl
  · exact .slot (i := 0) id_reads fun accountId => .done rfl rfl

theorem ofSlots_of_unknown {name : String} (h : ∀ form ∈ forms, form.name ≠ name)
    (args : List String) : ofSlots name args = .error (.unknownCommand name) := by
  simp only [forms, List.forall_mem_cons, List.not_mem_nil, false_implies, implies_true,
    and_true] at h
  obtain ⟨h₁, h₂, h₃, h₄, h₅, h₆, h₇⟩ := h
  unfold ofSlots
  split <;> simp_all

theorem ofArguments_eq_ok_iff {c : Command} : ofArguments args = .ok c ↔
    ∃ form ∈ forms, ∃ given, args = form.name :: given ∧ c.name = form.name ∧
      Slot.TakeAll form.slots given c.fillings := by
  constructor
  · intro h
    cases args with
    | nil => cases h
    | cons name given =>
      change ofSlots name given = .ok c at h
      by_cases hknown : ∃ form ∈ forms, form.name = name
      · obtain ⟨form, hform, rfl⟩ := hknown
        obtain ⟨hc, fillings, htake, hfillings⟩ := ((ofSlots_completes hform given).ok c).mp h
        rw [List.nil_append] at hfillings
        exact ⟨form, hform, given, rfl, hc, hfillings ▸ htake⟩
      · rw [ofSlots_of_unknown fun form hform heq => hknown ⟨form, hform, heq⟩] at h
        cases h
  · rintro ⟨form, hform, given, rfl, hc, htake⟩
    exact ((ofSlots_completes hform given).ok c).mpr ⟨hc, c.fillings, htake, rfl⟩

theorem ofArguments_eq_error_iff {e : CommandError} : ofArguments args = .error e ↔
    (args = [] ∧ e = .missingCommand) ∨
    (∃ name given, args = name :: given ∧ (∀ form ∈ forms, form.name ≠ name) ∧
      e = .unknownCommand name) ∨
    ∃ form ∈ forms, ∃ given, args = form.name :: given ∧
      Slot.FirstRefuses form.slots given e := by
  constructor
  · intro h
    cases args with
    | nil =>
      cases h
      exact Or.inl ⟨rfl, rfl⟩
    | cons name given =>
      change ofSlots name given = .error e at h
      by_cases hknown : ∃ form ∈ forms, form.name = name
      · obtain ⟨form, hform, rfl⟩ := hknown
        exact Or.inr (Or.inr ⟨form, hform, given, rfl,
          ((ofSlots_completes hform given).error e).mp h⟩)
      · have hname : ∀ form ∈ forms, form.name ≠ name :=
          fun form hform heq => hknown ⟨form, hform, heq⟩
        rw [ofSlots_of_unknown hname] at h
        cases h
        exact Or.inr (Or.inl ⟨name, given, rfl, hname, rfl⟩)
  · rintro (⟨rfl, rfl⟩ | ⟨name, given, rfl, hname, rfl⟩ | ⟨form, hform, given, rfl, hrefuses⟩)
    · rfl
    · exact ofSlots_of_unknown hname given
    · exact ((ofSlots_completes hform given).error e).mpr hrefuses

/-! ## Written commands -/

/-- A number that is printed fills its slot. -/
theorem takes_toText {slot : Slot} {w : Word} {n : Int} (hword : slot.word? = some w)
    (hn : w.Holds n) : slot.Takes (some (Integer.toText n)) (.number n) := by
  refine ⟨w, hword, hn, ?_⟩
  rw [Integer.toText, String.toList_ofList]
  exact Integer.spells_printed n

theorem takes_text {slot : Slot} (hword : slot.word? = none) (s : String) :
    slot.Takes (some s) (.text s) :=
  ⟨hword, rfl⟩

/-- The form of the command, and what is written in its slots. -/
theorem written (c : Command) (hc : c.Fits) (extra : List String) : ∃ form ∈ forms, ∃ given,
    c.toArguments ++ extra = form.name :: given ∧ c.name = form.name ∧
      Slot.TakeAll form.slots given c.fillings := by
  cases c with
  | createAccount owner currency deposit =>
    refine ⟨_, List.mem_of_getElem? (i := 0) rfl, _, rfl, rfl, takes_text rfl _,
      takes_text rfl _, takes_toText rfl ⟨deposit.lower, deposit.upper⟩, trivial⟩
  | getAccount id =>
    exact ⟨_, List.mem_of_getElem? (i := 1) rfl, _, rfl, rfl, takes_toText rfl hc, trivial⟩
  | listAccounts owner pageId pageSize =>
    exact ⟨_, List.mem_of_getElem? (i := 2) rfl, _, rfl, rfl, takes_text rfl _,
      takes_toText rfl hc.1, takes_toText rfl hc.2, trivial⟩
  | transfer r =>
    exact ⟨_, List.mem_of_getElem? (i := 3) rfl, _, rfl, rfl, takes_toText rfl hc.1,
      takes_toText rfl hc.2, takes_toText rfl ⟨r.amount.lower, r.amount.upper⟩, takes_text rfl _,
      trivial⟩
  | listTransfers fromId toId pageId pageSize =>
    exact ⟨_, List.mem_of_getElem? (i := 4) rfl, _, rfl, rfl, takes_toText rfl hc.1.1,
      takes_toText rfl hc.1.2, takes_toText rfl hc.2.1, takes_toText rfl hc.2.2, trivial⟩
  | listEntries accountId pageId pageSize =>
    exact ⟨_, List.mem_of_getElem? (i := 5) rfl, _, rfl, rfl, takes_toText rfl hc.1,
      takes_toText rfl hc.2.1, takes_toText rfl hc.2.2, trivial⟩
  | reconcile accountId =>
    exact ⟨_, List.mem_of_getElem? (i := 6) rfl, _, rfl, rfl, takes_toText rfl hc, trivial⟩

/-- Arguments are a command if and only if the first is one of seven names and the others fill the
slots of the command: what has to be given is given, and where a number is wanted stands one sign or
none and digits whose value is in range. Then the command holds these texts and numbers, and the
usual numbers where a slot has been left out, while arguments after the last slot do not matter.
Otherwise there is no command, or its name is unknown, or the first slot at fault is named together
with the text that is no number. Every command is read from the arguments that are written for
it. -/
theorem ofArguments_grammar :
    (∀ args, (∃ c, ofArguments args = .ok c) ↔
      ∃ form ∈ forms, ∃ given, args = form.name :: given ∧
        ∀ (i : Nat) slot, form.slots[i]? = some slot → slot.Accepts given[i]?) ∧
    (∀ args c, ofArguments args = .ok c ↔
      ∃ form ∈ forms, ∃ given, args = form.name :: given ∧ c.name = form.name ∧
        Slot.TakeAll form.slots given c.fillings) ∧
    (∀ args e, ofArguments args = .error e ↔
      (args = [] ∧ e = .missingCommand) ∨
      (∃ name given, args = name :: given ∧ (∀ form ∈ forms, form.name ≠ name) ∧
        e = .unknownCommand name) ∨
      ∃ form ∈ forms, ∃ given, args = form.name :: given ∧
        Slot.FirstRefuses form.slots given e) ∧
    ∀ c : Command, c.Fits → ∀ extra, ofArguments (c.toArguments ++ extra) = .ok c := by
  refine ⟨fun args => ?_, fun args c => ofArguments_eq_ok_iff,
    fun args e => ofArguments_eq_error_iff, fun c hc extra => ?_⟩
  · constructor
    · rintro ⟨c, hc⟩
      obtain ⟨form, hform, given, rfl, -, htake⟩ := ofArguments_eq_ok_iff.mp hc
      exact ⟨form, hform, given, rfl, Slot.takeAll_iff_accepts.mp ⟨_, htake⟩⟩
    · rintro ⟨form, hform, given, rfl, haccepts⟩
      obtain ⟨fillings, htake⟩ := Slot.takeAll_iff_accepts.mpr haccepts
      change ∃ c, ofSlots form.name given = .ok c
      cases hread : ofSlots form.name given with
      | ok c => exact ⟨c, rfl⟩
      | error e =>
        -- Slots that are all filled leave nothing to name.
        have hrefuses := ((ofSlots_completes hform given).error e).mp hread
        exact absurd hrefuses htake.not_firstRefuses
  · exact ofArguments_eq_ok_iff.mpr (c.written hc extra)

/-- A request with identifiers that are as far out as they can be. -/
def outermost : Command :=
  .transfer ⟨-9223372036854775808, 9223372036854775807, Amount.zero, ""⟩

/-- The request is read from its arguments, whatever stands after them. A page number that fits the
wider word only is named, although a later slot is at fault as well. -/
theorem outermost_read :
    outermost.Fits ∧ ofArguments (outermost.toArguments ++ ["more"]) = .ok outermost ∧
      ofArguments ["list-entries", "+007", "2147483648", "x"] =
        .error (.invalidArgument "page_id" "2147483648" .tooLarge) := by
  obtain ⟨-, -, herror, hwritten⟩ := ofArguments_grammar
  have hfits : outermost.Fits := by
    unfold outermost
    exact ⟨by decide, by decide⟩
  refine ⟨hfits, hwritten outermost hfits ["more"], (herror _ _).mpr (Or.inr (Or.inr ?_))⟩
  have hdigits : Integer.Digits ['0', '0', '7'] 7 := ⟨by decide, by simp, by decide⟩
  have hseven : Integer.Spells "+007".toList 7 := .plus hdigits
  have hlarge : Integer.parse .int32 "2147483648" = .error .tooLarge := by rfl
  exact ⟨_, List.mem_of_getElem? (i := 5) rfl, _, rfl, Or.inr
    ⟨⟨.number 7, _, rfl, by decide, hseven⟩,
      Or.inl ⟨_, _, rfl, fun n => Integer.not_spells_of_parse hlarge, hlarge, rfl⟩⟩⟩

end Command
end FundsLedger
