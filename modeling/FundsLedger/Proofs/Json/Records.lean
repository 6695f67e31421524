import FundsLedger.Configuration.Json
import FundsLedger.Proofs.Json.Written
import FundsLedger.Proofs.Timestamp

/-!
Records keep everything they hold when they are written as JSON and read again. A currency is
checked on the way in: what stands where a document has a currency must be a well-formed code.
-/

namespace FundsLedger

namespace Json

variable {α : Type} {read : Json → Option α} {j : Json} {a : α} {names : List String}
  {values : List Json} {n : Int} {w : Word}

/-! ## Records -/

theorem lookup_zip (hnames : names.Nodup) (hlength : values.length = names.length) :
    (names.map fun name => (names.zip values).lookup name) = values.map some := by
  induction names generalizing values with
  | nil => simp_all
  | cons name names ih =>
    obtain ⟨v, values, rfl⟩ := List.exists_cons_of_length_eq_add_one hlength
    obtain ⟨hnew, hnames⟩ := List.nodup_cons.mp hnames
    have hothers : (names.map fun n => ((name, v) :: names.zip values).lookup n) =
        names.map fun n => (names.zip values).lookup n := by
      refine List.map_congr_left fun n hn => ?_
      have hne : (n == name) = false := by
        rw [beq_eq_false_iff_ne]
        rintro rfl
        exact hnew hn
      rw [List.lookup_cons, hne]
    simp only [List.zip_cons_cons, List.map_cons, hothers, ih hnames (by simpa using hlength)]
    simp

theorem length_filter_zip_le (hnames : names.Nodup) (values : List Json) (name : String) :
    ((names.zip values).filter (·.1 = name)).length ≤ 1 := by
  induction names generalizing values with
  | nil => simp
  | cons name' names ih =>
    obtain ⟨hnew, hnames⟩ := List.nodup_cons.mp hnames
    cases values with
    | nil => simp
    | cons v values =>
      have hrest := ih hnames values
      by_cases hname : name' = name
      · have hnone : (names.zip values).filter (·.1 = name) = [] := by
          rw [List.filter_eq_nil_iff]
          rintro ⟨n, x⟩ hmem heq
          have hn := (List.of_mem_zip hmem).1
          simp only [decide_eq_true_eq] at heq
          exact hnew (hname ▸ heq ▸ hn)
        simp [hname, hnone]
      · simpa [hname] using hrest

/-- The fields of a record are its values, in their order. -/
theorem fields?_record (hnames : names.Nodup) (hlength : values.length = names.length) :
    (record names values).fields? names = some (values.map some) := by
  rw [record, fields?, if_pos, lookup_zip hnames hlength]
  simp only [List.all_eq_true, decide_eq_true_eq]
  exact fun name _ => length_filter_zip_le hnames values name

theorem plain_record (h : ∀ v ∈ values, Plain v) : Plain (record names values) :=
  .object fun _ hm => h _ (List.of_mem_zip hm).2

/-! ## Fields -/

/-- The JSON value can be written, and it is read as `a`. -/
structure StandsFor (read : Json → Option α) (j : Json) (a : α) : Prop where
  plain : j.Plain
  read : read j = some a

theorem standsFor_id (h : Word.int64.Holds n) : StandsFor id? (.integer n) n :=
  ⟨.integer n, if_pos h⟩

theorem standsFor_nat32 {n : Nat} (h : Word.nat32.Holds n) : StandsFor nat32? (.integer n) n :=
  ⟨.integer n, by simp [nat32?, word?, h]⟩

theorem standsFor_nat64 {n : Nat} (h : Word.nat64.Holds n) : StandsFor nat64? (.integer n) n :=
  ⟨.integer n, by simp [nat64?, word?, h]⟩

theorem standsFor_amount (a : Amount) : StandsFor amount? (.integer a.units) a :=
  ⟨.integer a.units, Amount.ofInt?_eq_some_iff.mpr rfl⟩

theorem standsFor_timestamp (t : Timestamp) : StandsFor timestamp? (.string t.toText) t :=
  ⟨.string t.toText, t.parse?_toText⟩

theorem standsFor_string (s : String) : StandsFor string? (.string s) s := ⟨.string s, rfl⟩

/-- A value that may be missing is kept if the value itself is and is never printed as null. -/
theorem standsFor_optional (print : α → Json) {o : Option α}
    (h : ∀ a ∈ o, StandsFor read (print a) a ∧ print a ≠ null) :
    (ofOption print o).Plain ∧ optional? read (some (ofOption print o)) = some o := by
  cases o with
  | none => exact ⟨.null, rfl⟩
  | some a =>
    obtain ⟨⟨hplain, hread⟩, hnull⟩ := h a rfl
    refine ⟨hplain, ?_⟩
    rw [ofOption, optional?.eq_def]
    grind

end Json

open Json

/-! ## Round trips -/

theorem Currency.standsFor (c : Currency) : StandsFor ofJson? c.toJson c :=
  ⟨.string c.code, by simp [ofJson?, toJson, Currency.parse_eq_ok_iff.mpr rfl]; rfl⟩

theorem Postgres.Isolation.standsFor (i : Isolation) : StandsFor ofJson? i.toJson i :=
  ⟨.string i.name, by cases i <;> decide⟩

namespace Account

/-- The numbers of the account fit their words. -/
def Fits (a : Account) : Prop := Word.int64.Holds a.id

theorem standsFor {a : Account} (h : a.Fits) : StandsFor ofJson? a.toJson a := by
  have hid := standsFor_id h
  have hbalance := standsFor_amount a.balance
  have hcurrency := a.currency.standsFor
  have hcreatedAt := standsFor_timestamp a.createdAt
  have hfields : a.toJson.fields? fieldNames = some _ := fields?_record (by decide) rfl
  refine ⟨plain_record ?_, ?_⟩
  · simp [Plain.integer, Plain.string, hcurrency.plain]
  · simp [ofJson?, hfields, hid.read, hbalance.read, hcurrency.read, hcreatedAt.read, string?]

end Account

namespace Entry

/-- The numbers of the entry fit their words. -/
def Fits (e : Entry) : Prop := Word.int64.Holds e.id ∧ Word.int64.Holds e.accountId

theorem standsFor {e : Entry} (h : e.Fits) : StandsFor ofJson? e.toJson e := by
  have hid := standsFor_id h.1
  have haccountId := standsFor_id h.2
  have hamount := standsFor_amount e.amount
  have hcreatedAt := standsFor_timestamp e.createdAt
  have hfields : e.toJson.fields? fieldNames = some _ := fields?_record (by decide) rfl
  refine ⟨plain_record ?_, ?_⟩
  · simp [Plain.integer, Plain.string]
  · simp [ofJson?, hfields, hid.read, haccountId.read, hamount.read, hcreatedAt.read]

end Entry

namespace Transfer

/-- The numbers of the transfer fit their words. -/
def Fits (t : Transfer) : Prop :=
  Word.int64.Holds t.id ∧ Word.int64.Holds t.fromId ∧ Word.int64.Holds t.toId

theorem standsFor {t : Transfer} (h : t.Fits) : StandsFor ofJson? t.toJson t := by
  have hid := standsFor_id h.1
  have hfromId := standsFor_id h.2.1
  have htoId := standsFor_id h.2.2
  have hamount := standsFor_amount t.amount
  have hcreatedAt := standsFor_timestamp t.createdAt
  have hfields : t.toJson.fields? fieldNames = some _ := fields?_record (by decide) rfl
  refine ⟨plain_record ?_, ?_⟩
  · simp [Plain.integer, Plain.string]
  · simp [ofJson?, hfields, hid.read, hfromId.read, htoId.read, hamount.read, hcreatedAt.read]

end Transfer

namespace TransferRequest

/-- The numbers of the request fit their words. -/
def Fits (r : TransferRequest) : Prop := Word.int64.Holds r.fromId ∧ Word.int64.Holds r.toId

theorem standsFor {r : TransferRequest} (h : r.Fits) : StandsFor ofJson? r.toJson r := by
  have hfromId := standsFor_id h.1
  have htoId := standsFor_id h.2
  have hamount := standsFor_amount r.amount
  have hfields : r.toJson.fields? fieldNames = some _ := fields?_record (by decide) rfl
  refine ⟨plain_record ?_, ?_⟩
  · simp [Plain.integer, Plain.string]
  · simp [ofJson?, hfields, hfromId.read, htoId.read, hamount.read, string?]

end TransferRequest

namespace Receipt

/-- The numbers of the parts fit their words. -/
def Fits (r : Receipt) : Prop :=
  r.transfer.Fits ∧ r.fromEntry.Fits ∧ r.toEntry.Fits ∧ r.fromAccount.Fits ∧ r.toAccount.Fits

theorem standsFor {r : Receipt} (h : r.Fits) : StandsFor ofJson? r.toJson r := by
  have htransfer := r.transfer.standsFor h.1
  have hfromEntry := r.fromEntry.standsFor h.2.1
  have htoEntry := r.toEntry.standsFor h.2.2.1
  have hfromAccount := r.fromAccount.standsFor h.2.2.2.1
  have htoAccount := r.toAccount.standsFor h.2.2.2.2
  have hfields : r.toJson.fields? fieldNames = some _ := fields?_record (by decide) rfl
  refine ⟨plain_record ?_, ?_⟩
  · simp [htransfer.plain, hfromEntry.plain, htoEntry.plain, hfromAccount.plain,
      htoAccount.plain]
  · simp [ofJson?, hfields, htransfer.read, hfromEntry.read, htoEntry.read, hfromAccount.read,
      htoAccount.read]

end Receipt

namespace DatabaseOptions

/-- The numbers of the options fit their words. -/
def Fits (o : DatabaseOptions) : Prop :=
  Word.nat32.Holds o.maxConnections ∧ Word.nat64.Holds o.acquireTimeoutSecs

theorem standsFor {o : DatabaseOptions} (h : o.Fits) : StandsFor ofJson? o.toJson o := by
  have hurl := standsFor_optional Json.string (o := o.url) fun s _ => ⟨standsFor_string s, by simp⟩
  have hconnections := standsFor_nat32 h.1
  have htimeout := standsFor_nat64 h.2
  have hisolation := o.isolation.standsFor
  have hfields : o.toJson.fields? fieldNames = some _ := fields?_record (by decide) rfl
  refine ⟨plain_record ?_, ?_⟩
  · simp [hurl.1, Plain.integer, hisolation.plain]
  · simp [ofJson?, hfields, hurl.2, hconnections.read, htimeout.read, orUsual?, hisolation.read]

end DatabaseOptions

namespace RetryOptions

/-- The numbers of the options fit their words. -/
def Fits (o : RetryOptions) : Prop :=
  Word.nat32.Holds o.maxAttempts ∧ Word.nat64.Holds o.baseBackoffMs ∧
    Word.nat64.Holds o.maxBackoffMs

theorem standsFor {o : RetryOptions} (h : o.Fits) : StandsFor ofJson? o.toJson o := by
  have hattempts := standsFor_nat32 h.1
  have hbase := standsFor_nat64 h.2.1
  have hmax := standsFor_nat64 h.2.2
  have hfields : o.toJson.fields? fieldNames = some _ := fields?_record (by decide) rfl
  refine ⟨plain_record ?_, ?_⟩
  · simp [Plain.integer]
  · simp [ofJson?, hfields, hattempts.read, hbase.read, hmax.read]

end RetryOptions

namespace Configuration

/-- The numbers of the configuration fit their words. -/
def Fits (c : Configuration) : Prop :=
  c.database.Fits ∧ c.retry.Fits ∧ ∀ ms ∈ c.transferTimeoutMs, Word.nat64.Holds ms

theorem standsFor {c : Configuration} (h : c.Fits) : StandsFor ofJson? c.toJson c := by
  have hdatabase := c.database.standsFor h.1
  have hretry := c.retry.standsFor h.2.1
  have htimeout := standsFor_optional (fun ms : Nat => .integer ms) (o := c.transferTimeoutMs)
    fun ms hms => ⟨standsFor_nat64 (h.2.2 ms hms), by simp⟩
  have hmillis : ofOption (.integer ·) c.transferTimeoutMs =
      ofOption (fun ms : Nat => .integer ms) c.transferTimeoutMs := by
    cases c.transferTimeoutMs <;> rfl
  have hfields : c.toJson.fields? fieldNames = some _ := fields?_record (by decide) rfl
  rw [hmillis] at hfields
  refine ⟨plain_record ?_, ?_⟩
  · rw [hmillis]
    simp [Plain.string, Plain.bool, hdatabase.plain, hretry.plain, htimeout.1]
  · simp [ofJson?, hfields, string?, bool?, orUsual?, hdatabase.read, hretry.read, htimeout.2]

end Configuration

/-! ## Currencies in documents -/

namespace Json

variable {j : Json} {names : List String}

/-- The value of one field of a record with those fields. -/
def field? (names : List String) (name : String) (j : Json) : Option Json := do
  let values ← j.fields? names
  ((names.zip values).lookup name).join

theorem field?_of_fields? {values : List (Option Json)} (h : j.fields? names = some values)
    (name : String) : j.field? names name = ((names.zip values).lookup name).join := by
  simp [field?, h]

/-- A place inside a document: the fields that lead to it, each with all the fields of its
record. -/
abbrev Place := List (List String × String)

/-- The part of the value at that place. -/
def part? : Place → Json → Option Json
  | [], j => some j
  | (names, name) :: place, j => j.field? names name >>= part? place

end Json

theorem Currency.code_of_ofJson? {j : Json} {c : Currency} (h : ofJson? j = some c) :
    j = .string c.code := by
  cases j with
  | string code =>
    simp only [ofJson?] at h
    cases hparse : Currency.parse code with
    | error e => simp [hparse, Except.toOption] at h
    | ok c' =>
      rw [hparse] at h
      cases h
      rw [Currency.parse_eq_ok_iff.mp hparse]
  | _ => simp [ofJson?] at h

theorem Account.currency_of_ofJson? {j : Json} {a : Account} (h : ofJson? j = some a) :
    j.field? fieldNames "currency" = some (.string a.currency.code) := by
  simp only [ofJson?, Option.bind_eq_bind, Option.bind_eq_some_iff] at h
  obtain ⟨values, hvalues, h⟩ := h
  split at h
  · simp only [Option.bind_eq_some_iff] at h
    obtain ⟨_, -, _, -, _, -, c, ⟨jc, rfl, hc⟩, _, -, h⟩ := h
    cases h
    rw [field?_of_fields? hvalues, Currency.code_of_ofJson? hc]
    rfl
  · simp at h

theorem Receipt.accounts_of_ofJson? {j : Json} {r : Receipt} (h : ofJson? j = some r) :
    ∃ jf jt, j.field? fieldNames "from_account" = some jf ∧
      j.field? fieldNames "to_account" = some jt ∧
      Account.ofJson? jf = some r.fromAccount ∧ Account.ofJson? jt = some r.toAccount := by
  simp only [ofJson?, Option.bind_eq_bind, Option.bind_eq_some_iff] at h
  obtain ⟨values, hvalues, h⟩ := h
  split at h
  · simp only [Option.bind_eq_some_iff] at h
    obtain ⟨_, -, _, -, _, -, _, ⟨jf, rfl, hfrom⟩, _, ⟨jt, rfl, hto⟩, h⟩ := h
    cases h
    refine ⟨jf, jt, ?_, ?_, hfrom, hto⟩
    · rw [field?_of_fields? hvalues]
      rfl
    · rw [field?_of_fields? hvalues]
      rfl
  · simp at h

/-! ## Documents -/

/-- What is written as JSON. -/
inductive Document where
  | request
  | currency
  | account
  | entry
  | transfer
  | receipt
  | isolation
  | retry
  | database
  | configuration
deriving DecidableEq

namespace Document

/-- The values of that kind. -/
def Value : Document → Type
  | request => TransferRequest
  | currency => Currency
  | account => Account
  | entry => Entry
  | transfer => Transfer
  | receipt => Receipt
  | isolation => Postgres.Isolation
  | retry => RetryOptions
  | database => DatabaseOptions
  | configuration => Configuration

/-- The value as JSON. -/
def toJson : (d : Document) → d.Value → Json
  | request => TransferRequest.toJson
  | currency => Currency.toJson
  | account => Account.toJson
  | entry => Entry.toJson
  | transfer => Transfer.toJson
  | receipt => Receipt.toJson
  | isolation => Postgres.Isolation.toJson
  | retry => RetryOptions.toJson
  | database => DatabaseOptions.toJson
  | configuration => Configuration.toJson

/-- The value that a JSON value stands for. -/
def ofJson? : (d : Document) → Json → Option d.Value
  | request => TransferRequest.ofJson?
  | currency => Currency.ofJson?
  | account => Account.ofJson?
  | entry => Entry.ofJson?
  | transfer => Transfer.ofJson?
  | receipt => Receipt.ofJson?
  | isolation => Postgres.Isolation.ofJson?
  | retry => RetryOptions.ofJson?
  | database => DatabaseOptions.ofJson?
  | configuration => Configuration.ofJson?

/-- The numbers of the value fit their words. -/
def Fits : (d : Document) → d.Value → Prop
  | request => TransferRequest.Fits
  | account => Account.Fits
  | entry => Entry.Fits
  | transfer => Transfer.Fits
  | receipt => Receipt.Fits
  | retry => RetryOptions.Fits
  | database => DatabaseOptions.Fits
  | configuration => Configuration.Fits
  | currency => fun _ => True
  | isolation => fun _ => True

/-- The value that a text stands for. -/
def decode? (d : Document) (text : String) : Option d.Value := Json.parse? text >>= d.ofJson?

/-- The currencies in the value. -/
def currencies : (d : Document) → d.Value → List Currency
  | currency => fun c => [c]
  | account => fun a => [a.currency]
  | receipt => fun r => [r.fromAccount.currency, r.toAccount.currency]
  | _ => fun _ => []

/-- The places of the currencies. -/
def currencyPlaces : Document → List Place
  | currency => [[]]
  | account => [[(Account.fieldNames, "currency")]]
  | receipt =>
    [[(Receipt.fieldNames, "from_account"), (Account.fieldNames, "currency")],
      [(Receipt.fieldNames, "to_account"), (Account.fieldNames, "currency")]]
  | _ => []

theorem standsFor (d : Document) {v : d.Value} (h : d.Fits v) :
    StandsFor d.ofJson? (d.toJson v) v :=
  match d with
  | request => TransferRequest.standsFor h
  | currency => Currency.standsFor v
  | account => Account.standsFor h
  | entry => Entry.standsFor h
  | transfer => Transfer.standsFor h
  | receipt => Receipt.standsFor h
  | isolation => Postgres.Isolation.standsFor v
  | retry => RetryOptions.standsFor h
  | database => DatabaseOptions.standsFor h
  | configuration => Configuration.standsFor h

/-- A value that is read has its currencies from their places, by their codes. -/
theorem codes_of_ofJson? (d : Document) {j : Json} {v : d.Value} (h : d.ofJson? j = some v) :
    d.currencyPlaces.map (fun place => j.part? place) =
      (d.currencies v).map fun c => some (.string c.code) := by
  cases d with
  | currency =>
    rw [Currency.code_of_ofJson? h]
    rfl
  | account => simp [currencyPlaces, currencies, part?, Account.currency_of_ofJson? h]
  | receipt =>
    obtain ⟨jf, jt, hfrom, hto, hfrom', hto'⟩ := Receipt.accounts_of_ofJson? h
    simp [currencyPlaces, currencies, part?, hfrom, hto, Account.currency_of_ofJson? hfrom',
      Account.currency_of_ofJson? hto']
  | _ => rfl

/-- What is printed, on one line or on several, is read as the same value. Whatever else is read has
well-formed currencies, and they are those that stand in the text at their places. -/
theorem decode?_printed (d : Document) :
    (∀ v : d.Value, d.Fits v →
      d.decode? (d.toJson v).print = some v ∧ d.decode? (d.toJson v).pretty = some v) ∧
    ∀ (text : String) (v : d.Value), d.decode? text = some v →
      ∃ j, Json.parse? text = some j ∧
        (d.currencyPlaces.map fun place => j.part? place) =
          ((d.currencies v).map fun c => some (.string c.code)) ∧
        ∀ c ∈ d.currencies v, IsCurrencyCode c.code := by
  refine ⟨fun v hfits => ?_, fun text v hdecode => ?_⟩
  · have hstands := d.standsFor hfits
    constructor
    · rw [decode?, parse?_print hstands.plain]
      exact hstands.read
    · rw [decode?, parse?_pretty hstands.plain]
      exact hstands.read
  · obtain ⟨j, hparse, hread⟩ := Option.bind_eq_some_iff.mp hdecode
    exact ⟨j, hparse, d.codes_of_ofJson? hread, fun c _ => c.wellFormed⟩

/-- The last moment of the year 9999, in a leap second. -/
def lastMoment : Timestamp where
  date := ⟨9999, 12, 31, by decide, by decide, by decide⟩
  hour := 23
  minute := 59
  second := 60
  nanos := 999999999
  hour_valid := by decide
  minute_valid := by decide
  second_valid := by decide
  nanos_valid := by decide

/-- A receipt whose identifiers are the outermost ones. Its owners have names that are not printed
as they are. -/
def outermost : Receipt where
  transfer := ⟨9223372036854775807, -9223372036854775808, 0, Amount.zero, lastMoment⟩
  fromEntry := ⟨1, 2, ⟨-9223372036854775807, by decide, by decide⟩, Timestamp.epoch⟩
  toEntry := ⟨3, 4, ⟨9223372036854775806, by decide, by decide⟩, lastMoment⟩
  fromAccount := ⟨5, "\"\\\n\x00", Amount.zero, ⟨"ZZZ", by decide⟩, lastMoment⟩
  toAccount := ⟨6, "😀", Amount.zero, ⟨"AAA", by decide⟩, Timestamp.epoch⟩

theorem outermost_printed :
    Receipt.Fits outermost ∧ decode? .receipt outermost.toJson.pretty = some outermost ∧
      ∃ j, Json.parse? outermost.toJson.pretty = some j ∧
        (currencyPlaces .receipt).map (fun place => j.part? place) =
          [some (.string "ZZZ"), some (.string "AAA")] ∧
        ∀ c ∈ currencies .receipt outermost, IsCurrencyCode c.code := by
  have hfits : Receipt.Fits outermost := by
    unfold Receipt.Fits Transfer.Fits Entry.Fits Account.Fits
    decide
  have hdecode := ((decode?_printed .receipt).1 outermost hfits).2
  exact ⟨hfits, hdecode, (decode?_printed .receipt).2 _ _ hdecode⟩

end Document
end FundsLedger
