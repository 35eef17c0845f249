import InputGuard.Proofs.OrderedMap
import InputGuard.Rule.Record

/-! # What extraction records

An argument is kept if its value is a scalar or a list. The record of a list of
arguments holds under every name what was extracted from the last argument of
that name that is kept (`get?_extract`). Its entries stand where the names' first
arguments that are kept stand (`keys_extract`); both together, with what the values
are recorded as, are all there is to say about a record (`extract_keeps`). -/

namespace InputGuard

open Schema (Argument Shape Value)

/-- Values of the other shapes are dropped. -/
def Schema.Argument.isKept (a : Argument) : Bool :=
  a.value.shape ∉ [.null, .object, .variable]

namespace Rule

theorem Extracted.isSome_ofValue? (a : Argument) : (ofValue? a.value).isSome = a.isKept := by
  unfold Schema.Argument.isKept
  cases a.value <;> rfl

/-- What is extracted from the last argument of a name that is kept. -/
def kept (name : String) (arguments : List Argument) : Option Extracted :=
  (arguments.filter fun a => a.name = name && a.isKept).getLast? >>= (Extracted.ofValue? ·.value)

/-- Only the arguments of the name matter, in their order. -/
theorem kept_eq_filter (name : String) (arguments : List Argument) :
    kept name arguments = kept name (arguments.filter (·.name = name)) := by
  unfold kept
  rw [List.filter_filter]
  refine congrArg (fun l => l.getLast? >>= _) (List.filter_congr fun a _ => ?_)
  by_cases h : a.name = name <;> simp [h]

theorem kept_skip {name : String} {a : Argument} (h : ¬(a.name = name ∧ a.isKept = true))
    (before after : List Argument) :
    kept name (before ++ a :: after) = kept name (before ++ after) := by
  unfold kept
  have ha : (a.name = name && a.isKept) = false := by simpa using h
  rw [List.filter_append, List.filter_append, List.filter_cons_of_neg (by simp [ha])]

/-- What an argument puts into a record, under its name. -/
def recorded? (a : Argument) : Option (String × Extracted) :=
  (Extracted.ofValue? a.value).map (a.name, ·)

theorem recorded?_eq_none {a : Argument} (h : a.isKept = false) : recorded? a = none := by
  rw [← Extracted.isSome_ofValue?, Option.isSome_eq_false_iff, Option.isNone_iff_eq_none] at h
  rw [recorded?, h]
  rfl

theorem exists_recorded? {a : Argument} (h : a.isKept = true) :
    ∃ e, Extracted.ofValue? a.value = some e ∧ recorded? a = some (a.name, e) := by
  rw [← Extracted.isSome_ofValue?] at h
  obtain ⟨e, he⟩ := Option.isSome_iff_exists.mp h
  refine ⟨e, he, ?_⟩
  rw [recorded?, he]
  rfl

theorem insert_eq (r : Record) (a : Argument) :
    r.insert a.name a.value = ((recorded? a).toList).foldl (fun m p => m.put p.1 p.2) r := by
  unfold Record.insert recorded?
  cases Extracted.ofValue? a.value <;> rfl

theorem extract_eq_ofList (arguments : List Argument) :
    Record.extract arguments = .ofList (arguments.filterMap recorded?) := by
  suffices ∀ r : Record, arguments.foldl (fun r a => r.insert a.name a.value) r =
      (arguments.filterMap recorded?).foldl (fun m p => m.put p.1 p.2) r from this .empty
  induction arguments with
  | nil => exact fun _ => rfl
  | cons a as ih =>
    intro r
    rw [List.foldl_cons, ih, insert_eq, List.filterMap_cons]
    cases recorded? a <;> rfl

theorem last?_entries (name : String) (arguments : List Argument) :
    Entries.last? name (arguments.filterMap recorded?) = kept name arguments := by
  induction arguments using List.reverseRecOn with
  | nil => rfl
  | append_singleton as a ih =>
    rw [List.filterMap_append, Entries.last?_append, ih]
    unfold kept
    rw [List.filter_append, List.getLast?_append]
    cases h : a.isKept with
    | false => simp [recorded?_eq_none h, h, Entries.last?]
    | true =>
      obtain ⟨e, he, hrecorded⟩ := exists_recorded? h
      by_cases hn : a.name = name
      · simp [hrecorded, h, hn, he, Entries.last?]
      · simp [hrecorded, h, hn, Entries.last?]

theorem get?_extract (arguments : List Argument) (name : String) :
    (Record.extract arguments).get? name = kept name arguments := by
  rw [extract_eq_ofList, OrderedMap.get?_ofList, last?_entries]

theorem ofPairs_eq_extract (arguments : List Argument) :
    Record.ofPairs (arguments.map fun a => (a.name, a.value)) = Record.extract arguments :=
  List.foldl_map

/-! ## What a value is recorded as -/

/-- The text that a scalar stands for. -/
inductive HasText : Value → String → Prop where
  | string (text : String) : HasText (.string text) text
  | int (literal : String) : HasText (.int literal) literal
  | float (literal : String) : HasText (.float literal) literal
  | enum (name : String) : HasText (.enum name) name
  | true : HasText (.boolean true) "true"
  | false : HasText (.boolean false) "false"

/-- The texts of the scalars among the members of a list. Other members are passed
over; the members of a list inside are no members. -/
inductive HaveTexts : List Value → List String → Prop where
  | nil : HaveTexts [] []
  | scalar {v : Value} {text : String} {members : List Value} {texts : List String}
      (head : HasText v text) (tail : HaveTexts members texts) :
      HaveTexts (v :: members) (text :: texts)
  | other {v : Value} {members : List Value} {texts : List String}
      (head : ∀ text, ¬HasText v text) (tail : HaveTexts members texts) :
      HaveTexts (v :: members) texts

inductive RecordedAs : Value → Extracted → Prop where
  | scalar {v : Value} {text : String} (h : HasText v text) : RecordedAs v (.scalar text)
  | list {members : List Value} {texts : List String} (h : HaveTexts members texts) :
      RecordedAs (.list members) (.list texts)

theorem literal?_eq_some_iff {v : Value} {text : String} :
    v.literal? = some text ↔ HasText v text := by
  constructor
  · intro h
    unfold Value.literal? at h
    split at h
    · cases h
      exact .string text
    · cases h
      exact .int text
    · cases h
      exact .float text
    · cases h
      exact .enum text
    · next b =>
      cases b with
      | false => cases h; exact .false
      | true => cases h; exact .true
    all_goals cases h
  · intro h
    cases h <;> rfl

theorem haveTexts_filterMap (members : List Value) :
    HaveTexts members (members.filterMap Value.literal?) := by
  induction members with
  | nil => exact .nil
  | cons v members ih =>
    cases h : v.literal? with
    | some text =>
      rw [List.filterMap_cons_some h]
      exact .scalar (literal?_eq_some_iff.mp h) ih
    | none =>
      rw [List.filterMap_cons_none h]
      have hnone : ∀ text, ¬HasText v text := by
        intro text ht
        rw [literal?_eq_some_iff.mpr ht] at h
        cases h
      exact .other hnone ih

theorem haveTexts_nil {members : List Value} {texts : List String} (h : HaveTexts members texts)
    (hnone : ∀ v ∈ members, ∀ text, ¬HasText v text) : texts = [] := by
  induction h with
  | nil => rfl
  | scalar head _ _ => exact absurd head (hnone _ List.mem_cons_self _)
  | other _ _ ih => exact ih (List.forall_mem_of_forall_mem_cons hnone)

theorem recordedAs_of_ofValue? {v : Value} {e : Extracted} (h : Extracted.ofValue? v = some e) :
    RecordedAs v e := by
  unfold Extracted.ofValue? at h
  split at h
  · cases h
    exact .list (haveTexts_filterMap _)
  · obtain ⟨text, ht, rfl⟩ := Option.map_eq_some_iff.mp h
    exact .scalar (literal?_eq_some_iff.mp ht)

theorem isKept_iff (a : Argument) :
    a.isKept = true ↔ (∃ text, HasText a.value text) ∨ ∃ members, a.value = .list members := by
  have hscalar : (∃ text, HasText a.value text) ↔ a.value.literal?.isSome = true := by
    rw [Option.isSome_iff_exists]
    exact exists_congr fun text => literal?_eq_some_iff.symm
  rw [hscalar, Schema.Argument.isKept]
  cases a.value <;> simp [Value.shape, Value.literal?]

/-! ## The entries of a record -/

/-- The names of the arguments that are kept, each where it first stands. -/
def keptNames (arguments : List Argument) : List String :=
  ((arguments.filter Argument.isKept).map Argument.name).eraseDups

/-- The last argument of a name that is kept. -/
def lastKept? (name : String) (arguments : List Argument) : Option Argument :=
  (arguments.filter fun a => a.name = name && a.isKept).getLast?

theorem kept_eq_bind (name : String) (arguments : List Argument) :
    kept name arguments = lastKept? name arguments >>= (Extracted.ofValue? ·.value) := rfl

theorem keys_extract (arguments : List Argument) :
    (Record.extract arguments).keys = keptNames arguments := by
  have hnames : (arguments.filterMap recorded?).map Prod.fst =
      (arguments.filter Argument.isKept).map Argument.name := by
    induction arguments with
    | nil => rfl
    | cons a as ih =>
      cases h : a.isKept with
      | false =>
        rw [List.filterMap_cons_none (recorded?_eq_none h), List.filter_cons_of_neg (by simp [h]), ih]
      | true =>
        obtain ⟨e, -, he⟩ := exists_recorded? h
        rw [List.filterMap_cons_some he, List.filter_cons_of_pos h, List.map_cons, List.map_cons, ih]
  rw [extract_eq_ofList, OrderedMap.keys_ofList, hnames, keptNames]

theorem recordedAs_of_get? {arguments : List Argument} {name : String} {e : Extracted}
    (h : (Record.extract arguments).get? name = some e) :
    ∃ a, lastKept? name arguments = some a ∧ RecordedAs a.value e := by
  rw [get?_extract, kept_eq_bind] at h
  obtain ⟨a, ha, he⟩ := Option.bind_eq_some_iff.mp h
  exact ⟨a, ha, recordedAs_of_ofValue? he⟩

theorem get?_of_lastKept? {arguments : List Argument} {a : Argument} {members : List Value}
    (h : lastKept? a.name arguments = some a) (hlist : a.value = .list members) :
    ∃ texts, (Record.extract arguments).get? a.name = some (.list texts) ∧
      HaveTexts members texts := by
  refine ⟨members.filterMap Value.literal?, ?_, haveTexts_filterMap members⟩
  rw [get?_extract, kept_eq_bind]
  refine Option.bind_eq_some_iff.mpr ⟨a, h, ?_⟩
  rw [hlist]
  rfl

/-- What the record of a list of arguments keeps. -/
structure Keeps (arguments : List Argument) : Prop where
  /-- scalars and lists are kept -/
  kept : ∀ a : Argument, a.isKept = true ↔
    (∃ text, HasText a.value text) ∨ ∃ members, a.value = .list members
  /-- a name has an entry exactly if an argument of the name is kept -/
  named : ∀ name, name ∈ (Record.extract arguments).keys ↔
    ∃ a ∈ arguments, a.name = name ∧ a.isKept = true
  /-- the entries stand where the names' first arguments do that are kept, one for
  each name, and have the values of the last ones -/
  entries : List.Forall₂
    (fun name entry => entry.1 = name ∧
      ∃ a, lastKept? name arguments = some a ∧ RecordedAs a.value entry.2)
    (keptNames arguments) (Record.extract arguments).entries
  /-- an argument that is not kept might as well not be there -/
  dropped : ∀ before a after, arguments = before ++ a :: after → a.isKept = false →
    Record.extract arguments = Record.extract (before ++ after)
  /-- a list without scalars leaves an empty list -/
  emptied : ∀ a members, lastKept? a.name arguments = some a → a.value = .list members →
    (∀ v ∈ members, ∀ text, ¬HasText v text) →
    (Record.extract arguments).get? a.name = some (.list [])
  /-- pairs of names and values leave the same record -/
  paired : Record.ofPairs (arguments.map fun a => (a.name, a.value)) = Record.extract arguments

theorem extract_keeps (arguments : List Argument) : Keeps arguments := by
  constructor
  case kept => exact isKept_iff
  case named =>
    intro name
    rw [keys_extract, keptNames, List.mem_eraseDups, List.mem_map]
    constructor
    · rintro ⟨a, ha, hname⟩
      obtain ⟨hmem, hkept⟩ := List.mem_filter.mp ha
      exact ⟨a, hmem, hname, hkept⟩
    · rintro ⟨a, hmem, hname, hkept⟩
      exact ⟨a, List.mem_filter.mpr ⟨hmem, hkept⟩, hname⟩
  case entries =>
    rw [← keys_extract]
    refine (OrderedMap.forall₂_entries _).imp fun name entry h => ?_
    exact ⟨h.1, recordedAs_of_get? h.2⟩
  case dropped =>
    rintro before a after rfl h
    rw [extract_eq_ofList, extract_eq_ofList, List.filterMap_append, List.filterMap_append,
      List.filterMap_cons_none (recorded?_eq_none h)]
  case emptied =>
    intro a members hlast hlist hnone
    obtain ⟨texts, hget, htexts⟩ := get?_of_lastKept? hlast hlist
    rw [hget, haveTexts_nil htexts hnone]
  case paired => exact ofPairs_eq_extract arguments

end Rule
end InputGuard
