import InputGuard.Proofs.Rule.Resolve
import Mathlib.Data.List.Forall2
import Mathlib.Tactic.SplitIfs

/-! # Complete records

A record is complete if it names a kind and holds, for a field of the given type,
what this kind needs. It then stands for a rule that has the values read from it;
a record that is not complete is refused for the first thing that is wrong with
it (`complete_or_refuses`). Nothing here depends on how records are resolved. -/

namespace InputGuard.Rule

open Number (readInteger? readFloat?)

/-! ## What a record holds -/

namespace Record

def HasScalar (r : Record) (name text : String) : Prop := r.get? name = some (.scalar text)

/-- The texts under a name; a scalar counts as a list of one. -/
inductive HasTexts (r : Record) (name : String) : List String → Prop where
  | list {texts : List String} (held : r.get? name = some (.list texts)) : HasTexts r name texts
  | scalar {text : String} (held : r.get? name = some (.scalar text)) : HasTexts r name [text]

/-- The text under a name, if it is a scalar, as a list of one. -/
inductive HasOne (r : Record) (name : String) : List String → Prop where
  | scalar {text : String} (held : r.HasScalar name text) : HasOne r name [text]

variable {r : Record} {name : String}

theorem scalar?_eq_some_iff {text : String} :
    r.scalar? name = some text ↔ r.HasScalar name text := by
  unfold scalar? HasScalar
  split
  · next held => simp [held]
  · next _ other => exact ⟨nofun, fun h => absurd h (other text)⟩

theorem scalar?_eq_none (h : ∀ text, ¬r.HasScalar name text) : r.scalar? name = none :=
  Option.eq_none_iff_forall_ne_some.mpr fun text hs => h text (scalar?_eq_some_iff.mp hs)

theorem list?_eq_some_iff {texts : List String} :
    r.list? name = some texts ↔ r.HasTexts name texts := by
  constructor
  · intro h
    unfold list? at h
    split at h
    · next held =>
      cases h
      exact .scalar held
    · next held =>
      cases h
      exact .list held
    · cases h
  · intro h
    cases h with
    | list held => simp [list?, held]
    | scalar held => simp [list?, held]

theorem list?_eq_none (h : ∀ texts, ¬r.HasTexts name texts) : r.list? name = none :=
  Option.eq_none_iff_forall_ne_some.mpr fun texts ht => h texts (list?_eq_some_iff.mp ht)

end Record

/-! ## The grammar in terms of names -/

/-- A text is read as a value of the type of this name. -/
def Reads (type text : String) : Default → Prop
  | .string s => type = "String" ∧ s = text
  | .integer v => type = "Int" ∧ readInteger? text.toList = some v
  | .float x => type = "Float" ∧ readFloat? text.toList = some x
  | .boolean b => type = "Boolean" ∧ Text.trim text.toList = (toString b).toList

theorem Reads.integer {type text : String} {v : Int64} (h : Reads type text (.integer v)) :
    readInteger? text.toList = some v :=
  h.2

theorem Reads.float {type text : String} {x : Number.Binary64} (h : Reads type text (.float x)) :
    readFloat? text.toList = some x :=
  h.2

def Readable (type text : String) : Prop := ∃ value, Reads type text value

def Members.typeName : Members → String
  | .strings _ => "String"
  | .integers _ => "Int"
  | .floats _ => "Float"

/-- Types whose fields can have a membership check. -/
def membershipTypes : List String := ["String", "Int", "Float"]

/-- Types whose fields can have a default. -/
def defaultTypes : List String := ["String", "Int", "Float", "Boolean"]

/-- What a record must hold besides its kind. -/
def Needs (r : Record) (type : String) : Kind → Prop
  | .regex => ∃ expression, r.HasScalar "expression" expression
  | .membership => type ∈ membershipTypes ∧
    ∃ texts, r.HasTexts ("array" ++ type) texts ∧ ∀ text ∈ texts, Readable type text
  | .filter => ∃ filter : FilterKind, r.HasScalar "filter" filter.name ∧
    (filter = .default → type ∈ defaultTypes ∧
      ∃ text, r.HasScalar ("value" ++ type) text ∧ Readable type text)
  | _ => True

/-- The record names a kind and holds what the kind needs. -/
def Complete (r : Record) (type : String) : Prop :=
  ∃ kind : Kind, r.HasScalar "type" kind.name ∧ Needs r type kind

/-- The rule that a complete record stands for. -/
inductive Documented (r : Record) (type : String) : Rule → Prop where
  | check {check : Check} (kind : r.HasScalar "type" check.kind.name)
      (plain : check ∈ [.required, .number, .string, .boolean, .email, .url]) :
      Documented r type (.check check)
  | regex {expression : String} (kind : r.HasScalar "type" "regex")
      (recorded : r.HasScalar "expression" expression) :
      Documented r type (.check (.regex expression))
  | membership {members : Members} {texts : List String} (kind : r.HasScalar "type" "in")
      (variant : members.typeName = type) (recorded : r.HasTexts ("array" ++ type) texts)
      (read : List.Forall₂ (Reads type) texts members.values) :
      Documented r type (.check (.membership members))
  | filter {filter : Filter} (kind : r.HasScalar "type" "filter")
      (name : r.HasScalar "filter" filter.kind.name)
      (plain : filter ∈ [.lowercase, .uppercase, .lowerFirst, .upperFirst, .trim]) :
      Documented r type (.filter filter)
  | default {value : Default} {text : String} (kind : r.HasScalar "type" "filter")
      (name : r.HasScalar "filter" "default")
      (recorded : r.HasScalar ("value" ++ type) text) (read : Reads type text value) :
      Documented r type (.filter (.default value))

/-- What is wrong first with a parameter whose name depends on the type of the field. -/
inductive Unusable (what : String) (supported : List String) (parameter type : String)
    (held : List String → Prop) : String → Prop where
  | type (unsupported : type ∉ supported) :
      Unusable what supported parameter type held
        ("Unexpected field type " ++ type ++ " for " ++ what ++ "; expected one of " ++
          ", ".intercalate supported ++ ".")
  | missing (supports : type ∈ supported) (missing : ∀ texts, ¬held texts) :
      Unusable what supported parameter type held (parameter ++ " must be defined.")
  | unreadable {before after : List String} {text : String} (supports : type ∈ supported)
      (recorded : held (before ++ text :: after))
      (readable : ∀ t ∈ before, Readable type t) (unreadable : ¬Readable type text) :
      Unusable what supported parameter type held
        (parameter ++ " value '" ++ text ++ "' is not a valid " ++ type ++ ".")

/-- What is wrong first with a record. -/
inductive Refuses (r : Record) (type : String) : String → Prop where
  | noKind (missing : ∀ text, ¬r.HasScalar "type" text) :
      Refuses r type "@validator requires the 'type' argument."
  | unknownKind {name : String} (kind : r.HasScalar "type" name)
      (unknown : ∀ k : Kind, k.name ≠ name) :
      Refuses r type ("Invalid validator type '" ++ name ++ "'.")
  | noExpression (kind : r.HasScalar "type" "regex")
      (missing : ∀ text, ¬r.HasScalar "expression" text) :
      Refuses r type "expression must be set to validate a pattern."
  | members {message : String} (kind : r.HasScalar "type" "in")
      (unusable : Unusable "in" membershipTypes ("array" ++ type) type
        (r.HasTexts ("array" ++ type)) message) : Refuses r type message
  | noFilter (kind : r.HasScalar "type" "filter") (missing : ∀ text, ¬r.HasScalar "filter" text) :
      Refuses r type "'filter' must be set when type is filter."
  | unknownFilter {name : String} (kind : r.HasScalar "type" "filter")
      (filter : r.HasScalar "filter" name) (unknown : ∀ f : FilterKind, f.name ≠ name) :
      Refuses r type ("Invalid filter '" ++ name ++ "'.")
  | default {message : String} (kind : r.HasScalar "type" "filter")
      (filter : r.HasScalar "filter" "default")
      (unusable : Unusable "default filter" defaultTypes ("value" ++ type) type
        (r.HasOne ("value" ++ type)) message) : Refuses r type message

/-! ## Reading texts -/

theorem readable_string (text : String) : Readable "String" text :=
  ⟨.string text, rfl, rfl⟩

theorem readable_integer {text : String} :
    Readable "Int" text ↔ ∃ v, readInteger? text.toList = some v := by
  constructor
  · rintro ⟨value, h⟩
    cases value <;> simp_all [Reads]
  · rintro ⟨v, h⟩
    exact ⟨.integer v, rfl, h⟩

theorem readable_float {text : String} :
    Readable "Float" text ↔ ∃ x, readFloat? text.toList = some x := by
  constructor
  · rintro ⟨value, h⟩
    cases value <;> simp_all [Reads]
  · rintro ⟨x, h⟩
    exact ⟨.float x, rfl, h⟩

theorem readBoolean?_eq_some_iff {text : List Char} {b : Bool} :
    readBoolean? text = some b ↔ Text.trim text = (toString b).toList := by
  unfold readBoolean?
  dsimp only
  split_ifs with ht hf
  · cases b <;> simp [ht, toString]
  · cases b <;> simp [hf, toString]
  · cases b <;> simpa [toString]

theorem readable_boolean {text : String} :
    Readable "Boolean" text ↔ ∃ b, readBoolean? text.toList = some b := by
  simp only [readBoolean?_eq_some_iff]
  constructor
  · rintro ⟨value, h⟩
    cases value with
    | boolean b => exact ⟨b, h.2⟩
    | _ => simp [Reads] at h
  · rintro ⟨b, h⟩
    exact ⟨.boolean b, rfl, h⟩

/-! ## Complete or refused -/

variable {r : Record} {type : String}

theorem exists_values {α : Type} (wrap : α → Default) {texts : List String}
    (h : ∀ text ∈ texts, ∃ v, Reads type text (wrap v)) :
    ∃ vs : List α, List.Forall₂ (Reads type) texts (vs.map wrap) := by
  induction texts with
  | nil => exact ⟨[], .nil⟩
  | cons text texts ih =>
    obtain ⟨v, hv⟩ := h text List.mem_cons_self
    obtain ⟨vs, hvs⟩ := ih fun t ht => h t (List.mem_cons_of_mem text ht)
    exact ⟨v :: vs, .cons hv hvs⟩

theorem exists_members {texts : List String} (supports : type ∈ membershipTypes)
    (readable : ∀ text ∈ texts, Readable type text) :
    ∃ members : Members, members.typeName = type ∧
      List.Forall₂ (Reads type) texts members.values := by
  simp only [membershipTypes, List.mem_cons, List.not_mem_nil, or_false] at supports
  obtain rfl | rfl | rfl := supports
  · obtain ⟨ms, hms⟩ := exists_values .string fun text _ => ⟨text, rfl, rfl⟩
    exact ⟨.strings ms, rfl, hms⟩
  · simp only [readable_integer] at readable
    obtain ⟨ms, hms⟩ := exists_values .integer fun text ht =>
      (readable text ht).imp fun _ hv => ⟨rfl, hv⟩
    exact ⟨.integers ms, rfl, hms⟩
  · simp only [readable_float] at readable
    obtain ⟨ms, hms⟩ := exists_values .float fun text ht =>
      (readable text ht).imp fun _ hv => ⟨rfl, hv⟩
    exact ⟨.floats ms, rfl, hms⟩

theorem Complete.documented (h : Complete r type) : ∃ rule, Documented r type rule := by
  obtain ⟨kind, hk, needs⟩ := h
  cases kind with
  | regex =>
    obtain ⟨expression, he⟩ := needs
    exact ⟨_, .regex hk he⟩
  | membership =>
    obtain ⟨supports, texts, recorded, readable⟩ := needs
    obtain ⟨members, variant, read⟩ := exists_members supports readable
    exact ⟨_, .membership hk variant recorded read⟩
  | filter =>
    obtain ⟨filter, hf, needs⟩ := needs
    cases filter with
    | default =>
      obtain ⟨-, text, recorded, value, read⟩ := needs rfl
      exact ⟨_, .default hk hf recorded read⟩
    | lowercase => exact ⟨_, @Documented.filter r type .lowercase hk hf (by decide)⟩
    | uppercase => exact ⟨_, @Documented.filter r type .uppercase hk hf (by decide)⟩
    | lowerFirst => exact ⟨_, @Documented.filter r type .lowerFirst hk hf (by decide)⟩
    | upperFirst => exact ⟨_, @Documented.filter r type .upperFirst hk hf (by decide)⟩
    | trim => exact ⟨_, @Documented.filter r type .trim hk hf (by decide)⟩
  | required => exact ⟨_, @Documented.check r type .required hk (by decide)⟩
  | number => exact ⟨_, @Documented.check r type .number hk (by decide)⟩
  | string => exact ⟨_, @Documented.check r type .string hk (by decide)⟩
  | boolean => exact ⟨_, @Documented.check r type .boolean hk (by decide)⟩
  | url => exact ⟨_, @Documented.check r type .url hk (by decide)⟩
  | email => exact ⟨_, @Documented.check r type .email hk (by decide)⟩

theorem Members.typeName_mem (members : Members) : members.typeName ∈ membershipTypes := by
  cases members <;> simp [typeName, membershipTypes]

theorem Reads.mem_defaultTypes {text : String} {value : Default} (h : Reads type text value) :
    type ∈ defaultTypes := by
  cases value <;> simp [defaultTypes, h.1]

theorem readable_of_forall₂ {texts : List String} {values : List Default}
    (h : List.Forall₂ (Reads type) texts values) : ∀ text ∈ texts, Readable type text := by
  induction h with
  | nil => simp
  | cons read _ ih => exact List.forall_mem_cons.mpr ⟨⟨_, read⟩, ih⟩

theorem Documented.complete {rule : Rule} (h : Documented r type rule) : Complete r type := by
  cases h with
  | @check check kind plain =>
    refine ⟨check.kind, kind, ?_⟩
    simp only [List.mem_cons, List.not_mem_nil, or_false] at plain
    obtain rfl | rfl | rfl | rfl | rfl | rfl := plain <;> trivial
  | regex kind recorded => exact ⟨.regex, kind, _, recorded⟩
  | @membership members texts kind variant recorded read =>
    exact ⟨.membership, kind, variant ▸ members.typeName_mem, texts, recorded,
      readable_of_forall₂ read⟩
  | @filter filter kind name plain =>
    refine ⟨.filter, kind, filter.kind, name, fun hd => ?_⟩
    simp only [List.mem_cons, List.not_mem_nil, or_false] at plain
    obtain rfl | rfl | rfl | rfl | rfl := plain <;> cases hd
  | @default value text kind name recorded read =>
    exact ⟨.filter, kind, .default, name, fun _ =>
      ⟨read.mem_defaultTypes, text, recorded, value, read⟩⟩

/-- The texts can be read, or one of them is the first that cannot. -/
theorem readable_or_first (type : String) (texts : List String) :
    (∀ text ∈ texts, Readable type text) ∨ ∃ before text after, texts = before ++ text :: after ∧
      (∀ t ∈ before, Readable type t) ∧ ¬Readable type text := by
  classical
  cases h : texts.find? fun text => decide (¬Readable type text) with
  | none =>
    left
    simpa using h
  | some text =>
    obtain ⟨ht, before, after, hs, hb⟩ := List.find?_eq_some_iff_append.mp h
    exact .inr ⟨before, text, after, hs, by simpa using hb, by simpa using ht⟩

theorem usable_or (what : String) (supported : List String) (parameter type : String)
    (held : List String → Prop) :
    (type ∈ supported ∧ ∃ texts, held texts ∧ ∀ text ∈ texts, Readable type text) ∨
      ∃ message, Unusable what supported parameter type held message := by
  by_cases supports : type ∈ supported
  · by_cases recorded : ∃ texts, held texts
    · obtain ⟨texts, ht⟩ := recorded
      obtain readable | ⟨before, text, after, rfl, readable, unreadable⟩ :=
        readable_or_first type texts
      · exact .inl ⟨supports, texts, ht, readable⟩
      · exact .inr ⟨_, .unreadable supports ht readable unreadable⟩
    · exact .inr ⟨_, .missing supports (not_exists.mp recorded)⟩
  · exact .inr ⟨_, .type supports⟩

theorem needs_or_refuses_filter (hk : r.HasScalar "type" Kind.filter.name) :
    Needs r type .filter ∨ ∃ message, Refuses r type message := by
  by_cases recorded : ∃ name, r.HasScalar "filter" name
  · obtain ⟨name, hf⟩ := recorded
    by_cases known : ∃ f : FilterKind, f.name = name
    · obtain ⟨f, rfl⟩ := known
      by_cases hd : f = .default
      · subst hd
        obtain ⟨supports, texts, held, readable⟩ | ⟨message, unusable⟩ :=
          usable_or "default filter" defaultTypes ("value" ++ type) type
            (r.HasOne ("value" ++ type))
        · obtain ⟨hv⟩ := held
          exact .inl ⟨.default, hf, fun _ => ⟨supports, _, hv, readable _ List.mem_cons_self⟩⟩
        · exact .inr ⟨message, .default hk hf unusable⟩
      · exact .inl ⟨f, hf, fun h => absurd h hd⟩
    · exact .inr ⟨_, .unknownFilter hk hf (not_exists.mp known)⟩
  · exact .inr ⟨_, .noFilter hk (not_exists.mp recorded)⟩

theorem needs_or_refuses {kind : Kind} (hk : r.HasScalar "type" kind.name) :
    Needs r type kind ∨ ∃ message, Refuses r type message := by
  cases kind with
  | regex =>
    by_cases recorded : ∃ expression, r.HasScalar "expression" expression
    · exact .inl recorded
    · exact .inr ⟨_, .noExpression hk (not_exists.mp recorded)⟩
  | membership =>
    have usable := usable_or "in" membershipTypes ("array" ++ type) type
      (r.HasTexts ("array" ++ type))
    exact usable.imp_right fun ⟨message, unusable⟩ => ⟨message, .members hk unusable⟩
  | filter => exact needs_or_refuses_filter hk
  | required | number | string | boolean | url | email => exact .inl trivial

theorem complete_or_refuses (r : Record) (type : String) :
    Complete r type ∨ ∃ message, Refuses r type message := by
  by_cases recorded : ∃ name, r.HasScalar "type" name
  · obtain ⟨name, hk⟩ := recorded
    by_cases known : ∃ k : Kind, k.name = name
    · obtain ⟨kind, rfl⟩ := known
      exact (needs_or_refuses hk).imp_left fun needs => ⟨kind, hk, needs⟩
    · exact .inr ⟨_, .unknownKind hk (not_exists.mp known)⟩
  · exact .inr ⟨_, .noKind (not_exists.mp recorded)⟩

theorem Documented.named {rule : Rule} (h : Documented r type rule) :
    r.HasScalar "type" rule.kind.name ∧
      ∀ f, rule = .filter f → r.HasScalar "filter" f.kind.name := by
  cases h with
  | check kind => exact ⟨kind, by simp⟩
  | regex kind => exact ⟨kind, by simp⟩
  | membership kind => exact ⟨kind, by simp⟩
  | filter kind name => exact ⟨kind, by rintro _ ⟨⟩; exact name⟩
  | default kind name => exact ⟨kind, by rintro _ ⟨⟩; exact name⟩

end InputGuard.Rule
