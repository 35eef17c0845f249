import InputGuard.Proofs.Rule.Inversion
import InputGuard.Proofs.Snippet.Confinement

/-! # Parameters that a snippet has in it

A membership check has the literals of its members in their order, and a default filter
the literal of its value (`generate_members_iff`, `generate_default_iff`), each read
from the text that the record holds under the parameter of the field's type. -/

namespace InputGuard.Snippet

open Rule (Default Members Reads Record)

/-! ## Where the literals are -/

/-- A membership check up to its first member. -/
def beforeMembers (c : Context) : String :=
  "## [Start] " ++ c.title "Membership list for" ++ ". **\n" ++ "#set( " ++ c.membersVar ++ " = " ++
    "["

/-- A membership check from the end of its last member. -/
def afterMembers (c : Context) : String :=
  "]" ++ " )" ++ "\n## [End] " ++ c.title "Membership list for" ++ ". **" ++ "\n" ++
    rejectIf c "Membership check on" ("!" ++ c.membersVar ++ ".contains(" ++ c.fieldRef ++ ")")
      "must be valid url"

theorem membershipCheck_eq (c : Context) (members : Members) :
    membershipCheck c members =
      beforeMembers c ++ ", ".intercalate (memberLiterals members) ++ afterMembers c := by
  unfold membershipCheck beforeMembers afterMembers Vtl.block Vtl.assign Vtl.list
  simp only [String.append_assoc]

/-- A default filter up to its value. -/
def beforeDefault (c : Context) : String :=
  "## [Start] " ++ c.title "Default filter on" ++ ". **\n" ++ "#if( " ++
    ("!$util.isNull(" ++ c.fieldRef ++ ")") ++ " )\n" ++ Vtl.indent (store c c.fieldRef) ++
    "\n#else\n" ++ "  " ++ "$util.qr(" ++ c.input ++ ".put(" ++ Vtl.string c.field ++ ", "

/-- A default filter from the end of its value. -/
def afterDefault (c : Context) : String :=
  ")" ++ ")" ++ "\n#end" ++ "\n## [End] " ++ c.title "Default filter on" ++ ". **"

theorem defaultFilter_eq (c : Context) (value : Default) :
    defaultFilter c value = beforeDefault c ++ defaultLiteral value ++ afterDefault c := by
  unfold defaultFilter beforeDefault afterDefault Vtl.block Vtl.choose Vtl.indent store
    Vtl.quietly Vtl.put
  simp only [String.append_assoc]

/-! ## What a text becomes -/

theorem forall₂_exists_iff {α β γ : Type} {R : α → β → Prop} {f : β → γ} {as : List α}
    {cs : List γ} : List.Forall₂ (fun a c => ∃ b, R a b ∧ f b = c) as cs ↔
      ∃ bs, List.Forall₂ R as bs ∧ cs = bs.map f := by
  constructor
  · intro h
    induction h with
    | nil => exact ⟨[], .nil, rfl⟩
    | cons hhead _ ih =>
      obtain ⟨b, hb, rfl⟩ := hhead
      obtain ⟨bs, hbs, rfl⟩ := ih
      exact ⟨b :: bs, .cons hb hbs, rfl⟩
  · rintro ⟨bs, hbs, rfl⟩
    rw [List.forall₂_map_right_iff]
    exact hbs.imp fun a b hb => ⟨b, hb, rfl⟩

/-- How the values of a type get from a text to a literal. -/
structure Handled {α : Type} (type : String) (read : List Char → Option α)
    (literal : α → String) (value : α → Default) (members : List α → Members) : Prop where
  reads_iff : ∀ text v, Reads type text (value v) ↔ read text.toList = some v
  exists_value : ∀ text d, Reads type text d → ∃ v, d = value v
  exists_members : ∀ ms, ms.typeName = type → ∃ vs, ms = members vs
  typeName : ∀ vs, (members vs).typeName = type
  values : ∀ vs, (members vs).values = vs.map value
  memberLiterals : ∀ vs, memberLiterals (members vs) = vs.map literal
  defaultLiteral : ∀ v, defaultLiteral (value v) = literal v

variable {α : Type} {type : String} {read : List Char → Option α} {literal : α → String}
  {value : α → Default} {members : List α → Members} {config : Config} {field snippet : String}
  {r : Record} {rule : Rule}

theorem Handled.resolve_members_iff (h : Handled type read literal value members)
    (kind : r.HasScalar "type" "in") :
    Rule.resolve r (.ofName type) = .ok rule ↔ ∃ texts vs, r.HasTexts ("array" ++ type) texts ∧
      List.Forall₂ (fun text v => read text.toList = some v) texts vs ∧
        rule = .check (.membership (members vs)) := by
  have hreads {texts : List String} {vs : List α} :
      List.Forall₂ (Reads type) texts (members vs).values ↔
        List.Forall₂ (fun text v => read text.toList = some v) texts vs := by
    simp only [h.values, List.forall₂_map_right_iff, h.reads_iff]
  rw [Rule.resolve_membership_iff kind]
  constructor
  · rintro ⟨ms, texts, rfl, htype, recorded, hread⟩
    obtain ⟨vs, rfl⟩ := h.exists_members ms htype
    exact ⟨texts, vs, recorded, hreads.mp hread, rfl⟩
  · rintro ⟨texts, vs, recorded, hread, rfl⟩
    exact ⟨members vs, texts, rfl, h.typeName vs, recorded, hreads.mpr hread⟩

theorem Handled.resolve_default_iff (h : Handled type read literal value members)
    (kind : r.HasScalar "type" "filter") (filter : r.HasScalar "filter" "default") :
    Rule.resolve r (.ofName type) = .ok rule ↔ ∃ text v, r.HasScalar ("value" ++ type) text ∧
      read text.toList = some v ∧ rule = .filter (.default (value v)) := by
  rw [Rule.resolve_default_iff kind filter]
  constructor
  · rintro ⟨d, text, rfl, recorded, hread⟩
    obtain ⟨v, rfl⟩ := h.exists_value text d hread
    exact ⟨text, v, recorded, (h.reads_iff text v).mp hread, rfl⟩
  · rintro ⟨text, v, recorded, hread, rfl⟩
    exact ⟨value v, text, rfl, recorded, (h.reads_iff text v).mpr hread⟩

/-- A membership check has the literals of the recorded members, in their order. -/
theorem Handled.generate_members_iff (h : Handled type read literal value members)
    (kind : r.HasScalar "type" "in") :
    generate config field (.ofName type) r = .ok snippet ↔
      Text.isIdentifier field.toList = true ∧ ∃ texts literals,
        r.HasTexts ("array" ++ type) texts ∧
        List.Forall₂ (fun text t => ∃ v, read text.toList = some v ∧ literal v = t) texts literals ∧
        snippet = beforeMembers (.ofConfig config field) ++ ", ".intercalate literals ++
          afterMembers (.ofConfig config field) := by
  have hrender (vs : List α) : render (.ofConfig config field) (.check (.membership (members vs))) =
      beforeMembers (.ofConfig config field) ++ ", ".intercalate (vs.map literal) ++
        afterMembers (.ofConfig config field) :=
    h.memberLiterals vs ▸ membershipCheck_eq _ _
  simp only [generate_eq_ok_iff, Rule.forField_eq_ok_iff, h.resolve_members_iff kind,
    forall₂_exists_iff]
  constructor
  · rintro ⟨rule, ⟨hfield, texts, vs, recorded, hread, rfl⟩, rfl⟩
    exact ⟨hfield, texts, _, recorded, ⟨vs, hread, rfl⟩, hrender vs⟩
  · rintro ⟨hfield, texts, -, recorded, ⟨vs, hread, rfl⟩, rfl⟩
    exact ⟨_, ⟨hfield, texts, vs, recorded, hread, rfl⟩, hrender vs⟩

/-- A default filter has the literal of the recorded value. -/
theorem Handled.generate_default_iff (h : Handled type read literal value members)
    (kind : r.HasScalar "type" "filter") (filter : r.HasScalar "filter" "default") :
    generate config field (.ofName type) r = .ok snippet ↔
      Text.isIdentifier field.toList = true ∧ ∃ text t, r.HasScalar ("value" ++ type) text ∧
        (∃ v, read text.toList = some v ∧ literal v = t) ∧
        snippet = beforeDefault (.ofConfig config field) ++ t ++
          afterDefault (.ofConfig config field) := by
  have hrender (v : α) : render (.ofConfig config field) (.filter (.default (value v))) =
      beforeDefault (.ofConfig config field) ++ literal v ++
        afterDefault (.ofConfig config field) :=
    h.defaultLiteral v ▸ defaultFilter_eq _ _
  simp only [generate_eq_ok_iff, Rule.forField_eq_ok_iff, h.resolve_default_iff kind filter]
  constructor
  · rintro ⟨rule, ⟨hfield, text, v, recorded, hread, rfl⟩, rfl⟩
    exact ⟨hfield, text, _, recorded, ⟨v, hread, rfl⟩, hrender v⟩
  · rintro ⟨hfield, text, -, recorded, ⟨v, hread, rfl⟩, rfl⟩
    exact ⟨_, ⟨hfield, text, v, recorded, hread, rfl⟩, hrender v⟩

end InputGuard.Snippet
