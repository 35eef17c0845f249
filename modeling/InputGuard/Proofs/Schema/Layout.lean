import InputGuard.Proofs.Json.LaidOut
import InputGuard.Proofs.Schema.Codec

/-! # Layouts of a schema document

The tokens of any form of a document, with any blanks between them and any escapes
in their strings, are read as the document. A known member that comes twice and text
behind the document are errors (`Document.layout_irrelevant`). -/

namespace InputGuard.Schema

open Json (Blank Fields HasElement LaidOut Refuses Repeated tokens)
open Option (bind_eq_some_iff)

/-! ## Members that come twice -/

/-- A known member comes twice in some object of the schema. -/
inductive Argument.Repeats : Json → Prop where
  | here {ms : List (String × Json)} (h : Repeated ["name", "value"] ms) : Repeats (.record ms)

inductive Directive.Repeats : Json → Prop where
  | here {ms : List (String × Json)} (h : Repeated ["name", "arguments"] ms) : Repeats (.record ms)
  | argument {ms : List (String × Json)} {v : Json} (member : ("arguments", v) ∈ ms)
      (h : HasElement Argument.Repeats v) : Repeats (.record ms)

inductive Field.Repeats : Json → Prop where
  | here {ms : List (String × Json)} (h : Repeated ["name", "type", "directives"] ms) :
      Repeats (.record ms)
  | directive {ms : List (String × Json)} {v : Json} (member : ("directives", v) ∈ ms)
      (h : HasElement Directive.Repeats v) : Repeats (.record ms)

inductive TypeDefinition.Repeats : Json → Prop where
  | here {ms : List (String × Json)} (h : Repeated ["name", "kind", "directives", "fields"] ms) :
      Repeats (.record ms)
  | directive {ms : List (String × Json)} {v : Json} (member : ("directives", v) ∈ ms)
      (h : HasElement Directive.Repeats v) : Repeats (.record ms)
  | field {ms : List (String × Json)} {v : Json} (member : ("fields", v) ∈ ms)
      (h : HasElement Field.Repeats v) : Repeats (.record ms)

inductive Document.Repeats : Json → Prop where
  | here {ms : List (String × Json)} (h : Repeated ["types"] ms) : Repeats (.record ms)
  | type {ms : List (String × Json)} {v : Json} (member : ("types", v) ∈ ms)
      (h : HasElement TypeDefinition.Repeats v) : Repeats (.record ms)

theorem Argument.refuses : Refuses ofJson Repeats := by
  rintro depth _ ⟨h⟩
  exact Fields.bind_repeated h depth

theorem Directive.refuses : Refuses ofJson Repeats := by
  intro depth j h
  cases h with
  | here h => exact Fields.bind_repeated h depth
  | argument member h =>
    rw [Option.eq_none_iff_forall_ne_some]
    intro d hd
    obtain ⟨f, hf, hd⟩ := bind_eq_some_iff.mp hd
    obtain ⟨name, -, hd⟩ := bind_eq_some_iff.mp hd
    obtain ⟨arguments, harguments, -⟩ := bind_eq_some_iff.mp hd
    rw [Fields.optional_refused hf (by simp) member (Json.refuses_list Argument.refuses) h]
      at harguments
    cases harguments

theorem Field.refuses : Refuses ofJson Repeats := by
  intro depth j h
  cases h with
  | here h => exact Fields.bind_repeated h depth
  | directive member h =>
    rw [Option.eq_none_iff_forall_ne_some]
    intro field hfield
    obtain ⟨f, hf, hfield⟩ := bind_eq_some_iff.mp hfield
    obtain ⟨name, -, hfield⟩ := bind_eq_some_iff.mp hfield
    obtain ⟨type, -, hfield⟩ := bind_eq_some_iff.mp hfield
    obtain ⟨directives, hdirectives, -⟩ := bind_eq_some_iff.mp hfield
    rw [Fields.optional_refused hf (by simp) member (Json.refuses_list Directive.refuses) h]
      at hdirectives
    cases hdirectives

theorem TypeDefinition.refuses : Refuses ofJson Repeats := by
  intro depth j h
  cases h with
  | here h => exact Fields.bind_repeated h depth
  | directive member h =>
    rw [Option.eq_none_iff_forall_ne_some]
    intro t ht
    obtain ⟨f, hf, ht⟩ := bind_eq_some_iff.mp ht
    obtain ⟨name, -, ht⟩ := bind_eq_some_iff.mp ht
    obtain ⟨kind, -, ht⟩ := bind_eq_some_iff.mp ht
    obtain ⟨directives, hdirectives, -⟩ := bind_eq_some_iff.mp ht
    rw [Fields.optional_refused hf (by simp) member (Json.refuses_list Directive.refuses) h]
      at hdirectives
    cases hdirectives
  | field member h =>
    rw [Option.eq_none_iff_forall_ne_some]
    intro t ht
    obtain ⟨f, hf, ht⟩ := bind_eq_some_iff.mp ht
    obtain ⟨name, -, ht⟩ := bind_eq_some_iff.mp ht
    obtain ⟨kind, -, ht⟩ := bind_eq_some_iff.mp ht
    obtain ⟨directives, -, ht⟩ := bind_eq_some_iff.mp ht
    obtain ⟨fields, hfields, -⟩ := bind_eq_some_iff.mp ht
    rw [Fields.optional_refused hf (by simp) member (Json.refuses_list Field.refuses) h] at hfields
    cases hfields

theorem Document.refuses : Refuses ofJson Repeats := by
  intro depth j h
  cases h with
  | here h => exact Fields.bind_repeated h depth
  | type member h =>
    rw [Option.eq_none_iff_forall_ne_some]
    intro d hd
    obtain ⟨f, hf, hd⟩ := bind_eq_some_iff.mp hd
    obtain ⟨types, htypes, -⟩ := bind_eq_some_iff.mp hd
    rw [Fields.required_refused hf (by simp) member (Json.refuses_list TypeDefinition.refuses) h]
      at htypes
    cases htypes

/-! ## Texts -/

/-- What is read does not depend on the layout of a text. -/
structure Document.LayoutIrrelevant (d : Document) : Prop where
  written : Form d.toJson d
  /-- Every text of every form of the document is read as it. -/
  read : ∀ j text, Form j d → LaidOut text.toList (tokens j) → ofText? text = some d
  /-- A known member that comes twice is an error, wherever it stands. -/
  repeated : ∀ j text, Repeats j → LaidOut text.toList (tokens j) → ofText? text = none
  /-- So is anything but blanks behind a document. -/
  trailing : ∀ j text rest, Form j d → LaidOut text.toList (tokens j) → ¬Blank rest.toList →
    ofText? (text ++ rest) = none

theorem Document.layout_irrelevant {d : Document} (h : d.WellFormed)
    (hd : d.toJson.depth ≤ Json.nesting) : d.LayoutIrrelevant := by
  constructor
  case written => exact d.form_toJson
  case read =>
    intro j text hj htext
    have hread : ofJson Json.nesting j = some d := Document.gives_of_form h hj Json.nesting hd
    obtain ⟨-⟩ := hj
    rw [ofText?, htext.ofText?_object, Option.bind_eq_bind, Option.bind_some, Json.decode]
    exact hread
  case repeated =>
    intro j text hj htext
    have hnone := Document.refuses Json.nesting j hj
    cases hj with
    | here | type =>
      rw [ofText?, htext.ofText?_object, Option.bind_eq_bind, Option.bind_some, Json.decode]
      exact hnone
  case trailing =>
    intro j text rest hj htext hrest
    obtain ⟨-⟩ := hj
    rw [ofText?, htext.ofText?_append hrest]
    rfl

/-- A type whose only field is compared with a list. -/
def listedTitle : Document :=
  ⟨[⟨"Post", .object, [], [⟨"title", .nonNull (.named "String"),
    [⟨"validator", [⟨"type", .enum "oneOf"⟩, ⟨"values", .list [.string "draft"]⟩]⟩]⟩]⟩]⟩

theorem Document.layout_irrelevant_listedTitle :
    (listedTitle.WellFormed ∧ listedTitle.toJson.depth ≤ Json.nesting) ∧
      listedTitle.LayoutIrrelevant := by
  have hwf : listedTitle.WellFormed := by
    simp only [Document.WellFormed, listedTitle, List.forall_mem_singleton]
    exact ⟨rfl, rfl⟩
  have hdepth : listedTitle.toJson.depth ≤ Json.nesting := by decide
  exact ⟨⟨hwf, hdepth⟩, layout_irrelevant hwf hdepth⟩

end InputGuard.Schema
