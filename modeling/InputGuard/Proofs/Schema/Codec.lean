import InputGuard.Proofs.Schema.TypeRef
import InputGuard.Proofs.Schema.ValueCodec

/-! # Schema documents as JSON

The members of an object may come in any order, those at their default may be left
out, and others may stand between them. All these forms of a document are read as it
if its type references are well formed and its written form is nested no deeper than
a reader follows (`Document.gives_of_form`). Every document that is read from a text is
such a document (`Document.survives_json`). -/

namespace InputGuard.Schema

open Json (AtMostOnce Encodes Fields Gives Layout ListOf Once Unrepeated Yields asList)
open Option (bind_eq_some_iff)

/-! ## The forms of a document

In every object a known member comes once, wherever it stands; if it is at its default
it may be missing. Members with other names may hold anything. -/

def IsText (j : Json) (s : String) : Prop := j = .text s

inductive Argument.Form : Json → Argument → Prop where
  | mk {ms : List (String × Json)} {a : Argument} (name : Once ms "name" IsText a.name)
      (value : Once ms "value" Value.Form a.value) : Argument.Form (.record ms) a

inductive Directive.Form : Json → Directive → Prop where
  | mk {ms : List (String × Json)} {d : Directive} (name : Once ms "name" IsText d.name)
      (arguments : AtMostOnce ms "arguments" (ListOf Argument.Form) [] d.arguments) :
      Directive.Form (.record ms) d

inductive Field.Form : Json → Field → Prop where
  | mk {ms : List (String × Json)} {f : Field} (name : Once ms "name" IsText f.name)
      (type : Once ms "type" (fun j (t : TypeRef) => IsText j t.print) f.type)
      (directives : AtMostOnce ms "directives" (ListOf Directive.Form) [] f.directives) :
      Field.Form (.record ms) f

inductive TypeDefinition.Form : Json → TypeDefinition → Prop where
  | mk {ms : List (String × Json)} {t : TypeDefinition} (name : Once ms "name" IsText t.name)
      (kind : AtMostOnce ms "kind" (fun j (k : TypeKind) => IsText j k.name) .object t.kind)
      (directives : AtMostOnce ms "directives" (ListOf Directive.Form) [] t.directives)
      (fields : AtMostOnce ms "fields" (ListOf Field.Form) [] t.fields) :
      TypeDefinition.Form (.record ms) t

inductive Document.Form : Json → Document → Prop where
  | mk {ms : List (String × Json)} {d : Document}
      (types : Once ms "types" (ListOf TypeDefinition.Form) d.types) :
      Document.Form (.record ms) d

/-! ## Reading the forms -/

theorem gives_text {j : Json} {s : String} (h : IsText j s) : Gives Json.asText 0 j s := by
  cases h
  exact fun _ _ => rfl

theorem TypeRef.gives {t : TypeRef} (ht : t.WellFormed) {j : Json} (h : IsText j t.print) :
    Gives ofJson 0 j t := by
  cases h
  intro depth _
  rw [Json.text, ofJson, print, String.toList_ofList, parse_chars ht]
  rfl

theorem TypeKind.gives {k : TypeKind} {j : Json} (h : IsText j k.name) : Gives ofJson 0 j k := by
  cases h
  intro depth _
  cases depth <;> cases k <;> rfl

theorem Argument.gives_of_form {a : Argument} {j : Json} (h : Form j a) :
    Gives ofJson a.toJson.depth j a := by
  obtain ⟨name, value⟩ := h
  refine Fields.gives (by simp [Unrepeated, name.length_le, value.length_le]) fun f hf hdepth => ?_
  simp only [List.forall_mem_cons] at hdepth
  obtain ⟨-, hvalue, -⟩ := hdepth
  refine bind_eq_some_iff.mpr ⟨a.name,
    Fields.required_once hf (by simp) name (fun _ => gives_text) (Nat.zero_le _), ?_⟩
  exact bind_eq_some_iff.mpr ⟨a.value,
    Fields.required_once hf (by simp) value (fun _ => Value.gives_of_form) hvalue, rfl⟩

/-- Unknown members stand anywhere, and content may come before its shape. -/
example : Json.decode Argument.ofJson (.record [("x", .array [.null]),
    ("value", .record [("value", .array [.record [("value", .text "draft"),
      ("kind", .text "String")]]), ("kind", .text "List")]), ("name", .text "values")]) =
        some ⟨"values", .list [.string "draft"]⟩ := rfl

theorem Directive.gives_of_form {d : Directive} {j : Json} (h : Form j d) :
    Gives ofJson d.toJson.depth j d := by
  obtain ⟨name, arguments⟩ := h
  refine Fields.gives (by simp [Unrepeated, name.length_le, arguments.length_le])
    fun f hf hdepth => ?_
  simp only [List.forall_mem_cons] at hdepth
  obtain ⟨-, harguments, -⟩ := hdepth
  have hlist {v : Json} (hv : ListOf Argument.Form v d.arguments) :=
    Json.gives_list hv fun a _ _ => a.gives_of_form
  refine bind_eq_some_iff.mpr ⟨d.name,
    Fields.required_once hf (by simp) name (fun _ => gives_text) (Nat.zero_le _), ?_⟩
  exact bind_eq_some_iff.mpr ⟨d.arguments,
    Fields.optional_once hf (by simp) arguments (fun _ => hlist) harguments, rfl⟩

theorem gives_directives {ds : List Directive} {v : Json} (h : ListOf Directive.Form v ds) :
    Gives (asList Directive.ofJson) (Json.array (ds.map Directive.toJson)).depth v ds :=
  Json.gives_list h fun d _ _ => d.gives_of_form

theorem Field.gives_of_form {f : Field} (hf : f.type.WellFormed) {j : Json} (h : Form j f) :
    Gives ofJson f.toJson.depth j f := by
  obtain ⟨name, type, directives⟩ := h
  refine Fields.gives (by simp [Unrepeated, name.length_le, type.length_le, directives.length_le])
    fun fs hfs hdepth => ?_
  simp only [List.forall_mem_cons] at hdepth
  obtain ⟨-, -, hdirectives, -⟩ := hdepth
  refine bind_eq_some_iff.mpr ⟨f.name,
    Fields.required_once hfs (by simp) name (fun _ => gives_text) (Nat.zero_le _), ?_⟩
  refine bind_eq_some_iff.mpr ⟨f.type,
    Fields.required_once hfs (by simp) type (fun _ => TypeRef.gives hf) (Nat.zero_le _), ?_⟩
  exact bind_eq_some_iff.mpr ⟨f.directives,
    Fields.optional_once hfs (by simp) directives (fun _ => gives_directives) hdirectives, rfl⟩

theorem TypeDefinition.gives_of_form {t : TypeDefinition} (ht : ∀ f ∈ t.fields, f.type.WellFormed)
    {j : Json} (h : Form j t) : Gives ofJson t.toJson.depth j t := by
  obtain ⟨name, kind, directives, fields⟩ := h
  refine Fields.gives (by simp [Unrepeated, name.length_le, kind.length_le, directives.length_le,
    fields.length_le]) fun f hf hdepth => ?_
  simp only [List.forall_mem_cons] at hdepth
  obtain ⟨-, -, hdirectives, hfields, -⟩ := hdepth
  have hlist {v : Json} (hv : ListOf Field.Form v t.fields) :=
    Json.gives_list hv fun f hf _ => f.gives_of_form (ht f hf)
  refine bind_eq_some_iff.mpr ⟨t.name,
    Fields.required_once hf (by simp) name (fun _ => gives_text) (Nat.zero_le _), ?_⟩
  refine bind_eq_some_iff.mpr ⟨t.kind,
    Fields.optional_once hf (by simp) kind (fun _ => TypeKind.gives) (Nat.zero_le _), ?_⟩
  refine bind_eq_some_iff.mpr ⟨t.directives,
    Fields.optional_once hf (by simp) directives (fun _ => gives_directives) hdirectives, ?_⟩
  exact bind_eq_some_iff.mpr ⟨t.fields,
    Fields.optional_once hf (by simp) fields (fun _ => hlist) hfields, rfl⟩

theorem Document.gives_of_form {d : Document} (hd : d.WellFormed) {j : Json} (h : Form j d) :
    Gives ofJson d.toJson.depth j d := by
  obtain ⟨types⟩ := h
  refine Fields.gives (by simp [Unrepeated, types.length_le]) fun f hf hdepth => ?_
  have hlist {v : Json} (hv : ListOf TypeDefinition.Form v d.types) :=
    Json.gives_list hv fun t ht _ => t.gives_of_form (hd t ht)
  have htypes := List.forall_mem_singleton.mp hdepth
  exact bind_eq_some_iff.mpr ⟨d.types,
    Fields.required_once hf (by simp) types (fun _ => hlist) htypes, rfl⟩

/-! ## The written form -/

theorem Argument.form_toJson (a : Argument) : Form a.toJson a :=
  .mk ⟨_, rfl, rfl⟩ ⟨_, rfl, a.value.form_toJson⟩

theorem Argument.writable_toJson (a : Argument) : a.toJson.Writable :=
  Json.writable_record (by simp [Json.text, Json.Writable.string, a.value.writable_toJson])

theorem Directive.form_toJson (d : Directive) : Form d.toJson d :=
  .mk ⟨_, rfl, rfl⟩ (.inl ⟨_, rfl, Json.listOf_map d.arguments Argument.form_toJson⟩)

theorem Directive.writable_toJson (d : Directive) : d.toJson.Writable := by
  have harguments := Json.writable_map d.arguments Argument.writable_toJson
  exact Json.writable_record (by simp [Json.text, Json.Writable.string, harguments])

theorem Field.form_toJson (f : Field) : Form f.toJson f :=
  .mk ⟨_, rfl, rfl⟩ ⟨_, rfl, rfl⟩ (.inl ⟨_, rfl, Json.listOf_map f.directives Directive.form_toJson⟩)

theorem Field.writable_toJson (f : Field) : f.toJson.Writable := by
  have hdirectives := Json.writable_map f.directives Directive.writable_toJson
  exact Json.writable_record (by
    simp [TypeRef.toJson, Json.text, Json.Writable.string, hdirectives])

theorem TypeDefinition.form_toJson (t : TypeDefinition) : Form t.toJson t :=
  .mk ⟨_, rfl, rfl⟩ (.inl ⟨_, rfl, rfl⟩)
    (.inl ⟨_, rfl, Json.listOf_map t.directives Directive.form_toJson⟩)
    (.inl ⟨_, rfl, Json.listOf_map t.fields Field.form_toJson⟩)

theorem TypeDefinition.writable_toJson (t : TypeDefinition) : t.toJson.Writable := by
  have hdirectives := Json.writable_map t.directives Directive.writable_toJson
  have hfields := Json.writable_map t.fields Field.writable_toJson
  exact Json.writable_record (by
    simp [TypeKind.toJson, Json.text, Json.Writable.string, hdirectives, hfields])

theorem Document.form_toJson (d : Document) : Form d.toJson d :=
  .mk ⟨_, rfl, Json.listOf_map d.types TypeDefinition.form_toJson⟩

theorem Document.writable_toJson (d : Document) : d.toJson.Writable := by
  have htypes := Json.writable_map d.types TypeDefinition.writable_toJson
  exact Json.writable_record (by simp [htypes])

theorem Document.encodes {d : Document} (h : d.WellFormed) : Encodes Document.ofJson d.toJson d :=
  ⟨d.writable_toJson, gives_of_form h d.form_toJson⟩

theorem Document.ofText?_write {l : Layout} {d : Document} (hl : l.Blank) (h : d.WellFormed)
    (hd : d.toJson.depth ≤ Json.nesting) : ofText? (d.toJson.write l) = some d :=
  (Document.encodes h).read hl hd

/-! ## What was read -/

/-- A list that was read, or an empty one in its place. -/
theorem depth_list_le {α : Type} {f : α → Json} {as : List α} {depth least : Nat}
    (h : as = [] ∨ ∃ n, depth = n + 1 ∧ ∀ a ∈ as, (f a).depth ≤ max n least) :
    (Json.array (as.map f)).depth ≤ max depth (least + 1) := by
  rw [Json.depth_array_le]
  rcases h with rfl | ⟨n, rfl, hn⟩
  · exact ⟨max depth (least + 1) - 1, by omega, by simp⟩
  · exact ⟨max n least, by omega, List.forall_mem_map.mpr hn⟩

theorem depth_record_le {ms : List (String × Json)} {n least : Nat}
    (h : ∀ m ∈ ms, m.2.depth ≤ max n least) : (Json.record ms).depth ≤ max (n + 1) (least + 1) :=
  Json.depth_record_le.mpr ⟨max n least, by omega, h⟩

theorem TypeRef.yields : Yields TypeRef.ofJson fun _ t => t.WellFormed := by
  intro depth j t h
  unfold ofJson at h
  split at h
  · next s =>
    cases hs : parse s.toList with
    | error e =>
      rw [hs] at h
      cases h
    | ok t' =>
      rw [hs] at h
      cases h
      exact wellFormed_of_parse hs
  · cases h

theorem Argument.yields : Yields Argument.ofJson fun depth a => a.toJson.depth ≤ depth := by
  intro depth j a h
  obtain ⟨f, hf, h⟩ := bind_eq_some_iff.mp h
  obtain ⟨name, -, h⟩ := bind_eq_some_iff.mp h
  obtain ⟨value, hvalue, h⟩ := bind_eq_some_iff.mp h
  cases h
  rw [Fields.depth_of? hf, toJson, Json.depth_record_le]
  have hdepth := Fields.required_yields Value.yields hvalue
  exact ⟨f.depth, rfl, by simpa [Json.text, Json.depth] using hdepth⟩

theorem Directive.yields : Yields Directive.ofJson fun depth d => d.toJson.depth ≤ max depth 2 := by
  intro depth j d h
  obtain ⟨f, hf, h⟩ := bind_eq_some_iff.mp h
  obtain ⟨name, -, h⟩ := bind_eq_some_iff.mp h
  obtain ⟨arguments, harguments, h⟩ := bind_eq_some_iff.mp h
  cases h
  rw [Fields.depth_of? hf]
  have hlist := Fields.optional_yields (Json.yields_list Argument.yields) harguments
  have hdepth : (Json.array (arguments.map Argument.toJson)).depth ≤ max f.depth (0 + 1) :=
    depth_list_le (by simpa using hlist)
  refine depth_record_le ?_
  simpa [Json.text, Json.depth] using hdepth

theorem Field.yields : Yields Field.ofJson fun depth f =>
    f.toJson.depth ≤ max depth 4 ∧ f.type.WellFormed := by
  intro depth j field h
  obtain ⟨f, hf, h⟩ := bind_eq_some_iff.mp h
  obtain ⟨name, -, h⟩ := bind_eq_some_iff.mp h
  obtain ⟨type, htype, h⟩ := bind_eq_some_iff.mp h
  obtain ⟨directives, hdirectives, h⟩ := bind_eq_some_iff.mp h
  cases h
  refine ⟨?_, Fields.required_yields TypeRef.yields htype⟩
  rw [Fields.depth_of? hf]
  have hlist := Fields.optional_yields (Json.yields_list Directive.yields) hdirectives
  have hdepth := depth_list_le hlist
  refine depth_record_le ?_
  simpa [TypeRef.toJson, Json.text, Json.depth] using hdepth

theorem TypeDefinition.yields : Yields TypeDefinition.ofJson fun depth t =>
    t.toJson.depth ≤ max depth 6 ∧ ∀ f ∈ t.fields, f.type.WellFormed := by
  intro depth j t h
  obtain ⟨f, hf, h⟩ := bind_eq_some_iff.mp h
  obtain ⟨name, -, h⟩ := bind_eq_some_iff.mp h
  obtain ⟨kind, -, h⟩ := bind_eq_some_iff.mp h
  obtain ⟨directives, hdirectives, h⟩ := bind_eq_some_iff.mp h
  obtain ⟨fields, hfields, h⟩ := bind_eq_some_iff.mp h
  cases h
  have hdirectiveList := Fields.optional_yields (Json.yields_list Directive.yields) hdirectives
  have hfieldList := Fields.optional_yields (Json.yields_list Field.yields) hfields
  constructor
  · have hdirectiveDepth := depth_list_le hdirectiveList
    have hfieldDepth : (Json.array (fields.map Field.toJson)).depth ≤ max f.depth 5 :=
      depth_list_le (hfieldList.imp id fun ⟨n, hn, hall⟩ => ⟨n, hn, fun g hg => (hall g hg).1⟩)
    rw [Fields.depth_of? hf]
    refine depth_record_le ?_
    simp only [List.forall_mem_cons]
    exact ⟨Nat.zero_le _, Nat.zero_le _, Nat.le_trans hdirectiveDepth (by omega), hfieldDepth,
      nofun⟩
  · intro g hg
    rcases hfieldList with rfl | ⟨n, -, hall⟩
    · cases hg
    · exact (hall g hg).2

theorem Document.yields : Yields Document.ofJson fun depth d =>
    d.toJson.depth ≤ max depth 8 ∧ d.WellFormed := by
  intro depth j d h
  obtain ⟨f, hf, h⟩ := bind_eq_some_iff.mp h
  obtain ⟨types, htypes, h⟩ := bind_eq_some_iff.mp h
  cases h
  obtain ⟨n, hn, hall⟩ := Fields.required_yields (Json.yields_list TypeDefinition.yields) htypes
  refine ⟨?_, fun t ht => (hall t ht).2⟩
  have hdepth : (Json.array (types.map TypeDefinition.toJson)).depth ≤ max f.depth 7 :=
    depth_list_le (.inr ⟨n, hn, fun t ht => (hall t ht).1⟩)
  rw [Fields.depth_of? hf]
  refine depth_record_le ?_
  simpa using hdepth

theorem Document.of_ofText? {text : String} {d : Document} (h : ofText? text = some d) :
    d.WellFormed ∧ d.toJson.depth ≤ Json.nesting := by
  obtain ⟨j, -, hj⟩ := bind_eq_some_iff.mp h
  obtain ⟨hdepth, hwf⟩ := Document.yields Json.nesting j d hj
  exact ⟨hwf, hdepth⟩

/-- Both texts of a document are read as the document. -/
structure Document.ReadBack (d : Document) : Prop where
  pretty : ofText? d.text = some d
  compact : ofText? d.toJson.compact = some d

theorem Document.readBack_iff {d : Document} :
    d.ReadBack ↔ d.WellFormed ∧ d.toJson.depth ≤ Json.nesting := by
  constructor
  · intro h
    exact of_ofText? h.pretty
  · rintro ⟨h, hd⟩
    exact ⟨ofText?_write Json.Layout.blank_pretty h hd,
      ofText?_write Json.Layout.blank_compact h hd⟩

/-- A document is read back exactly if it is well formed and not nested too deep,
and every document that was read from a text is both. -/
theorem Document.survives_json (d : Document) :
    (d.ReadBack ↔ d.WellFormed ∧ d.toJson.depth ≤ Json.nesting) ∧
      ∀ text, ofText? text = some d → d.WellFormed ∧ d.ReadBack := by
  refine ⟨readBack_iff, fun text h => ?_⟩
  obtain ⟨hwf, hd⟩ := of_ofText? h
  exact ⟨hwf, readBack_iff.mpr ⟨hwf, hd⟩⟩

end InputGuard.Schema
