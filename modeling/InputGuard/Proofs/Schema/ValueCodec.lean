import InputGuard.Proofs.Json.Members
import InputGuard.Schema.Codec

/-! # Argument values as JSON

The shape and the content of a value come in either order, in the value and in the
values inside it. All these forms are read as the value wherever they may be nested
that deep (`Value.readable_of_form`), and a value that was read may be nested where it
was read (`Value.yields`). -/

namespace InputGuard.Schema

open Json (Decoder Fields Gives Yields asList)

/-! ## The forms of a value -/

/-- The shape and the content of a value, in either order. -/
inductive Value.TagOf (shape : Shape) (content : Json) : Json → Prop where
  | kindFirst : TagOf shape content (.record [("kind", .text shape.name), ("value", content)])
  | valueFirst : TagOf shape content (.record [("value", content), ("kind", .text shape.name)])

mutual

inductive Value.Form : Json → Value → Prop where
  | string {s : String} {j : Json} (h : Value.TagOf .string (.text s) j) : Value.Form j (.string s)
  | int {s : String} {j : Json} (h : Value.TagOf .int (.text s) j) : Value.Form j (.int s)
  | float {s : String} {j : Json} (h : Value.TagOf .float (.text s) j) : Value.Form j (.float s)
  | boolean {b : Bool} {j : Json} (h : Value.TagOf .boolean (.bool b) j) : Value.Form j (.boolean b)
  | enum {s : String} {j : Json} (h : Value.TagOf .enum (.text s) j) : Value.Form j (.enum s)
  | list {js : List Json} {vs : List Value} {j : Json} (members : Value.Forms js vs)
      (h : Value.TagOf .list (.array js) j) : Value.Form j (.list vs)
  | object {js : List Json} {fs : List (String × Value)} {j : Json}
      (fields : Value.FieldForms js fs) (h : Value.TagOf .object (.array js) j) :
      Value.Form j (.object fs)
  | variable {s : String} {j : Json} (h : Value.TagOf .variable (.text s) j) :
      Value.Form j (.variable s)
  | null : Value.Form (.record [("kind", .text Shape.null.name)]) .null

inductive Value.Forms : List Json → List Value → Prop where
  | nil : Value.Forms [] []
  | cons {j : Json} {js : List Json} {v : Value} {vs : List Value} (first : Value.Form j v)
      (rest : Value.Forms js vs) : Value.Forms (j :: js) (v :: vs)

inductive Value.FieldForms : List Json → List (String × Value) → Prop where
  | nil : Value.FieldForms [] []
  | cons {name : String} {j : Json} {js : List Json} {v : Value} {fs : List (String × Value)}
      (first : Value.Form j v) (rest : Value.FieldForms js fs) :
      Value.FieldForms (.array [.text name, j] :: js) ((name, v) :: fs)

end

/-! ## Tags -/

namespace Tagged

theorem of?_tagged (held : Bool) (n : Nat) (shape : Shape) (content : Json) :
    of? held (n + 1) (Value.tagged shape content) = some ⟨shape, some content, held⟩ := by
  have hname : Json.asName held n (.text shape.name) = some shape.name := by
    cases n <;> rfl
  have hselect : Fields.select? ["kind", "value"] false
      [("kind", .text shape.name), ("value", content)] =
        some [("kind", .text shape.name), ("value", content)] := rfl
  rw [Value.tagged, Json.record, of?, Json.keyed?_record, Option.bind_eq_bind, Option.bind_some,
    ofMembers?, hselect]
  simp [hname, Shape.ofName?_name]

theorem of?_null (held : Bool) (n : Nat) :
    of? held (n + 1) (.record [("kind", .text Shape.null.name)]) = some ⟨.null, none, held⟩ := by
  cases n <;> cases held <;> rfl

/-- A tag is read in either order; content that comes first must be fit to be held back. -/
theorem of?_tagOf {shape : Shape} {content j : Json} (h : Value.TagOf shape content j) (held : Bool)
    {n : Nat} (hcontent : Json.isHoldable n content = true) :
    ∃ held', of? held (n + 1) j = some ⟨shape, some content, held'⟩ := by
  cases h with
  | kindFirst => exact ⟨held, of?_tagged held n shape content⟩
  | valueFirst =>
    have hname : Json.asName held n (.text shape.name) = some shape.name := by
      cases n <;> rfl
    have hselect : Fields.select? ["kind", "value"] false
        [("value", content), ("kind", .text shape.name)] =
          some [("value", content), ("kind", .text shape.name)] := rfl
    refine ⟨true, ?_⟩
    rw [Json.record, of?, Json.keyed?_record, Option.bind_eq_bind, Option.bind_some, ofMembers?,
      hselect]
    simp [hname, Shape.ofName?_name, hcontent]

/-- A tag opens a container. -/
theorem pos_of_of? {held : Bool} {depth : Nat} {j : Json} {t : Tagged}
    (h : of? held depth j = some t) : ∃ n, depth = n + 1 := by
  unfold of? at h
  split at h
  · exact ⟨_, rfl⟩
  · exact ⟨_, rfl⟩
  · cases h

end Tagged

namespace Value

theorem toJsons_eq_map (vs : List Value) : toJsons vs = vs.map toJson := by
  induction vs with
  | nil => rfl
  | cons v vs ih => rw [toJsons, ih, List.map_cons]

theorem fieldsToJson_eq_map (fs : List (String × Value)) :
    fieldsToJson fs = fs.map fun (name, v) => .array [.text name, toJson v] := by
  induction fs with
  | nil => rfl
  | cons f fs ih => rw [fieldsToJson, ih, List.map_cons]

/-! ## Reading back -/

/-- Decodes with more fuel than there are containers left to open. -/
def decodeIn (spare : Nat) (held : Bool) : Decoder Value :=
  fun depth => decodeWith (depth + spare) held depth

theorem decodeIn_succ (spare : Nat) (held : Bool) (n : Nat) :
    decodeIn spare held (n + 1) = decodeWith (n + spare + 1) held (n + 1) := by
  rw [decodeIn, Nat.add_right_comm]

/-- The value of a field is decoded inside the field's array. -/
theorem asField_congr {d d' : Decoder Value} {n : Nat} (h : ∀ k, n = k + 1 → d k = d' k) :
    asField d n = asField d' n := by
  funext j
  unfold asField
  split
  · rw [h _ rfl]
  · rfl

/-- JSON that can be written, and held back wherever some written form may be nested. -/
structure Plain (written j : Json) : Prop where
  writable : j.Writable
  holdable : ∀ n, written.depth ≤ n → Json.isHoldable n j = true

/-- The JSON is plain and is decoded as the value where its written form may be nested. -/
structure Readable (j : Json) (v : Value) : Prop extends Plain v.toJson j where
  gives : ∀ spare held, Gives (decodeIn spare held) v.toJson.depth j v

theorem plain_text (s : String) : Plain (.text s) (.text s) :=
  ⟨.string _, fun _ _ => by simp [Json.text, Json.isHoldable]⟩

theorem plain_tag {shape : Shape} {written content j : Json} (hj : TagOf shape content j)
    (h : Plain written content) : Plain (tagged shape written) j := by
  constructor
  case writable =>
    cases hj <;> exact Json.writable_record (by simp [Json.text, Json.Writable.string, h.writable])
  case holdable =>
    intro depth hdepth
    obtain ⟨n, rfl, hn⟩ := Json.depth_record_le.mp hdepth
    have hheld := h.holdable n (hn ("value", written) (by simp))
    cases hj <;> simp [Json.record, Json.text, Json.isHoldable, Json.membersHoldable, hheld]

theorem allHoldable_iff {n : Nat} {js : List Json} :
    Json.allHoldable n js = true ↔ ∀ j ∈ js, Json.isHoldable n j = true := by
  induction js with
  | nil => simp [Json.allHoldable]
  | cons j js ih => simp [Json.allHoldable, ih]

theorem plain_array {α : Type} {R : Json → α → Prop} {write : α → Json} {js : List Json}
    {as : List α} (h : List.Forall₂ R js as) (hR : ∀ j a, R j a → Plain (write a) j) :
    Plain (.array (as.map write)) (.array js) := by
  constructor
  case writable =>
    exact .array (Json.forall_of_forall₂ h fun j a ha => (hR j a ha).writable)
  case holdable =>
    intro depth hdepth
    obtain ⟨n, rfl, hn⟩ := Json.depth_array_le.mp hdepth
    have hall := (List.forall₂_and_left _ _).mpr ⟨List.forall_mem_map.mp hn, h.flip⟩
    rw [Json.isHoldable, allHoldable_iff]
    exact Json.forall_of_forall₂ hall.flip fun j a ⟨ha, hj⟩ => (hR j a hj).holdable n ha

theorem decodeWith_of_tag {shape : Shape} {content j : Json} {held held' : Bool} {n : Nat}
    (h : Tagged.of? held (n + 1) j = some ⟨shape, some content, held'⟩) (fuel : Nat) :
    decodeWith (fuel + 1) held (n + 1) j =
      decodeWith (fuel + 1) held' (n + 1) (tagged shape content) := by
  rw [decodeWith, decodeWith, h, Tagged.of?_tagged]

/-- Whatever order the shape and the content come in, the content decides. -/
theorem readable_tag {shape : Shape} {written content j : Json} {v : Value}
    (hv : v.toJson = tagged shape written) (hj : TagOf shape content j)
    (hcontent : Plain written content)
    (h : ∀ spare held n, written.depth ≤ n →
      decodeWith (n + spare + 1) held (n + 1) (tagged shape content) = some v) : Readable j v := by
  refine ⟨hv ▸ plain_tag hj hcontent, fun spare held depth hdepth => ?_⟩
  rw [hv] at hdepth
  obtain ⟨n, rfl, hn⟩ := Json.depth_record_le.mp hdepth
  have hn := hn ("value", written) (by simp)
  obtain ⟨held', htag⟩ := Tagged.of?_tagOf hj held (hcontent.holdable n hn)
  rw [decodeIn_succ, decodeWith_of_tag htag]
  exact h spare held' n hn

/-- A field of an object, its value in one of the forms. -/
inductive ReadableField : Json → String × Value → Prop where
  | mk {name : String} {j : Json} {v : Value} (h : Readable j v) :
      ReadableField (.array [.text name, j]) (name, v)

def fieldToJson (f : String × Value) : Json := .array [.text f.1, f.2.toJson]

theorem ReadableField.plain {j : Json} {f : String × Value} (h : ReadableField j f) :
    Plain (fieldToJson f) j := by
  obtain @⟨name, j, v, h⟩ := h
  have hparts : List.Forall₂ (fun j (written : Json) => Plain written j) [.text name, j]
      [.text name, v.toJson] := .cons (plain_text name) (.cons h.toPlain .nil)
  exact @plain_array Json _ id _ _ hparts fun _ _ => id

theorem ReadableField.gives {j : Json} {f : String × Value} (h : ReadableField j f) (spare : Nat)
    (held : Bool) : Gives (asField (decodeIn spare held)) (fieldToJson f).depth j f := by
  obtain @⟨name, j, v, h⟩ := h
  intro depth hdepth
  obtain ⟨n, rfl, hn⟩ := Json.depth_array_le.mp hdepth
  have hvalue := h.gives spare held n (hn v.toJson (by simp))
  change (name, ·) <$> decodeIn spare held n j = some (name, v)
  rw [hvalue]
  rfl

mutual

theorem readable_of_form (v : Value) {j : Json} (h : Form j v) : Readable j v := by
  match v, h with
  | .string s, .string h | .int s, .int h | .float s, .float h | .enum s, .enum h
  | .variable s, .variable h =>
    refine readable_tag (by rw [toJson]) h (plain_text s) fun spare held n _ => ?_
    rw [decodeWith, Tagged.of?_tagged]
    rfl
  | .boolean b, .boolean h =>
    have hplain : Plain (.bool b) (.bool b) := ⟨.bool b, fun _ _ => by simp [Json.isHoldable]⟩
    refine readable_tag (by rw [toJson]) h hplain fun spare held n _ => ?_
    rw [decodeWith, Tagged.of?_tagged]
    rfl
  | .list vs, @Form.list js _ _ members h =>
    have hall := readable_of_forms vs members
    have hwritten : (list vs).toJson = tagged .list (.array (vs.map toJson)) := by
      rw [toJson, toJsons_eq_map]
    have hplain := plain_array hall fun _ _ => Readable.toPlain
    refine readable_tag hwritten h hplain fun spare held n hn => ?_
    have hread := Json.gives_list (.mk hall) fun a _ j ha => ha.gives (spare + 1) held
    obtain ⟨m, rfl, -⟩ := Json.depth_array_le.mp hn
    -- a member is one container deeper and has one more level of fuel to spare
    have hspare : m + 1 + spare = m + (spare + 1) := by omega
    have hmembers : asList (decodeWith (m + 1 + spare) held) (m + 1) (.array js) = some vs := by
      rw [hspare]
      exact hread (m + 1) hn
    rw [decodeWith, Tagged.of?_tagged]
    change Value.list <$> asList (decodeWith (m + 1 + spare) held) (m + 1) _ = _
    rw [hmembers]
    rfl
  | .object fs, @Form.object js _ _ fields h =>
    have hall := readable_of_fieldForms fs fields
    have hwritten : (object fs).toJson = tagged .object (.array (fs.map fieldToJson)) := by
      rw [toJson, fieldsToJson_eq_map]
      rfl
    have hplain := plain_array hall fun _ _ => ReadableField.plain
    refine readable_tag hwritten h hplain fun spare held n hn => ?_
    have hread := Json.gives_list (.mk hall) fun f _ j hf => hf.gives (spare + 2) held
    obtain ⟨m, rfl, -⟩ := Json.depth_array_le.mp hn
    have hinner : asField (decodeWith (m + 1 + spare) held) m =
        asField (decodeIn (spare + 2) held) m := by
      apply asField_congr
      rintro k rfl
      have hspare : k + 1 + 1 + spare = k + (spare + 2) := by omega
      rw [hspare, decodeIn]
    have hfields : asList (asField (decodeWith (m + 1 + spare) held)) (m + 1) (.array js) = some fs := by
      change js.mapM (asField (decodeWith (m + 1 + spare) held) m) = some fs
      rw [hinner]
      exact hread (m + 1) hn
    rw [decodeWith, Tagged.of?_tagged]
    change Value.object <$> asList (asField (decodeWith (m + 1 + spare) held)) (m + 1) _ = _
    rw [hfields]
    rfl
  | .null, .null =>
    have hkind : ∀ m ∈ [("kind", Json.text Shape.null.name)], m.2.Writable := by
      simp [Json.text, Json.Writable.string]
    refine ⟨⟨Json.writable_record hkind, fun depth hdepth => ?_⟩, fun spare held depth hdepth => ?_⟩
    · obtain ⟨n, rfl, -⟩ := Json.depth_record_le.mp hdepth
      simp [Json.record, Json.text, Json.isHoldable, Json.membersHoldable]
    · obtain ⟨n, rfl, -⟩ := Json.depth_record_le.mp hdepth
      rw [decodeIn_succ, decodeWith, Tagged.of?_null]
      rfl

theorem readable_of_forms (vs : List Value) {js : List Json} (h : Forms js vs) :
    List.Forall₂ Readable js vs := by
  match vs, h with
  | [], .nil => exact .nil
  | v :: vs, .cons first rest => exact .cons (readable_of_form v first) (readable_of_forms vs rest)

theorem readable_of_fieldForms (fs : List (String × Value)) {js : List Json}
    (h : FieldForms js fs) : List.Forall₂ ReadableField js fs := by
  match fs, h with
  | [], .nil => exact .nil
  | (_, v) :: fs, .cons first rest =>
    exact .cons (.mk (readable_of_form v first)) (readable_of_fieldForms fs rest)

end

theorem gives_of_form {v : Value} {j : Json} (h : Form j v) : Gives ofJson v.toJson.depth j v :=
  (readable_of_form v h).gives 0 false

/-! ## The written form -/

mutual

theorem form_toJson (v : Value) : Form v.toJson v := by
  match v with
  | .string s =>
    rw [toJson]
    exact .string .kindFirst
  | .int s =>
    rw [toJson]
    exact .int .kindFirst
  | .float s =>
    rw [toJson]
    exact .float .kindFirst
  | .boolean b =>
    rw [toJson]
    exact .boolean .kindFirst
  | .enum s =>
    rw [toJson]
    exact .enum .kindFirst
  | .list vs =>
    rw [toJson]
    exact .list (forms_toJsons vs) .kindFirst
  | .object fs =>
    rw [toJson]
    exact .object (fieldForms_fieldsToJson fs) .kindFirst
  | .variable s =>
    rw [toJson]
    exact .variable .kindFirst
  | .null =>
    rw [toJson]
    exact .null

theorem forms_toJsons (vs : List Value) : Forms (toJsons vs) vs := by
  match vs with
  | [] => exact .nil
  | v :: vs => exact .cons v.form_toJson (forms_toJsons vs)

theorem fieldForms_fieldsToJson (fs : List (String × Value)) :
    FieldForms (fieldsToJson fs) fs := by
  match fs with
  | [] => exact .nil
  | (_, v) :: fs => exact .cons v.form_toJson (fieldForms_fieldsToJson fs)

end

theorem writable_toJson (v : Value) : v.toJson.Writable :=
  (readable_of_form v v.form_toJson).writable

/-! ## What was read -/

theorem depth_tagged_le {shape : Shape} {content : Json} {n : Nat} :
    (tagged shape content).depth ≤ n + 1 ↔ content.depth ≤ n := by
  simp [tagged, Json.depth_record_le, Json.text, Json.depth]

theorem yields_asField {d : Decoder Value} {P : Nat → Value → Prop} (h : Yields d P) :
    Yields (asField d) fun depth f => ∃ n, depth = n + 1 ∧ P n f.2 := by
  intro depth j f hj
  unfold asField at hj
  split at hj
  · next n name v =>
    obtain ⟨w, hw, rfl⟩ := Option.map_eq_some_iff.mp hj
    exact ⟨n, rfl, h n v w hw⟩
  · cases hj

/-- A value that was read may be nested where it was read. -/
theorem yields_decodeWith (fuel : Nat) (held : Bool) :
    Yields (decodeWith fuel held) fun depth v => v.toJson.depth ≤ depth := by
  induction fuel generalizing held with
  | zero =>
    intro depth j v h
    cases h
  | succ fuel ih =>
    intro depth j v h
    obtain ⟨t, ht, h⟩ := Option.bind_eq_some_iff.mp h
    obtain ⟨n, rfl⟩ := Tagged.pos_of_of? ht
    split at h
    case h_6 content _ _ =>
      obtain ⟨vs, hvs, rfl⟩ := Option.map_eq_some_iff.mp h
      obtain ⟨m, rfl, hm⟩ := Json.yields_list (ih t.held) _ _ _ hvs
      rw [toJson, depth_tagged_le, Json.depth_array_le, toJsons_eq_map]
      exact ⟨m, rfl, List.forall_mem_map.mpr hm⟩
    case h_7 content _ _ =>
      obtain ⟨fs, hfs, rfl⟩ := Option.map_eq_some_iff.mp h
      obtain ⟨m, rfl, hm⟩ := Json.yields_list (yields_asField (ih t.held)) _ _ _ hfs
      rw [toJson, depth_tagged_le, Json.depth_array_le, fieldsToJson_eq_map]
      refine ⟨m, rfl, List.forall_mem_map.mpr fun f hf => ?_⟩
      obtain ⟨k, rfl, hk⟩ := hm f hf
      exact Json.depth_array_le.mpr ⟨k, rfl, by simpa [Json.text, Json.depth] using hk⟩
    case h_11 => cases h
    all_goals
      cases h
      simp [toJson, depth_tagged_le, Json.depth_record_le, Json.text, Json.depth]

theorem yields : Yields ofJson fun depth v => v.toJson.depth ≤ depth :=
  fun depth => yields_decodeWith depth false depth

end Value
end InputGuard.Schema
