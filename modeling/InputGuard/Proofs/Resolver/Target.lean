import InputGuard.Proofs.Config.Check
import InputGuard.Proofs.Text.Fill
import InputGuard.Proofs.Text.Parts
import InputGuard.Resolver.Target

/-! # Ids of create and update

The ids of one operation tell the types apart, since an accepted template has a
placeholder (`id_identifies_type`). An accepted configuration has two different
templates of ids, but their ids for one type are the same if the templates meet for
its name, and only then (`id_create_eq_update_iff`). The ids of the default
configuration are different for all types and operations (`id_default_inj`). -/

namespace InputGuard

/-- The templates of ids have the same characters when the placeholders are written out
with the type name. -/
def Config.Meets (c : Config) (typeName : String) : Prop :=
  Text.Meets typeName.toList (Text.holes c.createResolverId.toList)
    (Text.holes c.updateResolverId.toList)

/-- Whether the templates of ids differ, from the left and from the right, where one
has the placeholder and the other a text that the type name repeats. -/
def Config.clash (c : Config) (typeName : String) : Bool :=
  Text.clash typeName.toList c.createResolverId.toList c.updateResolverId.toList

namespace Resolver.Operation

theorem hasPlaceholder_template {c : Config} (accepted : c.Accepted) (o : Operation) :
    Text.hasPlaceholder (o.template c).toList = true := by
  cases o with
  | create => exact accepted.createResolverId
  | update => exact accepted.updateResolverId

/-- How an operation's id is made of its template and the name of a type. -/
structure IdentifiesType (c : Config) (o : Operation) : Prop where
  /-- types of different names have different ids -/
  injective : ∀ t t' : String, o.id c t = o.id c t' → t = t'
  /-- the template has placeholders, with parts around them that hold none -/
  cut : ∃ parts, 2 ≤ parts.length ∧ (∀ p ∈ parts, ¬Text.placeholder <:+: p) ∧
    (o.template c).toList = Text.placeholder.intercalate parts
  /-- however it is cut into such parts, the id has the name between them -/
  filled : ∀ parts, (∀ p ∈ parts, ¬Text.placeholder <:+: p) →
    (o.template c).toList = Text.placeholder.intercalate parts →
    ∀ t : String, (o.id c t).toList = t.toList.intercalate parts

theorem id_identifies_type {c : Config} (valid : c.check = .ok c) (o : Operation) :
    IdentifiesType c o := by
  have hplaceholder := hasPlaceholder_template (Config.check_eq_ok_iff.mp valid).2 o
  obtain ⟨p, parts, hplain, htemplate⟩ := Text.exists_parts (o.template c).toList
  rw [htemplate] at hplaceholder
  have htwo := Text.two_le_length hplaceholder hplain
  have hid {parts : List (List Char)} (hplain : ∀ p ∈ parts, Text.Plain p)
      (htemplate : (o.template c).toList = Text.placeholder.intercalate parts) (t : String) :
      (o.id c t).toList = t.toList.intercalate parts := by
    rw [id, String.toList_ofList, htemplate, Text.fill_intercalate hplain]
  constructor
  case injective =>
    intro t t' h
    apply String.toList_inj.mp
    apply Text.intercalate_injective htwo
    rw [← hid hplain htemplate, ← hid hplain htemplate, h]
  case cut => exact ⟨p :: parts, htwo, hplain, htemplate⟩
  case filled => exact fun parts hplain htemplate => hid hplain htemplate

/-- Placeholders side by side, and braces that do not make one. -/
def crowded : Config :=
  { createResolverId := "\x7b\x7btype\x7d\x7btype\x7d\x7bty", updateResolverId := "\x7btype\x7d" }

theorem id_identifies_type_crowded :
    crowded.check = .ok crowded ∧ IdentifiesType crowded .create :=
  ⟨rfl, id_identifies_type rfl .create⟩

theorem id_create_eq_update_iff {c : Config} {typeName : String}
    (nonempty : typeName.toList ≠ []) :
    create.id c typeName = update.id c typeName ↔ c.Meets typeName :=
  String.ofList_inj.trans (Text.meets_iff nonempty).symm

theorem clash_of_meets {c : Config} {typeName : String} (accepted : c.Accepted)
    (nonempty : typeName.toList ≠ []) (h : c.Meets typeName) : c.clash typeName = true := by
  rcases Text.clash_of_fill_eq nonempty ((Text.meets_iff nonempty).mp h) with hsame | hclash
  · exact absurd (String.toList_inj.mp hsame) accepted.templates_ne
  · exact hclash

theorem width_eq_of_meets {c : Config} {typeName : String} (h : c.Meets typeName) :
    Text.width typeName.length (Text.holes c.createResolverId.toList) =
      Text.width typeName.length (Text.holes c.updateResolverId.toList) := by
  have hlength := congrArg List.length (Text.flatMap_plug_eq_of_meets h)
  rwa [Text.length_flatMap_plug, Text.length_flatMap_plug] at hlength

theorem eq_of_meets {c : Config} {typeName other : String} (accepted : c.Accepted)
    (nonempty : typeName.toList ≠ []) (h : c.Meets typeName)
    (hlength : other.length = typeName.length) (hother : c.Meets other) : other = typeName := by
  rw [← String.length_toList, ← String.length_toList] at hlength
  have hnonempty : other.toList ≠ [] := by
    rw [← List.length_pos_iff, hlength, List.length_pos_iff]
    exact nonempty
  have hclash := clash_of_meets accepted nonempty h
  have hclash' := clash_of_meets accepted hnonempty hother
  exact String.toList_inj.mp (Text.eq_of_clashes hlength (Bool.and_eq_true_iff.mp hclash').1
    (Bool.and_eq_true_iff.mp hclash).1)

/-- What the default configuration has in front of a type name. -/
def defaultOpening : Operation → String
  | .create => "Create"
  | .update => "Update"

theorem id_default (o : Operation) (typeName : String) :
    o.id {} typeName = o.defaultOpening ++ typeName ++ "Resolver" := by
  apply String.toList_inj.mp
  rw [id, String.toList_ofList, String.toList_append, String.toList_append]
  cases o <;> rfl

theorem id_default_inj {o o' : Operation} {t t' : String} (h : o.id {} t = o'.id {} t') :
    o = o' ∧ t = t' := by
  rw [id_default, id_default, String.append_left_inj] at h
  have hchars := congrArg String.toList h
  rw [String.toList_append, String.toList_append] at hchars
  have hlength : o.defaultOpening.toList.length = o'.defaultOpening.toList.length := by
    cases o <;> cases o' <;> simp [defaultOpening]
  obtain ⟨hopening, hname⟩ := List.append_inj hchars hlength
  refine ⟨?_, String.toList_inj.mp hname⟩
  cases o <;> cases o' <;> simp_all [defaultOpening]

/-- Types of different names have no id in common. -/
def Separated (c : Config) : Prop :=
  ∀ (o o' : Operation) (t t' : String), o.id c t = o'.id c t' → t = t'

theorem separated_default : Separated {} := fun _ _ _ _ h => (id_default_inj h).2

end Resolver.Operation
end InputGuard
