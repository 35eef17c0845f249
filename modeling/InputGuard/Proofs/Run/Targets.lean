import InputGuard.Proofs.Resolver.Target
import InputGuard.Proofs.Run.Effect

/-! # One snippet in each template

As long as create and update of a type have different ids, an occurrence puts its
snippet once into each of the two templates that are in the store
(`create_apart_from_update`). Templates of ids that meet for the name of the type give
it one id for both, and then the one template has the snippet twice
(`create_meets_update`). -/

namespace InputGuard.Run

open Schema (Occurrence Document)
open Resolver (Store Report Edit Operation)

variable {c : Config}

theorem occurrence_of_ok {o : Occurrence} {store : Store} {report : Report}
    (ours : isOurs o = true) (h : (occurrence c o store).result = .ok report) :
    ∃ snippet, snippetOf c o = .ok snippet ∧
      (occurrence c o store).store = Edit.applyAll store (editsFor c o snippet) := by
  cases hf : faultOf c o with
  | some f =>
    rw [(occurrence_of_fault hf store).2] at h
    cases h
  | none =>
    rcases compile_of_faultless hf with ⟨hn, -⟩ | ⟨snippet, -, hs, -⟩
    · rw [hn] at ours
      cases ours
    · have hedits : editsOf c o = editsFor c o snippet := by simp [editsOf, ours, hs]
      exact ⟨snippet, hs, hedits ▸ (occurrence_of_faultless hf store).1⟩

/-- What is known of the two mutations of a type. -/
structure CreateApartFromUpdate (c : Config) (typeName : String) : Prop where
  /-- their ids are different, unless the templates of ids meet for the name -/
  apart : Operation.create.id c typeName ≠ Operation.update.id c typeName ↔ ¬c.Meets typeName
  /-- templates that meet are filled to texts of one length -/
  width : c.Meets typeName →
    Text.width typeName.length (Text.holes c.createResolverId.toList) =
      Text.width typeName.length (Text.holes c.updateResolverId.toList)
  /-- templates that meet differ first, from either side, where one has the placeholder and
  the other a text that the name repeats -/
  clash : c.Meets typeName → c.clash typeName = true
  /-- templates that meet do so for no other name of the same length -/
  alone : c.Meets typeName → ∀ other : String, other.length = typeName.length →
    c.Meets other → other = typeName
  /-- if the ids are different, an occurrence on the type that succeeds puts its snippet
  once into the templates of the two, and into no other one -/
  once : Operation.create.id c typeName ≠ Operation.update.id c typeName →
    ∀ (o : Occurrence) (store : Store) (report : Report), o.parent.name = typeName →
      o.directive.name = "validator" → (occurrence c o store).result = .ok report →
      ∃ snippet, snippetOf c o = .ok snippet ∧
        ∀ id, (occurrence c o store).store.get? id = (store.get? id).map fun r =>
          if id ∈ Resolver.targets c typeName then
            { r with request := snippet ++ "\n\n" ++ r.request }
          else r

theorem create_apart_from_update {typeName : String} (valid : c.check = .ok c)
    (identifier : Text.isIdentifier typeName.toList = true) :
    CreateApartFromUpdate c typeName := by
  have accepted := (Config.check_eq_ok_iff.mp valid).2
  have hnonempty : typeName.toList ≠ [] := by
    intro hnil
    rw [hnil] at identifier
    cases identifier
  constructor
  case apart => exact not_congr (Operation.id_create_eq_update_iff hnonempty)
  case width => exact Operation.width_eq_of_meets
  case clash => exact Operation.clash_of_meets accepted hnonempty
  case alone => exact fun h _ => Operation.eq_of_meets accepted hnonempty h
  case once =>
    rintro hne o store report rfl ours h
    obtain ⟨snippet, hs, hstore⟩ := occurrence_of_ok (decide_eq_true ours) h
    refine ⟨snippet, hs, fun id => ?_⟩
    have hids : (Resolver.targets c o.parent.name).Nodup := by
      simpa [Resolver.targets, Operation.all] using hne
    have hstack : Edit.stack (editsFor c o snippet) id = _ :=
      Edit.stack_map_snippet hids snippet id
    rw [hstore, Edit.get?_applyAll, hstack]
    refine Option.map_congr fun r _ => ?_
    split
    · rfl
    · rw [String.empty_append]

/-- Templates that clash for the name of a type and do not meet. -/
def interleaved : Config :=
  { createResolverId := "\x7btype\x7dAddPost", updateResolverId := "PostUpd\x7btype\x7d" }

theorem create_apart_from_update_interleaved :
    interleaved.check = .ok interleaved ∧ Text.isIdentifier "Post".toList = true ∧
      interleaved.clash "Post" = true ∧
      Operation.create.id interleaved "Post" ≠ Operation.update.id interleaved "Post" ∧
      CreateApartFromUpdate interleaved "Post" :=
  ⟨rfl, by decide, by decide +kernel, by decide +kernel,
    create_apart_from_update rfl (by decide)⟩

/-- The placeholder in front of a letter, and behind it. -/
def mirrored : Config :=
  { createResolverId := "\x7btype\x7da", updateResolverId := "a\x7btype\x7d" }

def requiredTitle (typeName : String) : Occurrence :=
  ⟨⟨typeName, .object, [⟨"model", []⟩], []⟩, ⟨"title", .named "String", []⟩,
    ⟨"validator", [⟨"type", .enum "required"⟩]⟩⟩

/-- For a type named with that letter create and update are one resolver, and it
has the snippet of one occurrence twice. -/
theorem create_meets_update :
    mirrored.check = .ok mirrored ∧ Text.isIdentifier "a".toList = true ∧
      Operation.create.id mirrored "a" = Operation.update.id mirrored "a" ∧
      ∃ snippet, snippetOf mirrored (requiredTitle "a") = .ok snippet ∧
        (occurrence mirrored (requiredTitle "a")
          (.ofList [("aa", ⟨"Mutation", "createa", "{}", ""⟩)])).store.get? "aa" =
            some ⟨"Mutation", "createa", snippet ++ "\n\n" ++ (snippet ++ "\n\n" ++ "{}"), ""⟩ :=
  ⟨rfl, by decide, by decide +kernel, _, rfl, by decide +kernel⟩

end InputGuard.Run
