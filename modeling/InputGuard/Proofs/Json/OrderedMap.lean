import InputGuard.Proofs.Json.Decode
import InputGuard.Proofs.OrderedMap
import InputGuard.Resolver.Codec
import InputGuard.Rule.Codec

/-! # Ordered maps as JSON objects

Resolver stores and parameter records are read back from the objects they are
written as. An object that lists resources one after the other, ids repeated or
not, is read as the store that these assignments leave behind
(`maps_readBack`). -/

namespace InputGuard

open Json (Decoder Encodes Layout encodes_entries encodes_text)

/-! ## Entries -/

theorem OrderedMap.encodes_ofList {α : Type} {d : Decoder α} {ms : List (String × Json)}
    {ps : List (String × α)}
    (h : List.Forall₂ (fun m p => m.1 = p.1 ∧ Encodes d m.2 p.2) ms ps) :
    Encodes (fun depth j => OrderedMap.ofList <$> Json.asEntries d depth j) (.record ms)
      (OrderedMap.ofList ps) := by
  have hentries := encodes_entries h
  refine ⟨hentries.writable, fun depth hdepth => ?_⟩
  rw [hentries.decodes depth hdepth]
  rfl

/-- A map encoded entry by entry. -/
theorem OrderedMap.encodes_entries {α : Type} {d : Decoder α} {f : α → Json} (m : OrderedMap α)
    (h : ∀ a, Encodes d (f a) a) :
    Encodes (fun depth j => OrderedMap.ofList <$> Json.asEntries d depth j)
      (.record (m.entries.map fun (key, a) => (key, f a))) m := by
  have hpairs : List.Forall₂ (fun p q => p.1 = q.1 ∧ Encodes d p.2 q.2)
      (m.entries.map fun (key, a) => (key, f a)) m.entries :=
    List.forall₂_map_left_iff.mpr (List.forall₂_same.mpr fun p _ => ⟨rfl, h p.2⟩)
  have hm := encodes_ofList hpairs
  rwa [ofList_entries] at hm

/-! ## Resources -/

namespace Resolver

/-- A resource; an empty response template may be left out. -/
def Resource.listed (r : Resource) (short : Bool) : Json :=
  .record ([("TypeName", .text r.typeName), ("FieldName", .text r.fieldName),
    ("RequestMappingTemplate", .text r.request)] ++
      if short ∧ r.response = "" then [] else [("ResponseMappingTemplate", .text r.response)])

/-- The object that lists resources under their ids. -/
def Store.listing (ps : List (String × Resource × Bool)) : Json :=
  .record (ps.map fun (id, r, short) => (id, r.listed short))

theorem Resource.encodes_listed (r : Resource) (short : Bool) :
    Encodes Resource.ofJson (r.listed short) r := by
  by_cases h : short ∧ r.response = ""
  · obtain ⟨typeName, fieldName, request, response⟩ := r
    obtain ⟨rfl, rfl⟩ := h
    refine Json.Fields.encodes ?_ (by simp) (by simp) ?_
    · simp [Json.text, Json.Writable.string]
    · exact fun _ _ => rfl
  · rw [listed, if_neg h]
    refine Json.Fields.encodes ?_ (by simp) (by simp) ?_
    · simp [Json.text, Json.Writable.string]
    · exact fun _ _ => rfl

theorem Resource.depth_listed_le (r : Resource) (short : Bool) : (r.listed short).depth ≤ 1 := by
  rw [listed, Json.depth_record_le]
  refine ⟨0, rfl, ?_⟩
  by_cases h : short ∧ r.response = "" <;> simp [h, Json.text, Json.depth]

theorem Store.encodes_listing (ps : List (String × Resource × Bool)) :
    Encodes Store.ofJson (Store.listing ps) (.ofList (ps.map fun (id, r, _) => (id, r))) := by
  apply OrderedMap.encodes_ofList
  rw [List.forall₂_map_left_iff, List.forall₂_map_right_iff, List.forall₂_same]
  exact fun p _ => ⟨rfl, p.2.1.encodes_listed p.2.2⟩

theorem Store.depth_listing_le (ps : List (String × Resource × Bool)) :
    (Store.listing ps).depth ≤ Json.nesting := by
  rw [listing, Json.depth_record_le]
  refine ⟨126, rfl, ?_⟩
  rw [List.forall_mem_map]
  exact fun p _ => Nat.le_trans (p.2.1.depth_listed_le p.2.2) (by decide)

end Resolver

/-! ## Records -/

namespace Rule

theorem Extracted.encodes (e : Extracted) : Encodes Extracted.ofJson e.toJson e := by
  cases e with
  | scalar text => exact ⟨.string _, fun _ _ => rfl⟩
  | list members =>
    have hlist : Encodes (Json.asList Json.asText) (.array (members.map .text)) members :=
      Json.encodes_map fun s _ => encodes_text s
    refine ⟨hlist.writable, fun depth hdepth => ?_⟩
    rw [toJson, ofJson, hlist.decodes depth hdepth]
    · rfl
    · nofun

theorem Record.encodes (r : Record) : Encodes Record.ofJson (Record.toJson r) r :=
  r.encodes_entries Extracted.encodes

end Rule

/-! ## Reading back -/

open Resolver (Resource Store)
open Rule (Record)

theorem Resolver.Store.readBack_listing {l : Layout} (hl : l.Blank)
    (ps : List (String × Resource × Bool)) :
    Store.ofText? ((Store.listing ps).write l) =
      some (.ofList (ps.map fun (id, r, _) => (id, r))) :=
  (Store.encodes_listing ps).read hl (Store.depth_listing_le ps)

end InputGuard
