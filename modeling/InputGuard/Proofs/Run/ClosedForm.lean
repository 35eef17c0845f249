import InputGuard.Proofs.Run.Effect

/-! # A whole run in closed form

A run that succeeds gives every occurrence of our directive a snippet. What it
leaves in the store and in the report follows from these snippets and the ids of
their targets alone (`document_closed_form`). -/

namespace InputGuard.Run

open Schema (Occurrence Document)
open Resolver (Store Report Edit)
open Rule (Fault)

variable {c : Config}

/-- The occurrences of our directive, in source order. -/
def validators (d : Document) : List Occurrence := d.occurrences.filter isOurs

/-- The edits of occurrences that have the given snippets. -/
def editsWith (c : Config) (os : List Occurrence) (snippets : List String) : List Edit :=
  (os.zip snippets).flatMap fun (o, snippet) => editsFor c o snippet

theorem faultless_of_ok {os : List Occurrence} {store : Store} {report : Report}
    (h : (occurrences c os store).result = .ok report) : ∀ o ∈ os, faultOf c o = none := by
  rcases faultless_or_first_fault c os with hall | ⟨before, o, after, f, rfl, hbefore, hf⟩
  · exact hall
  · rw [(occurrences_of_fault hbefore hf store).2] at h
    cases h

/-- Occurrences without a fault have snippets, and these make their edits. -/
theorem edits_of_faultless {os : List Occurrence} (h : ∀ o ∈ os, faultOf c o = none) :
    ∃ snippets : List String,
      (os.filter isOurs).map (snippetOf c) = snippets.map .ok ∧
        os.flatMap (editsOf c) = editsWith c (os.filter isOurs) snippets := by
  induction os with
  | nil => exact ⟨[], rfl, rfl⟩
  | cons o os ih =>
    obtain ⟨ho, hos⟩ := List.forall_mem_cons.mp h
    obtain ⟨snippets, hmap, hedits⟩ := ih hos
    rcases compile_of_faultless ho with ⟨hn, -⟩ | ⟨snippet, hy, hs, -⟩
    · refine ⟨snippets, ?_, ?_⟩
      · rw [List.filter_cons_of_neg (by simp [hn]), hmap]
      · rw [List.filter_cons_of_neg (by simp [hn]), List.flatMap_cons, hedits]
        simp [editsOf, hn]
    · refine ⟨snippet :: snippets, ?_, ?_⟩
      · rw [List.filter_cons_of_pos hy, List.map_cons, List.map_cons, hmap, hs]
      · rw [List.filter_cons_of_pos hy, List.flatMap_cons, hedits]
        simp [editsOf, hy, hs, editsWith]

/-- What a run leaves behind if the occurrences of our directive have these snippets. -/
structure ClosedForm (c : Config) (d : Document) (store : Store) (report : Report)
    (snippets : List String) : Prop where
  /-- each occurrence has its snippet -/
  compiled : (validators d).map (snippetOf c) = snippets.map .ok
  /-- the ids stay, and so does their order -/
  keys : (document c d store).store.keys = store.keys
  /-- a resource receives the snippets of its targets, the latest first -/
  entries : (document c d store).store.entries = store.entries.map fun (id, r) =>
    (id, { r with request := Edit.stack (editsWith c (validators d) snippets) id ++ r.request })
  /-- the targets that were there, in order and with repetitions -/
  augmented : report.augmented =
    ((editsWith c (validators d) snippets).map Edit.id).filter (store.contains ·)
  /-- the targets that were not -/
  skipped : report.skipped =
    ((editsWith c (validators d) snippets).map Edit.id).filter (!store.contains ·)

/-- A successful run puts the snippets of all occurrences of our directive in front
of their targets' request templates and changes nothing else. -/
theorem document_closed_form {d : Document} {store : Store} {report : Report}
    (h : (document c d store).result = .ok report) :
    ∃ snippets, ClosedForm c d store report snippets := by
  have hall := faultless_of_ok h
  obtain ⟨snippets, hmap, hedits⟩ := edits_of_faultless hall
  obtain ⟨hstore, hresult⟩ := occurrences_of_faultless hall store
  rw [hedits] at hstore hresult
  have hafter : (document c d store).store =
      Edit.applyAll store (editsWith c (validators d) snippets) := hstore
  have hreport : report = Edit.report store (editsWith c (validators d) snippets) :=
    Except.ok.inj (h.symm.trans hresult)
  refine ⟨snippets, ?_⟩
  constructor
  case compiled => exact hmap
  case keys => rw [hafter, Edit.keys_applyAll]
  case entries => rw [hafter, Edit.entries_applyAll]
  case augmented => rw [hreport]; rfl
  case skipped => rw [hreport]; rfl

/-- A marked type whose only field is trimmed and checked, in a store without the
resolver of its update mutation. -/
def trimmedTitle : Document :=
  ⟨[⟨"Post", .object, [⟨"model", []⟩],
    [⟨"title", .named "String",
      [⟨"validator", [⟨"type", .enum "filter"⟩, ⟨"filter", .enum "trim"⟩]⟩,
        ⟨"validator", [⟨"type", .enum "email"⟩]⟩]⟩]⟩]⟩

def createPost : Store :=
  .ofList [("CreatePostResolver", ⟨"Mutation", "createPost", "{}", "{}"⟩)]

theorem faultless_trimmedTitle : ∀ o ∈ trimmedTitle.occurrences, faultOf {} o = none :=
  List.forall_mem_cons.mpr ⟨rfl, List.forall_mem_cons.mpr ⟨rfl, nofun⟩⟩

theorem result_trimmedTitle : (document {} trimmedTitle createPost).result = .ok
    ⟨["CreatePostResolver", "CreatePostResolver"],
      ["UpdatePostResolver", "UpdatePostResolver"]⟩ := by
  have hreport : Edit.report createPost (trimmedTitle.occurrences.flatMap (editsOf {})) =
      ⟨["CreatePostResolver", "CreatePostResolver"],
        ["UpdatePostResolver", "UpdatePostResolver"]⟩ := by decide +kernel
  rw [document, (occurrences_of_faultless faultless_trimmedTitle createPost).2, hreport]

theorem document_closed_form_trimmedTitle :
    (document {} trimmedTitle createPost).result = .ok
        ⟨["CreatePostResolver", "CreatePostResolver"],
          ["UpdatePostResolver", "UpdatePostResolver"]⟩ ∧
      ∃ snippets, ClosedForm {} trimmedTitle createPost
        ⟨["CreatePostResolver", "CreatePostResolver"],
          ["UpdatePostResolver", "UpdatePostResolver"]⟩ snippets :=
  ⟨result_trimmedTitle, document_closed_form result_trimmedTitle⟩

end InputGuard.Run
