import InputGuard.Proofs.Run.ClosedForm
import InputGuard.Proofs.Snippet.Confinement

/-! # Reading a template after a run

A snippet and the empty line behind it leave the reader where it was: outside of
any literal and comment. So a template that a run has put snippets in front of is
read as these snippets, the newest first, and then as it was read before, whatever
text it holds (`document_reads_as_stack`). -/

namespace InputGuard

namespace Vtl

/-- In front of another text, with an empty line between, the text is read as it
is alone, and so is the other one. -/
def Closed (text : String) : Prop :=
  ∀ rest, lexemes (text.toList ++ "\n\n".toList ++ rest) =
    lexemes text.toList ++ codes "\n\n" ++ lexemes rest

/-- What a row of closed texts is read as, each with the empty line behind it. -/
def readings (texts : List String) : List Lexeme :=
  texts.flatMap fun text => lexemes text.toList ++ codes "\n\n"

theorem lexemes_join {texts : List String} (h : ∀ text ∈ texts, Closed text) (rest : List Char) :
    lexemes ((String.join (texts.map (· ++ "\n\n"))).toList ++ rest) =
      readings texts ++ lexemes rest := by
  induction texts with
  | nil => simp [readings]
  | cons text texts ih =>
    obtain ⟨htext, htexts⟩ := List.forall_mem_cons.mp h
    have hrow : (String.join ((text :: texts).map (· ++ "\n\n"))).toList ++ rest =
        text.toList ++ "\n\n".toList ++
          ((String.join (texts.map (· ++ "\n\n"))).toList ++ rest) := by
      simp [String.join_cons]
    rw [hrow, htext, ih htexts, ← List.append_assoc]
    rfl

end Vtl

/-- A snippet ends in a comment, and the line break behind it ends the comment. -/
theorem Snippet.closed_of_generate {config : Config} {field : String} {type : Schema.FieldType}
    {r : Rule.Record} {s : String} (valid : config.check = .ok config)
    (h : generate config field type r = .ok s) : Vtl.Closed s := by
  obtain ⟨rule, hrule, rfl⟩ := generate_eq_ok_iff.mp h
  have hwf := wellFormed_ofConfig valid (Rule.forField_eq_ok_iff.mp hrule).1
  intro rest
  have hread := read_render hwf rule (r := "\n\n".toList ++ rest) (.inr rfl)
  rw [List.append_assoc, Vtl.lexemes, hread, lexemes_render hwf, List.append_assoc]
  rfl

namespace Run

open Schema (Document Occurrence)
open Resolver (Store Report Edit)
open Vtl (lexemes readings)

variable {c : Config}

theorem snippet_mem_of_mem_editsWith {os : List Occurrence} {snippets : List String}
    {e : Edit} (h : e ∈ editsWith c os snippets) : e.snippet ∈ snippets := by
  obtain ⟨⟨o, s⟩, hos, he⟩ := List.mem_flatMap.mp h
  have hs : e.snippet = s := by
    simp only [editsFor, List.mem_cons, List.not_mem_nil, or_false] at he
    rcases he with rfl | rfl <;> rfl
  exact hs ▸ (List.of_mem_zip hos).2

/-- How templates are read after a run in which the occurrences of our directive
have these snippets. -/
structure ReadsAsStack (c : Config) (d : Document) (store : Store) (snippets : List String) :
    Prop where
  /-- each occurrence has its snippet -/
  compiled : (validators d).map (snippetOf c) = snippets.map .ok
  /-- a request template is read as the snippets for its id, the newest first, and
  then as the template that was there before -/
  requests : ∀ id, ((document c d store).store.get? id).map (lexemes ·.request.toList) =
    (store.get? id).map fun r =>
      readings (Edit.received (editsWith c (validators d) snippets) id) ++
        lexemes r.request.toList

/-- Prepending never changes how the text behind is read. -/
theorem document_reads_as_stack {d : Document} {store : Store} {report : Report}
    (valid : c.check = .ok c) (h : (document c d store).result = .ok report) :
    ∃ snippets, ReadsAsStack c d store snippets := by
  have hall := faultless_of_ok h
  obtain ⟨snippets, hcompiled, hedits⟩ := edits_of_faultless hall
  have hstore : (document c d store).store =
      Edit.applyAll store (editsWith c (validators d) snippets) :=
    hedits ▸ (occurrences_of_faultless hall store).1
  have hclosed : ∀ s ∈ snippets, Vtl.Closed s := by
    intro s hs
    have hok : .ok s ∈ (validators d).map (snippetOf c) := hcompiled ▸ List.mem_map_of_mem hs
    obtain ⟨o, -, ho⟩ := List.mem_map.mp hok
    exact Snippet.closed_of_generate valid ho
  refine ⟨snippets, hcompiled, fun id => ?_⟩
  rw [hstore, Edit.get?_applyAll, Option.map_map]
  refine Option.map_congr fun r _ => ?_
  rw [Function.comp_apply, String.toList_append, Edit.stack_eq_join]
  refine Vtl.lexemes_join (fun s hs => ?_) r.request.toList
  obtain ⟨e, he, rfl⟩ := Edit.mem_of_mem_received hs
  exact hclosed e.snippet (snippet_mem_of_mem_editsWith he)

/-- Templates that start in the middle of a comment or end inside a literal. -/
def brokenTemplates : Store :=
  .ofList [("CreatePostResolver", ⟨"Mutation", "createPost", "'never closed\n## [End]", ""⟩),
    ("UpdatePostResolver", ⟨"Mutation", "updatePost", "#\"$ctx", "{}"⟩)]

theorem document_reads_as_stack_brokenTemplates :
    ({} : Config).check = .ok {} ∧
      ∃ report, (document {} trimmedTitle brokenTemplates).result = .ok report ∧
        ∃ snippets, ReadsAsStack {} trimmedTitle brokenTemplates snippets := by
  have hresult := (occurrences_of_faultless faultless_trimmedTitle brokenTemplates).2
  exact ⟨rfl, _, hresult, document_reads_as_stack rfl hresult⟩

end Run
end InputGuard
