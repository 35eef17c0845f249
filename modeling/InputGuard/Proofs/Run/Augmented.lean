import InputGuard.Proofs.Run.Reorder

/-! # Augmented ids

The report of a run that succeeds lists as augmented exactly the ids whose template
the run changed (`mem_augmented_iff`), and each of them is the id of a mutation of a
type in the document (`exists_mutation`). -/

namespace InputGuard

open Resolver (Store Report Edit Operation)
open Schema (Document)

theorem Resolver.Edit.stack_ne_empty_iff {es : List Edit} {id : String} :
    Edit.stack es id ≠ "" ↔ ∃ e ∈ es, e.id = id := by
  induction es with
  | nil => simp [Edit.stack]
  | cons e es ih =>
    rw [Edit.stack_cons, ne_eq, String.append_eq_empty_iff, Classical.not_and_iff_not_or_not, ← ne_eq, ih]
    by_cases h : e.id = id
    · simp [h]
    · simp [h]

namespace Run

variable {c : Config} {d : Document} {store : Store} {report : Report}

/-- A run that succeeds is the row of all edits. -/
theorem document_of_ok (h : (document c d store).result = .ok report) :
    (document c d store).store = Edit.applyAll store (d.occurrences.flatMap (editsOf c)) ∧
      report = Edit.report store (d.occurrences.flatMap (editsOf c)) := by
  obtain ⟨hstore, hresult⟩ := occurrences_of_faultless (faultless_of_ok h) store
  exact ⟨hstore, Except.ok.inj (h.symm.trans hresult)⟩

theorem mem_augmented {id : String} (h : (document c d store).result = .ok report) :
    id ∈ report.augmented ↔
      store.contains id = true ∧ ∃ e ∈ d.occurrences.flatMap (editsOf c), e.id = id := by
  rw [(document_of_ok h).2, Edit.report, List.mem_filter, List.mem_map]
  exact And.comm

theorem mem_augmented_iff {id : String} (h : (document c d store).result = .ok report) :
    id ∈ report.augmented ↔ ((document c d store).store.get? id).map (·.request) ≠
      (store.get? id).map (·.request) := by
  rw [mem_augmented h, (document_of_ok h).1, Edit.get?_applyAll, OrderedMap.contains]
  cases store.get? id with
  | none => simp
  | some r =>
    have hchanged : (∃ e ∈ d.occurrences.flatMap (editsOf c), e.id = id) ↔
        Edit.stack (d.occurrences.flatMap (editsOf c)) id ++ r.request ≠ r.request := by
      rw [ne_eq, String.append_eq_right_iff]
      exact Edit.stack_ne_empty_iff.symm
    simp only [Option.isSome_some, true_and, Option.map_some, ne_eq, Option.some.injEq]
    exact hchanged

theorem exists_mutation {id : String} (h : (document c d store).result = .ok report)
    (hid : id ∈ report.augmented) : ∃ t ∈ d.types, ∃ o : Operation, o.id c t.name = id := by
  obtain ⟨-, e, he, rfl⟩ := (mem_augmented h).mp hid
  rw [flatMap_editsOf] at he
  obtain ⟨t, ht, het⟩ := List.mem_flatMap.mp he
  obtain ⟨o, ho⟩ := id_of_mem_typeEdits het
  exact ⟨t, ht, o, ho.symm⟩

end Run
end InputGuard
