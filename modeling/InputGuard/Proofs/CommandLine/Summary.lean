import InputGuard.Proofs.CommandLine.Emission
import Mathlib.Algebra.BigOperators.Group.Finset.Basic
import Mathlib.Algebra.Order.BigOperators.Group.Finset

/-! # What the summary line counts

The numbers in the last line of the command `apply` add up how often each id was a
target, among the ids whose templates were changed and among those that were missing
(`summary_counts_targets`). They are numbers of distinct ids only as long as no such id
is a target twice: two directives on one type count it twice (`summary_counts_twice`). -/

namespace InputGuard

open Resolver (Edit)
open Schema (Occurrence)

namespace Run

variable {c : Config}

/-- Occurrences without a fault have one edit for each of their targets. -/
theorem ids_of_faultless {os : List Occurrence} (h : ∀ o ∈ os, faultOf c o = none) :
    (os.flatMap (editsOf c)).map Edit.id =
      (os.filter isOurs).flatMap fun o => Resolver.targets c o.parent.name := by
  induction os with
  | nil => rfl
  | cons o os ih =>
    obtain ⟨ho, hos⟩ := List.forall_mem_cons.mp h
    rw [List.flatMap_cons, List.map_append, ih hos]
    rcases compile_of_faultless ho with ⟨hn, -⟩ | ⟨snippet, hy, hs, -⟩
    · rw [List.filter_cons_of_neg (by simp [hn])]
      simp [editsOf, hn]
    · rw [List.filter_cons_of_pos hy, List.flatMap_cons]
      have hedits : editsOf c o = editsFor c o snippet := by simp [editsOf, hy, hs]
      rw [hedits]
      rfl

end Run

namespace CommandLine

variable {program : String} {words : List String} {d : Directory}

/-! ## Commands that succeed -/

theorem complaint_of_exitCode {e : Ending} (h : e.exitCode = 0) : e.complaint = none := by
  unfold Ending.exitCode at h
  cases hc : e.complaint with
  | none => rfl
  | some complaint =>
    rw [hc] at h
    cases h

namespace Prepared

/-- Whatever is printed before it, the summary of the report comes last. -/
theorem printed_eq (p : Prepared words d) (h : (run words d program).exitCode = 0) :
    ∃ shown, (run words d program).progress.printed = shown ++ summary p.report := by
  have output := p.outputSucceeds (complaint_of_exitCode h)
  rcases p.output_cases output program with ⟨-, hrun⟩ | ⟨folder, after, -, -, hrun⟩
  · exact ⟨_, by rw [hrun]; rfl⟩
  · exact ⟨_, by rw [hrun]; rfl⟩

/-! ## Ids and how often they are targets -/

/-- The targets of all occurrences of our directive, in order and with repetitions. -/
def aims (p : Prepared words d) : List String :=
  (Run.validators p.document).flatMap fun o => Resolver.targets p.config o.parent.name

/-- The ids whose request template the run changed. -/
def changed (p : Prepared words d) : Finset String :=
  {id ∈ p.store.keys.toFinset |
    (p.final.get? id).map (·.request) ≠ (p.store.get? id).map (·.request)}

/-- The ids that were targets and that the store does not have. -/
def missing (p : Prepared words d) : Finset String :=
  {id ∈ p.aims.toFinset | id ∉ p.store.keys}

theorem report_eq (p : Prepared words d) :
    p.report = ⟨p.aims.filter (p.store.contains ·), p.aims.filter (!p.store.contains ·)⟩ := by
  have hids := Run.ids_of_faultless (Run.faultless_of_ok p.compiles)
  rw [(Run.document_of_ok p.compiles).2, Edit.report, hids]
  rfl

theorem changed_eq (p : Prepared words d) :
    p.changed = {id ∈ p.aims.toFinset | p.store.contains id = true} := by
  ext id
  have haugmented : id ∈ p.report.augmented ↔ _ := Run.mem_augmented_iff p.compiles
  rw [p.report_eq, List.mem_filter] at haugmented
  rw [changed, Finset.mem_filter, Finset.mem_filter, List.mem_toFinset, List.mem_toFinset,
    ← OrderedMap.contains_iff]
  -- only an id of the store can have another template
  exact ⟨fun h => haugmented.mpr h.2, fun h => ⟨h.2, haugmented.mp h⟩⟩

theorem missing_eq (p : Prepared words d) :
    p.missing = {id ∈ p.aims.toFinset | (!p.store.contains id) = true} := by
  ext id
  rw [missing, Finset.mem_filter, Finset.mem_filter, ← OrderedMap.contains_iff, Bool.not_eq_true,
    Bool.not_eq_true']

end Prepared

/-- The values that pass a filter, counted one by one. -/
theorem length_filter_eq_sum_count (l : List String) (q : String → Bool) :
    (l.filter q).length = ∑ id ∈ l.toFinset with q id = true, l.count id := by
  rw [← List.sum_toFinset_count_eq_length, List.toFinset_filter]
  refine Finset.sum_congr rfl fun id hid => ?_
  exact List.count_filter (Finset.mem_filter.mp hid).2

/-- Counting with repetitions is counting without them as long as there are none. -/
theorem sum_count_eq_card_iff {l : List String} {s : Finset String} (h : ∀ id ∈ s, id ∈ l) :
    ∑ id ∈ s, l.count id = s.card ↔ ∀ id ∈ s, l.count id = 1 := by
  have hpos : ∀ id ∈ s, 1 ≤ l.count id := fun id hid => List.count_pos_iff.mpr (h id hid)
  rw [Finset.card_eq_sum_ones, eq_comm, Finset.sum_eq_sum_iff_of_le hpos]
  simp only [eq_comm]

/-! ## The summary -/

/-- What the last line that a command printed says about its run. -/
structure SummaryCounts (p : Prepared words d) (e : Ending) : Prop where
  /-- the numbers add up how often the changed and the missing ids were targets -/
  line : ∃ shown, e.progress.printed = shown ++ "✅ " ++
    toString (∑ id ∈ p.changed, p.aims.count id) ++ " template(s) augmented, " ++
    toString (∑ id ∈ p.missing, p.aims.count id) ++ " missing resolver(s) skipped\n"
  /-- each of these ids was a target -/
  targets : ∀ id ∈ p.changed ∪ p.missing, id ∈ p.aims
  /-- the first is the number of changed ids exactly if none of them was a target twice -/
  augmented : ∑ id ∈ p.changed, p.aims.count id = p.changed.card ↔
    ∀ id ∈ p.changed, p.aims.count id = 1
  /-- and the second that of missing ids -/
  skipped : ∑ id ∈ p.missing, p.aims.count id = p.missing.card ↔
    ∀ id ∈ p.missing, p.aims.count id = 1

theorem summary_counts_targets (p : Prepared words d)
    (succeeds : (run words d program).exitCode = 0) :
    SummaryCounts p (run words d program) := by
  have hchanged : ∀ id ∈ p.changed, id ∈ p.aims := by
    intro id hid
    rw [p.changed_eq] at hid
    exact List.mem_toFinset.mp (Finset.mem_filter.mp hid).1
  have hmissing : ∀ id ∈ p.missing, id ∈ p.aims := by
    intro id hid
    exact List.mem_toFinset.mp (Finset.mem_filter.mp hid).1
  constructor
  case line =>
    obtain ⟨shown, hprinted⟩ := p.printed_eq succeeds
    refine ⟨shown, ?_⟩
    rw [hprinted, summary, p.report_eq, length_filter_eq_sum_count, length_filter_eq_sum_count,
      p.changed_eq, p.missing_eq]
    simp only [String.append_assoc]
  case targets =>
    intro id hid
    exact (Finset.mem_union.mp hid).elim (hchanged id) (hmissing id)
  case augmented => exact sum_count_eq_card_iff hchanged
  case skipped => exact sum_count_eq_card_iff hmissing

theorem exitCode_preparedTitle : (run applyInto (project Run.trimmedTitle)).exitCode = 0 := by
  rw [Ending.exitCode, preparedTitle.complaint_eq_none outputSucceeds_preparedTitle]
  rfl

theorem summary_counts_targets_preparedTitle :
    (run applyInto (project Run.trimmedTitle)).exitCode = 0 ∧
      SummaryCounts preparedTitle (run applyInto (project Run.trimmedTitle)) :=
  ⟨exitCode_preparedTitle, summary_counts_targets preparedTitle exitCode_preparedTitle⟩

/-- Two directives on the one field count its one resolver twice, and so they do the one
that is missing. -/
theorem summary_counts_twice :
    (run applyInto (project Run.trimmedTitle)).exitCode = 0 ∧
      (∃ shown, (run applyInto (project Run.trimmedTitle)).progress.printed =
        shown ++ "✅ 2 template(s) augmented, 2 missing resolver(s) skipped\n") ∧
      preparedTitle.changed = {"CreatePostResolver"} ∧
      preparedTitle.missing = {"UpdatePostResolver"} := by
  refine ⟨exitCode_preparedTitle, preparedTitle.printed_eq exitCode_preparedTitle, ?_, ?_⟩
  · rw [preparedTitle.changed_eq]
    decide +kernel
  · decide +kernel

end CommandLine
end InputGuard
