import InputGuard.Proofs.Resolver.Edit
import InputGuard.Run

/-! # What a run does

An occurrence has a fault or a row of edits, and neither depends on the store.
A run whose occurrences have no fault applies all their edits in order
(`occurrences_of_faultless`); any other run stops at the first fault and leaves
what the occurrences before it have done (`occurrences_of_fault`). -/

namespace InputGuard.Run

open Schema (Occurrence Document)
open Resolver (Store Report Edit Operation)
open Rule (Fault Record)

/-- Whether the directive of an occurrence is ours. -/
def isOurs (o : Occurrence) : Bool := o.directive.name = Rule.directiveName

/-- Whether the type of an occurrence carries the marker. -/
def isMarked (c : Config) (o : Occurrence) : Bool := o.parent.hasDirective c.modelDirective

/-- The snippet for the field of an occurrence. -/
def snippetOf (c : Config) (o : Occurrence) : Except Fault String :=
  Snippet.generate c o.field.name o.field.fieldType (.extract o.directive.arguments)

/-- Why an occurrence of our directive stops a run, the marker first. -/
def faultOf (c : Config) (o : Occurrence) : Option Fault :=
  if isOurs o then
    if isMarked c o then
      match snippetOf c o with
      | .error fault => some fault
      | .ok _ => none
    else some (.unmarkedParent c.modelDirective)
  else none

/-- The snippet under the id of the create mutation, then of the update mutation. -/
def editsFor (c : Config) (o : Occurrence) (snippet : String) : List Edit :=
  [⟨Operation.create.id c o.parent.name, snippet⟩, ⟨Operation.update.id c o.parent.name, snippet⟩]

/-- The edits of an occurrence; directives of other names have none. -/
def editsOf (c : Config) (o : Occurrence) : List Edit :=
  if isOurs o then
    match snippetOf c o with
    | .error _ => []
    | .ok snippet => editsFor c o snippet
  else []

variable {c : Config}

theorem compileField_result (field : String) (type : Schema.FieldType)
    (arguments : List Schema.Argument) :
    (compileField c field type arguments).result =
      some <$> Snippet.generate c field type (.extract arguments) := by
  unfold compileField Snippet.generate
  cases Rule.forField field type (.extract arguments) <;> rfl

theorem compile_result (c : Config) (o : Occurrence) :
    (compile c o).result =
      if isOurs o then
        if isMarked c o then some <$> snippetOf c o else .error (.unmarkedParent c.modelDirective)
      else .ok none := by
  unfold compile isOurs isMarked snippetOf
  by_cases ho : o.directive.name = Rule.directiveName
  · by_cases hm : o.parent.hasDirective c.modelDirective = true
    · simp [ho, hm, compileField_result]
    · simp [ho, hm]
  · simp [ho]

theorem compile_of_fault {o : Occurrence} {f : Fault} (h : faultOf c o = some f) :
    (compile c o).result = .error f := by
  rw [compile_result]
  unfold faultOf at h
  split at h
  · next ho =>
    rw [if_pos ho]
    split at h
    · next hm =>
      rw [if_pos hm]
      cases hs : snippetOf c o with
      | error f' =>
        rw [hs] at h
        cases h
        rfl
      | ok s =>
        rw [hs] at h
        cases h
    · next hm =>
      cases h
      rw [if_neg hm]
  · cases h

theorem compile_of_faultless {o : Occurrence} (h : faultOf c o = none) :
    (isOurs o = false ∧ (compile c o).result = .ok none) ∨
      ∃ snippet, isOurs o = true ∧ snippetOf c o = .ok snippet ∧
        (compile c o).result = .ok (some snippet) := by
  rw [compile_result]
  unfold faultOf at h
  split at h
  · next ho =>
    split at h
    · next hm =>
      cases hs : snippetOf c o with
      | error f => rw [hs] at h; cases h
      | ok snippet => exact .inr ⟨snippet, ho, rfl, by rw [if_pos ho, if_pos hm]; rfl⟩
    · cases h
  · next ho => exact .inl ⟨Bool.eq_false_iff.mpr ho, if_neg ho⟩

theorem occurrence_of_fault {o : Occurrence} {f : Fault} (h : faultOf c o = some f)
    (store : Store) :
    (occurrence c o store).store = store ∧ (occurrence c o store).result = .error f := by
  simp only [occurrence, compile_of_fault h, and_self]

theorem occurrence_of_faultless {o : Occurrence} (h : faultOf c o = none) (store : Store) :
    (occurrence c o store).store = Edit.applyAll store (editsOf c o) ∧
      (occurrence c o store).result = .ok (Edit.report store (editsOf c o)) := by
  rcases compile_of_faultless h with ⟨ho, hc⟩ | ⟨snippet, ho, hs, hc⟩
  · have he : editsOf c o = [] := by simp [editsOf, ho]
    rw [he]
    simp only [occurrence, hc]
    exact ⟨rfl, rfl⟩
  · have he : editsOf c o = editsFor c o snippet := by simp [editsOf, ho, hs]
    obtain ⟨hstore, hreport⟩ :=
      Edit.augmentAll_eq o.parent.name snippet (Resolver.targets c o.parent.name) store
    rw [he]
    simp only [occurrence, hc]
    exact ⟨hstore, congrArg Except.ok hreport⟩

theorem occurrences_of_faultless {os : List Occurrence} (h : ∀ o ∈ os, faultOf c o = none)
    (store : Store) :
    (occurrences c os store).store = Edit.applyAll store (os.flatMap (editsOf c)) ∧
      (occurrences c os store).result = .ok (Edit.report store (os.flatMap (editsOf c))) := by
  induction os generalizing store with
  | nil => exact ⟨rfl, rfl⟩
  | cons o os ih =>
    obtain ⟨hstore, hresult⟩ := occurrence_of_faultless (h o List.mem_cons_self) store
    obtain ⟨ihstore, ihresult⟩ :=
      ih (fun o' ho' => h o' (List.mem_cons_of_mem o ho')) (occurrence c o store).store
    have hkeys : (occurrence c o store).store.keys = store.keys := by
      rw [hstore, Edit.keys_applyAll]
    simp only [occurrences, hresult, List.flatMap_cons]
    constructor
    · rw [ihstore, hstore, Edit.applyAll_append]
    · rw [ihresult, Edit.report_congr hkeys, Edit.report_append]
      rfl

/-- The run stops at the first fault, with the occurrences before it done. -/
theorem occurrences_of_fault {before after : List Occurrence} {o : Occurrence} {f : Fault}
    (hbefore : ∀ o ∈ before, faultOf c o = none) (h : faultOf c o = some f) (store : Store) :
    (occurrences c (before ++ o :: after) store).store = (occurrences c before store).store ∧
      (occurrences c (before ++ o :: after) store).result = .error f := by
  induction before generalizing store with
  | nil =>
    obtain ⟨hstore, hresult⟩ := occurrence_of_fault h store
    simp only [List.nil_append, occurrences, hresult, hstore, and_self]
  | cons o' before ih =>
    obtain ⟨-, hresult⟩ := occurrence_of_faultless (hbefore o' List.mem_cons_self) store
    obtain ⟨ihstore, ihresult⟩ :=
      ih (fun o ho => hbefore o (List.mem_cons_of_mem o' ho)) (occurrence c o' store).store
    simp only [List.cons_append, occurrences, hresult, ihstore, ihresult]
    exact ⟨trivial, rfl⟩

/-- A row of occurrences has no fault, or a first one. -/
theorem faultless_or_first_fault (c : Config) (os : List Occurrence) :
    (∀ o ∈ os, faultOf c o = none) ∨
      ∃ before o after f, os = before ++ o :: after ∧ (∀ o ∈ before, faultOf c o = none) ∧
        faultOf c o = some f := by
  induction os with
  | nil => exact .inl (by simp)
  | cons o os ih =>
    cases ho : faultOf c o with
    | some f => exact .inr ⟨[], o, os, f, rfl, by simp, ho⟩
    | none =>
      rcases ih with hall | ⟨before, o', after, f, rfl, hbefore, hf⟩
      · exact .inl (List.forall_mem_cons.mpr ⟨ho, hall⟩)
      · exact .inr ⟨o :: before, o', after, f, rfl, List.forall_mem_cons.mpr ⟨ho, hbefore⟩, hf⟩

end InputGuard.Run
