import InputGuard.Schema.Basic

/-! # Places of directives in a document

A place splits a document at one directive of one field: the types, fields and
directives before it and those after it. Source order is the order of places
(`Place.occurrences_eq`, `exists_place`), and a document can be cut at a place. -/

namespace InputGuard.Schema

/-- The directives on a field of a type. -/
def Field.occurrences (parent : TypeDefinition) (field : Field) : List Occurrence :=
  field.directives.map (⟨parent, field, ·⟩)

def TypeDefinition.occurrences (t : TypeDefinition) : List Occurrence :=
  t.fields.flatMap (Field.occurrences t)

theorem Document.occurrences_eq (d : Document) :
    d.occurrences = d.types.flatMap TypeDefinition.occurrences := rfl

/-- The occurrence without the other fields of its type and the other directives
of its field. -/
def Occurrence.alone (o : Occurrence) : Occurrence :=
  ⟨{ o.parent with fields := [] }, { o.field with directives := [] }, o.directive⟩

/-- A directive on a field, with what stands before and after it. -/
structure Place (d : Document) where
  typesBefore : List TypeDefinition
  parent : TypeDefinition
  typesAfter : List TypeDefinition
  fieldsBefore : List Field
  field : Field
  fieldsAfter : List Field
  directivesBefore : List Directive
  directive : Directive
  directivesAfter : List Directive
  types_eq : d.types = typesBefore ++ parent :: typesAfter
  fields_eq : parent.fields = fieldsBefore ++ field :: fieldsAfter
  directives_eq : field.directives = directivesBefore ++ directive :: directivesAfter

namespace Place

variable {d : Document} (p : Place d)

def occurrence : Occurrence := ⟨p.parent, p.field, p.directive⟩

/-- The occurrences before the place, in source order. -/
def earlier : List Occurrence :=
  p.typesBefore.flatMap TypeDefinition.occurrences ++
    (p.fieldsBefore.flatMap (Field.occurrences p.parent) ++
      p.directivesBefore.map (⟨p.parent, p.field, ·⟩))

/-- The occurrences after the place, in source order. -/
def later : List Occurrence :=
  p.directivesAfter.map (⟨p.parent, p.field, ·⟩) ++
    (p.fieldsAfter.flatMap (Field.occurrences p.parent) ++
      p.typesAfter.flatMap TypeDefinition.occurrences)

/-- The document up to the place. -/
def cut : Document :=
  ⟨p.typesBefore ++ [{ p.parent with
    fields := p.fieldsBefore ++ [{ p.field with directives := p.directivesBefore }] }]⟩

theorem occurrences_eq : d.occurrences = p.earlier ++ p.occurrence :: p.later := by
  simp [Document.occurrences_eq, p.types_eq, TypeDefinition.occurrences, p.fields_eq,
    Field.occurrences, p.directives_eq, earlier, occurrence, later]

theorem alone_occurrences_cut :
    p.cut.occurrences.map Occurrence.alone = p.earlier.map Occurrence.alone := by
  simp [Document.occurrences_eq, cut, earlier, TypeDefinition.occurrences, Field.occurrences,
    Occurrence.alone, List.map_flatMap, Function.comp_def]

end Place

/-- A split of the parts of a list, all in a row, splits one of the parts. -/
theorem flatMap_eq_append_cons {α β : Type _} {f : α → List β} {l : List α}
    {before after : List β} {x : β} (h : l.flatMap f = before ++ x :: after) :
    ∃ l₁ a l₂ b₁ b₂, l = l₁ ++ a :: l₂ ∧ f a = b₁ ++ x :: b₂ ∧
      before = l₁.flatMap f ++ b₁ := by
  induction l generalizing before with
  | nil => simp at h
  | cons a l ih =>
    rw [List.flatMap_cons] at h
    rcases List.append_eq_append_iff.mp h with ⟨rest, rfl, hrest⟩ | ⟨part, ha, hpart⟩
    · -- the split is behind the first part
      obtain ⟨l₁, a', l₂, b₁, b₂, rfl, ha', rfl⟩ := ih hrest
      exact ⟨a :: l₁, a', l₂, b₁, b₂, rfl, ha', by simp⟩
    · cases part with
      | nil =>
        -- the first part ends just before the split
        have hrest : l.flatMap f = [] ++ x :: after := hpart.symm
        obtain ⟨l₁, a', l₂, b₁, b₂, rfl, ha', hb⟩ := ih hrest
        refine ⟨a :: l₁, a', l₂, b₁, b₂, rfl, ha', ?_⟩
        rw [List.flatMap_cons, List.append_assoc, ← hb, ha, List.append_nil, List.append_nil]
      | cons y part =>
        obtain ⟨rfl, -⟩ := List.cons.inj hpart
        exact ⟨[], a, l, before, part, rfl, ha, rfl⟩

/-- Every split of the occurrences is at a place. -/
theorem exists_place {d : Document} {before after : List Occurrence} {o : Occurrence}
    (h : d.occurrences = before ++ o :: after) :
    ∃ p : Place d, p.occurrence = o ∧ p.earlier = before := by
  obtain ⟨ts, parent, ts', os, os', htypes, hparent, rfl⟩ := flatMap_eq_append_cons h
  obtain ⟨fs, field, fs', os, os', hfields, hfield, rfl⟩ := flatMap_eq_append_cons hparent
  obtain ⟨ds, rest, hdirectives, rfl, hrest⟩ := List.map_eq_append_iff.mp hfield
  obtain ⟨directive, ds', rfl, rfl, -⟩ := List.map_eq_cons_iff.mp hrest
  exact ⟨⟨ts, parent, ts', fs, field, fs', ds, directive, ds', htypes, hfields, hdirectives⟩,
    rfl, rfl⟩

end InputGuard.Schema
