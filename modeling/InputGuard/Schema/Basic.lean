import InputGuard.Schema.TypeRef
import InputGuard.Schema.Value

/-! A schema document: type definitions with their directives, and their fields
with types and directives, all in source order. -/

namespace InputGuard.Schema

structure Argument where
  name : String
  value : Value

structure Directive where
  name : String
  arguments : List Argument

inductive TypeKind where
  | object
  | interface
deriving DecidableEq

structure Field where
  name : String
  type : TypeRef
  directives : List Directive

structure TypeDefinition where
  name : String
  kind : TypeKind
  directives : List Directive
  fields : List Field

structure Document where
  types : List TypeDefinition

/-- Every type reference in the document is well formed. -/
def Document.WellFormed (d : Document) : Prop :=
  ∀ t ∈ d.types, ∀ f ∈ t.fields, f.type.WellFormed

def Field.fieldType (f : Field) : FieldType := f.type.fieldType

def TypeDefinition.hasDirective (t : TypeDefinition) (name : String) : Bool :=
  t.directives.any (·.name = name)

/-- A directive on a field, with the field and the type that owns it. -/
structure Occurrence where
  parent : TypeDefinition
  field : Field
  directive : Directive

/-- All directives on fields, in source order. -/
def Document.occurrences (d : Document) : List Occurrence :=
  d.types.flatMap fun parent =>
    parent.fields.flatMap fun field => field.directives.map fun directive =>
      ⟨parent, field, directive⟩

end InputGuard.Schema
