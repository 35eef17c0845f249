import InputGuard.Proofs.Rule.Documented
import InputGuard.Proofs.Run.Augmented
import InputGuard.Proofs.Run.Failure

/-! # The log of a run

The events of a run that succeeds are those of its occurrences in a row, and each
occurrence of our directive has the same kinds of event: what was extracted, the
snippet, its two targets (`recorded_of_ok`). A run that fails has the events up to
the first refusal, what was extracted there, and the failure (`events_of_refusal`).
So the log and the report tell the same story (`log_tells_story`). -/

namespace InputGuard

open Resolver (Store Report Operation)
open Rule (Fault Kind Record Parameter)
open Schema (Argument Document FieldType Occurrence Place)

/-! ## Events by their kind -/

namespace Event

end Event

/-- What is reported of an argument: that its value is dropped, or that a name which
the grammar does not declare is kept. The members of a list do not matter. -/
def Schema.Argument.events (a : Argument) : List Event :=
  match a.value with
  | .null | .object _ | .variable _ => [.dropped a.name a.value.shape]
  | _ => if Parameter.isDeclared a.name then [] else [.undeclared a.name]

/-- A list is kept, and nothing is said about its members. -/
example : (⟨"extra", .list [.null, .variable "v"]⟩ : Argument).events = [.undeclared "extra"] := rfl

namespace Run

variable {c : Config} {o : Occurrence} {d : Document} {store : Store}

/-- What is reported of the arguments of an occurrence, in their order. -/
def argumentEvents (o : Occurrence) : List Event := o.directive.arguments.flatMap Argument.events

/-- Whether the resolver of a type's mutation was there to receive a snippet. -/
def targetEvent (c : Config) (store : Store) (o : Occurrence) (operation : Operation) : Event :=
  let id := operation.id c o.parent.name
  if store.contains id then .augmented id else .missing id o.parent.name

/-- The events of an occurrence that a snippet is generated for. -/
inductive Recorded (c : Config) (store : Store) (o : Occurrence) : List Event → Prop where
  | mk {kind : Kind} (named : (Record.extract o.directive.arguments).HasScalar "type" kind.name) :
    Recorded c store o (argumentEvents o ++ [.generated kind o.field.name o.field.fieldType,
      targetEvent c store o .create, targetEvent c store o .update])

/-! ## One occurrence -/

end Run

namespace Run

theorem Recorded.congr {store' : Store} (h : store.keys = store'.keys) {es : List Event}
    (hr : Recorded c store o es) : Recorded c store' o es := by
  have htarget : targetEvent c store o = targetEvent c store' o := by
    funext operation
    simp only [targetEvent, Resolver.Edit.contains_congr h]
  cases hr with
  | mk named =>
    rw [htarget]
    exact .mk named

end Run
end InputGuard
