import InputGuard.Snippet.Generate
import InputGuard.Resolver.Augment
import InputGuard.Error

/-! Compiling the directives of a document into a store of resolvers. Whether a
directive compiles, and to what, does not depend on the store; a run takes the
occurrences in source order and stops at the first that does not compile, with
everything before it done and nothing of it. -/

namespace InputGuard.Run

open Schema (Argument FieldType Occurrence Document)
open Resolver (Store Report)
open Rule (Fault Record)

/-- What compiling an occurrence gives: the snippet, if the directive is ours,
and the events up to that point. -/
structure Compiled where
  result : Except Fault (Option String)
  events : List Event

/-- Compiles the arguments of our directive for a field of some name and type. -/
def compileField (c : Config) (field : String) (type : FieldType) (arguments : List Argument) :
    Compiled :=
  let extraction := Record.extractionEvents arguments
  match Rule.forField field type (Record.extract arguments) with
  | .error fault => ⟨.error fault, extraction⟩
  | .ok rule =>
    ⟨.ok (some (Snippet.render (.ofConfig c field) rule)),
      extraction ++ [.generated rule.kind field type]⟩

/-- Other directives give nothing, and ours on an unmarked type is refused before
its arguments are looked at. -/
def compile (c : Config) (o : Occurrence) : Compiled :=
  if o.directive.name ≠ Rule.directiveName then ⟨.ok none, []⟩
  else if !o.parent.hasDirective c.modelDirective then
    ⟨.error (.unmarkedParent c.modelDirective), []⟩
  else compileField c o.field.name o.field.fieldType o.directive.arguments

/-- The state after a run or a part of it; the store holds also after a fault. -/
structure Outcome where
  store : Store
  result : Except Fault Report
  events : List Event

def occurrence (c : Config) (o : Occurrence) (store : Store) : Outcome :=
  let compiled := compile c o
  match compiled.result with
  | .error fault => ⟨store, .error fault, compiled.events⟩
  | .ok none => ⟨store, .ok {}, compiled.events⟩
  | .ok (some snippet) =>
    let (store', report, events) := Resolver.augment c o.parent.name snippet store
    ⟨store', .ok report, compiled.events ++ events⟩

def failure (o : Occurrence) (f : Fault) : Event :=
  .failed o.parent.name o.field.name (Error.ofFault f).message

def occurrences (c : Config) : List Occurrence → Store → Outcome
  | [], store => ⟨store, .ok {}, []⟩
  | o :: os, store =>
    let first := occurrence c o store
    match first.result with
    | .error fault => ⟨first.store, .error fault, first.events ++ [failure o fault]⟩
    | .ok report =>
      let rest := occurrences c os first.store
      ⟨rest.store, (report.merge ·) <$> rest.result, first.events ++ rest.events⟩

def document (c : Config) (d : Document) (store : Store) : Outcome :=
  occurrences c d.occurrences store

end InputGuard.Run
