import InputGuard.Log
import InputGuard.Resolver.Store
import InputGuard.Resolver.Target

/-! Prepending a snippet to the templates of a type. Targets that are not in the
store are skipped; no id is ever added or removed. -/

namespace InputGuard.Resolver

/-- Which ids received a snippet and which were not there, one entry each time. -/
structure Report where
  augmented : List String := []
  skipped : List String := []
deriving DecidableEq

namespace Report

def isAugmented (r : Report) : Bool := !r.augmented.isEmpty

def merge (r s : Report) : Report :=
  ⟨r.augmented ++ s.augmented, r.skipped ++ s.skipped⟩

end Report

/-- The store after a snippet was prepended under one id, if the id is present. -/
def augmentOne (store : Store) (snippet id : String) : Store :=
  match store.get? id with
  | some r => store.put id (r.prepend snippet)
  | none => store

def reportOne (store : Store) (id : String) : Report :=
  if store.contains id then ⟨[id], []⟩ else ⟨[], [id]⟩

def eventOne (store : Store) (typeName id : String) : Event :=
  if store.contains id then .augmented id else .missing id typeName

/-- The store, the report and the events of prepending under several ids in turn. -/
def augmentAll (typeName snippet : String) : List String → Store → Store × Report × List Event
  | [], store => (store, {}, [])
  | id :: ids, store =>
    let (store', report, events) := augmentAll typeName snippet ids (augmentOne store snippet id)
    (store', (reportOne store id).merge report, eventOne store typeName id :: events)

def augment (c : Config) (typeName snippet : String) (store : Store) :
    Store × Report × List Event :=
  augmentAll typeName snippet (targets c typeName) store

end InputGuard.Resolver
