import InputGuard.OrderedMap
import InputGuard.Log
import InputGuard.Schema.Basic

/-! Parameter records. Recording an argument keeps the literal of a scalar and
the literals of a list's scalar members; null, objects and variables are dropped
and leave the record as it is. A repeated name keeps its place and takes the
last value. -/

namespace InputGuard.Rule

open Schema (Argument Value)

inductive Extracted where
  | scalar (text : String)
  | list (members : List String)
deriving DecidableEq

def Extracted.ofValue? : Value → Option Extracted
  | .list members => some (.list (members.filterMap Value.literal?))
  | v => v.literal?.map .scalar

abbrev Record := OrderedMap Extracted

namespace Record

def insert (r : Record) (name : String) (value : Value) : Record :=
  match Extracted.ofValue? value with
  | some e => r.put name e
  | none => r

def extract (arguments : List Argument) : Record :=
  arguments.foldl (fun r a => r.insert a.name a.value) .empty

/-- The record of names with their values. -/
def ofPairs (pairs : List (String × Value)) : Record :=
  pairs.foldl (fun r p => r.insert p.1 p.2) .empty

/-- What recording an argument reports. -/
def events (name : String) (value : Value) : List Event :=
  match Extracted.ofValue? value with
  | none => [.dropped name value.shape]
  | some _ => if Parameter.isDeclared name then [] else [.undeclared name]

def extractionEvents (arguments : List Argument) : List Event :=
  arguments.flatMap fun a => events a.name a.value

/-- The text of a scalar; a list has none. -/
def scalar? (r : Record) (name : String) : Option String :=
  match r.get? name with
  | some (.scalar text) => some text
  | _ => none

/-- The members of a list; a scalar counts as a list of one. -/
def list? (r : Record) (name : String) : Option (List String) :=
  match r.get? name with
  | some (.scalar text) => some [text]
  | some (.list members) => some members
  | none => none

end Record
end InputGuard.Rule
