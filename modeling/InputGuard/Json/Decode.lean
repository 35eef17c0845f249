import InputGuard.Json.Basic
import InputGuard.Json.NumberRange

/-! Decoding JSON values. A decoder is told how many containers may still be
opened and refuses a value nested deeper; values that nobody asks for are passed
over at any depth. A record is an object whose known names appear at most once,
or an array that gives the members by position. -/

namespace InputGuard.Json

abbrev Decoder (α : Type) := Nat → Json → Option α

/-- How many containers may be open at once. -/
def nesting : Nat := 127

def decode (d : Decoder α) (j : Json) : Option α := d nesting j

def asText : Decoder String
  | _, .string text => text
  | _, _ => none

def asBool : Decoder Bool
  | _, .bool b => some b
  | _, _ => none

/-- An array, each element under the given decoder. -/
def asList (d : Decoder α) : Decoder (List α)
  | depth + 1, .array vs => vs.mapM (d depth)
  | _, _ => none

/-- The members of an object by key; every key must have a text. -/
def keyed? (members : List (Option String × Json)) : Option (List (String × Json)) :=
  members.mapM fun (k, v) => k.map (·, v)

def asEntries (d : Decoder α) : Decoder (List (String × α))
  | depth + 1, .object ms => keyed? ms >>= List.mapM fun (k, v) => (k, ·) <$> d depth v
  | _, _ => none

/-- A name from a closed list: a string, or an object with that name for its only
key and nothing as its value. A value that was `held` back until its reader was
known may also spell nothing as an empty object. -/
def asName (held : Bool) : Decoder String
  | _, .string text => text
  | _ + 1, .object [(name, .null)] => name
  | _ + 2, .object [(name, .object [])] => if held then name else none
  | _, _ => none

/-- The known members of a record, for a decoder of the values inside it. -/
structure Fields where
  depth : Nat
  members : List (String × Json)

namespace Fields

/-- The members under the given names, none of them twice. With `closed`, other
names are refused. -/
def select? (names : List String) (closed : Bool) (members : List (String × Json)) :
    Option (List (String × Json)) :=
  let known := members.filter (names.contains ·.1)
  if (known.map Prod.fst).Nodup ∧ (closed = true → known.length = members.length) then some known
  else none

def of? (names : List String) (closed : Bool) : Decoder Fields
  | depth + 1, .object ms => do
    let known ← keyed? ms >>= select? names closed
    some ⟨depth, known⟩
  | depth + 1, .array vs =>
    if vs.length ≤ names.length then some ⟨depth, names.zip vs⟩ else none
  | _, _ => none

def get? (f : Fields) (name : String) : Option Json :=
  (f.members.find? (·.1 = name)).map Prod.snd

def required (f : Fields) (name : String) (d : Decoder α) : Option α :=
  f.get? name >>= d f.depth

def optional (f : Fields) (name : String) (default : α) (d : Decoder α) : Option α :=
  match f.get? name with
  | none => some default
  | some v => d f.depth v

end Fields

mutual

/-- Whether a value can be held back as it is: nested no deeper than `depth`,
with a text for every string and every number in range. -/
def isHoldable : Nat → Json → Bool
  | _, .null | _, .bool _ => true
  | _, .number literal => numberInRange literal.toList
  | _, .string text => text.isSome
  | 0, .array _ | 0, .object _ => false
  | depth + 1, .array vs => allHoldable depth vs
  | depth + 1, .object ms => membersHoldable depth ms

def allHoldable (depth : Nat) : List Json → Bool
  | [] => true
  | v :: vs => isHoldable depth v && allHoldable depth vs

def membersHoldable (depth : Nat) : List (Option String × Json) → Bool
  | [] => true
  | (k, v) :: ms => k.isSome && isHoldable depth v && membersHoldable depth ms

end

end InputGuard.Json
