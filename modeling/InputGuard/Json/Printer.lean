import InputGuard.Json.Basic
import InputGuard.Json.Token

/-! Writing JSON values. A layout places blanks in front of tokens, so every
layout of a value has the same tokens: `compact` places none, `pretty` gives each
element and member a line of its own and indents by two blanks a level. -/

namespace InputGuard.Json

structure Layout where
  /-- blanks before an element, member or closing bracket at a level of nesting -/
  line : Nat → List Char
  /-- blanks between a colon and its value -/
  space : List Char

def Layout.compact : Layout := ⟨fun _ => [], []⟩

def Layout.pretty : Layout := ⟨fun level => '\n' :: List.replicate (2 * level) ' ', [' ']⟩

/-- A token with the blanks in front of it. -/
abbrev Placed := List Char × Token

mutual

/-- The tokens of a value at a level of nesting; `lead` goes before the first. -/
def place (l : Layout) (level : Nat) (lead : List Char) : Json → List Placed
  | .null => [(lead, .null)]
  | .bool b => [(lead, .bool b)]
  | .number literal => [(lead, .number literal)]
  | .string text => [(lead, .string text)]
  | .array [] => [(lead, .openArray), ([], .closeArray)]
  | .array (v :: vs) =>
    (lead, .openArray) :: (place l (level + 1) (l.line (level + 1)) v ++
      placeElements l (level + 1) vs ++ [(l.line level, .closeArray)])
  | .object [] => [(lead, .openObject), ([], .closeObject)]
  | .object ((k, v) :: ms) =>
    (lead, .openObject) :: (l.line (level + 1), .string k) :: ([], .colon) ::
      (place l (level + 1) l.space v ++ placeMembers l (level + 1) ms ++
        [(l.line level, .closeObject)])

/-- The elements after the first, each behind a comma. -/
def placeElements (l : Layout) (level : Nat) : List Json → List Placed
  | [] => []
  | v :: vs => ([], .comma) :: (place l level (l.line level) v ++ placeElements l level vs)

/-- The members after the first, each behind a comma. -/
def placeMembers (l : Layout) (level : Nat) : List (Option String × Json) → List Placed
  | [] => []
  | (k, v) :: ms =>
    ([], .comma) :: (l.line level, .string k) :: ([], .colon) ::
      (place l level l.space v ++ placeMembers l level ms)

end

def writePlaced (ts : List Placed) : List Char := ts.flatMap fun (lead, t) => lead ++ t.write

def write (l : Layout) (v : Json) : String := String.ofList (writePlaced (place l 0 [] v))

def compact (v : Json) : String := v.write .compact

def pretty (v : Json) : String := v.write .pretty

end InputGuard.Json
