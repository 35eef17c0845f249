import InputGuard.OrderedMap
import InputGuard.Schema.Value
import InputGuard.Text.Blank
import InputGuard.Text.Split

/-! The words of a command line: options with a value may stand anywhere, and a
snippet's arguments are pairs of a name and a value, where brackets make a list. -/

namespace InputGuard.CommandLine

open Schema (Value)

/-- The value of an option, if it was given, and the words that are left. -/
structure Taken where
  value : Option String
  rest : List String
deriving DecidableEq

/-- Takes an option out of the words, each time with the word after it, whatever
that is; the last value counts. Nothing if the last word lacks its value. -/
def takeOption (option : String) : List String → Option Taken
  | [] => some ⟨none, []⟩
  | [w] => if w = option then none else some ⟨none, [w]⟩
  | w :: v :: ws =>
    if w = option then
      (takeOption option ws).map fun t => { t with value := some (t.value.getD v) }
    else (takeOption option (v :: ws)).map fun t => { t with rest := w :: t.rest }

/-- A word as an argument value: `[a,b]` is a list of texts without the blanks
around them, and anything else is a text. -/
def argumentValue (word : List Char) : Value :=
  match Text.between? '[' ']' word with
  | some [] => .list []
  | some inner =>
    .list ((Text.splitOn ',' inner).map fun m => .string (String.ofList (Text.trim m)))
  | none => .string (String.ofList word)

/-- The name before the first equals sign, and the value after it. -/
def namedValue? (word : String) : Option (String × Value) :=
  (Text.cut '=' word.toList).map fun (name, value) =>
    (String.ofList name, argumentValue value)

/-- The word that gives a text under a name. -/
def textWord (name text : String) : String := name ++ "=" ++ text

/-- The word that gives a list of texts under a name. -/
def listWord (name : String) (members : List String) : String :=
  textWord name ("[" ++ ",".intercalate members ++ "]")

end InputGuard.CommandLine
