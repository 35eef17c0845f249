import InputGuard.Text.Split
import InputGuard.Number.Integer
import InputGuard.Number.Shortest

/-! Literals of the Velocity template language. Text inside double quotes is
interpolated, and a backslash does not escape there, so text with one of the four
characters that matter is written in single quotes with its single quotes
doubled. Numbers are in plain decimal notation and a float keeps its point. -/

namespace InputGuard.Vtl

open Number (Binary64)

/-- Characters with a meaning inside double quotes. -/
def isSpecial (c : Char) : Bool := c == '"' || c == '$' || c == '#' || c == '\\'

def doubled (c : Char) : List Char := if c = '\'' then ['\'', '\''] else [c]

def quote (s : List Char) : List Char :=
  if s.any isSpecial then '\'' :: (s.flatMap doubled ++ ['\'']) else '"' :: (s ++ ['"'])

/-- Single quotes taken in pairs; a lone one would have ended the literal. -/
def undouble? : List Char → Option (List Char)
  | [] => some []
  | '\'' :: '\'' :: r => ('\'' :: ·) <$> undouble? r
  | c :: r => if c = '\'' then none else (c :: ·) <$> undouble? r

/-- The text that a string literal stands for. -/
def unquote? (s : List Char) : Option (List Char) :=
  match Text.between? '"' '"' s with
  | some body => if body.any isSpecial then none else some body
  | none => Text.between? '\'' '\'' s >>= undouble?

def string (text : String) : String := String.ofList (quote text.toList)

def int (value : Int64) : String := String.ofList (Number.writeInteger value)

def float (value : Binary64) : String := String.ofList (Number.writeFloat value)

def bool (value : Bool) : String := if value then "true" else "false"

def list (members : List String) : String := "[" ++ ", ".intercalate members ++ "]"

theorem undouble?_doubled (s : List Char) : undouble? (s.flatMap doubled) = some s := by
  induction s with
  | nil => rfl
  | cons c s ih =>
    by_cases h : c = '\''
    · simp [doubled, h, undouble?, ih]
    · simp [doubled, h, undouble?, ih]

end InputGuard.Vtl
