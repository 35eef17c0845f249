import InputGuard.Json.Text

/-! Tokens of a JSON text. The scanner is a machine that takes one character at a
time: blanks and the ways to escape a character are gone after it, and any
tokens in a row are let through, since their order is the parser's concern. -/

namespace InputGuard.Json

inductive Token where
  | openArray
  | closeArray
  | openObject
  | closeObject
  | colon
  | comma
  | null
  | bool (value : Bool)
  | number (literal : String)
  | string (text : Option String)
deriving DecidableEq

namespace Token

def write : Token → List Char
  | .openArray => ['[']
  | .closeArray => [']']
  | .openObject => ['\x7b']
  | .closeObject => ['\x7d']
  | .colon => [':']
  | .comma => [',']
  | .null => "null".toList
  | .bool true => "true".toList
  | .bool false => "false".toList
  | .number literal => literal.toList
  | .string text => quote text

end Token

/-- How far a number has been read: after its sign, a leading zero, other whole
digits, the point, the fraction, the exponent mark, its sign, its digits. -/
inductive NumberPart where
  | sign
  | zero
  | whole
  | point
  | fraction
  | mark
  | markSign
  | power
deriving DecidableEq

namespace NumberPart

def start? (c : Char) : Option NumberPart :=
  if c = '-' then some .sign
  else if c = '0' then some .zero
  else if c.isDigit then some .whole
  else none

def afterWhole? (c : Char) : Option NumberPart :=
  if c = '.' then some .point else if c = 'e' ∨ c = 'E' then some .mark else none

def next? : NumberPart → Char → Option NumberPart
  | .sign, c => if c = '0' then some .zero else if c.isDigit then some .whole else none
  | .zero, c => afterWhole? c
  | .whole, c => if c.isDigit then some .whole else afterWhole? c
  | .point, c => if c.isDigit then some .fraction else none
  | .fraction, c =>
    if c.isDigit then some .fraction else if c = 'e' ∨ c = 'E' then some .mark else none
  | .mark, c =>
    if c.isDigit then some .power else if c = '+' ∨ c = '-' then some .markSign else none
  | .markSign, c => if c.isDigit then some .power else none
  | .power, c => if c.isDigit then some .power else none

def isComplete : NumberPart → Bool
  | .zero | .whole | .fraction | .power => true
  | .sign | .point | .mark | .markSign => false

end NumberPart

/-- What the scanner is in the middle of; collected pieces, digits and letters
are held newest first. -/
inductive Mode where
  | between
  | string (pieces : List Piece)
  | escape (pieces : List Piece)
  | unicode (pieces : List Piece) (value missing : Nat)
  | number (part : NumberPart) (literal : List Char)
  | word (letters : List Char)

namespace Mode

def isSpace (c : Char) : Bool := c == ' ' || c == '\t' || c == '\n' || c == '\r'

def punctuation? : Char → Option Token
  | '[' => some .openArray
  | ']' => some .closeArray
  | '\x7b' => some .openObject
  | '\x7d' => some .closeObject
  | ':' => some .colon
  | ',' => some .comma
  | _ => none

/-- A character outside every token. -/
def start (c : Char) : Option (List Token × Mode) :=
  if isSpace c then some ([], .between)
  else if c = '"' then some ([], .string [])
  else if c.isLower then some ([], .word [c])
  else match punctuation? c with
    | some t => some ([t], .between)
    | none => (NumberPart.start? c).map fun part => ([], .number part [c])

def word? (letters : List Char) : Option Token :=
  if letters = "null".toList then some .null
  else if letters = "true".toList then some (.bool true)
  else if letters = "false".toList then some (.bool false)
  else none

/-- The tokens that end where the text, or the current number or word, ends. -/
def finish : Mode → Option (List Token)
  | .between => some []
  | .number part literal =>
    if part.isComplete then some [.number (String.ofList literal.reverse)] else none
  | .word letters => (word? letters.reverse).map ([·])
  | .string _ | .escape _ | .unicode _ _ _ => none

def inString (pieces : List Piece) (c : Char) : Option (List Token × Mode) :=
  if c = '"' then
    some ([.string ((Piece.assemble pieces.reverse).map String.ofList)], .between)
  else if c = '\\' then some ([], .escape pieces)
  else if isControl c then none
  else some ([], .string (.char c :: pieces))

def inUnicode (pieces : List Piece) (value missing : Nat) (c : Char) :
    Option (List Token × Mode) :=
  (hexDigit? c).map fun d =>
    let value := value * 16 + d
    if missing = 1 then ([], .string (.unit value :: pieces))
    else ([], .unicode pieces value (missing - 1))

/-- Ends the current token and reads the character outside of it. -/
def restart (m : Mode) (c : Char) : Option (List Token × Mode) := do
  let done ← m.finish
  let (ts, m') ← start c
  some (done ++ ts, m')

def step : Mode → Char → Option (List Token × Mode)
  | .between, c => start c
  | .string pieces, c => inString pieces c
  | .escape pieces, c =>
    if c = 'u' then some ([], .unicode pieces 0 4)
    else (shortEscape? c).map fun d => ([], .string (.char d :: pieces))
  | .unicode pieces value missing, c => inUnicode pieces value missing c
  | .number part literal, c =>
    match part.next? c with
    | some part' => some ([], .number part' (c :: literal))
    | none => restart (.number part literal) c
  | .word letters, c =>
    if c.isLower then some ([], .word (c :: letters)) else restart (.word letters) c

end Mode

def scan : Mode → List Char → Option (List Token)
  | m, [] => m.finish
  | m, c :: r => do
    let (ts, m') ← m.step c
    (ts ++ ·) <$> scan m' r

def tokens? (text : List Char) : Option (List Token) := scan .between text

end InputGuard.Json
