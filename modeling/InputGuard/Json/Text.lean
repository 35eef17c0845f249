/-! The inside of a JSON string. Reading collects pieces, each a character or a
16-bit code unit from an escape; two code units that form a surrogate pair stand
for one character, and half a pair stands for none. Writing escapes the quotation
mark, the backslash and the control characters below U+0020 and nothing else. -/

namespace InputGuard.Json

inductive Piece where
  | char (c : Char)
  | unit (code : Nat)
deriving DecidableEq

namespace Piece

def isHigh (n : Nat) : Bool := 0xD800 ≤ n && n < 0xDC00

def isLow (n : Nat) : Bool := 0xDC00 ≤ n && n < 0xE000

def pair (high low : Nat) : Char :=
  Char.ofNat (0x10000 + (high - 0xD800) * 0x400 + (low - 0xDC00))

/-- The text of a string's pieces, unless half a surrogate pair stands alone. -/
def assemble : List Piece → Option (List Char)
  | [] => some []
  | .char c :: r => (c :: ·) <$> assemble r
  | .unit n :: r =>
    if isHigh n then
      match r with
      | .unit m :: r' => if isLow m then (pair n m :: ·) <$> assemble r' else none
      | _ => none
    else if isLow n then none
    else (Char.ofNat n :: ·) <$> assemble r

end Piece

def hexDigit? (c : Char) : Option Nat :=
  if c.isDigit then some (c.toNat - '0'.toNat)
  else if 'a' ≤ c ∧ c ≤ 'f' then some (c.toNat - 'a'.toNat + 10)
  else if 'A' ≤ c ∧ c ≤ 'F' then some (c.toNat - 'A'.toNat + 10)
  else none

/-- The character that a one-letter escape stands for. -/
def shortEscape? : Char → Option Char
  | '"' => some '"'
  | '\\' => some '\\'
  | '/' => some '/'
  | 'b' => some '\x08'
  | 'f' => some '\x0c'
  | 'n' => some '\n'
  | 'r' => some '\r'
  | 't' => some '\t'
  | _ => none

def isControl (c : Char) : Bool := c.toNat < 0x20

def escape (c : Char) : List Char :=
  match c with
  | '"' => ['\\', '"']
  | '\\' => ['\\', '\\']
  | '\x08' => ['\\', 'b']
  | '\x0c' => ['\\', 'f']
  | '\n' => ['\\', 'n']
  | '\r' => ['\\', 'r']
  | '\t' => ['\\', 't']
  | c =>
    if isControl c then
      ['\\', 'u', '0', '0', Nat.digitChar (c.toNat / 16), Nat.digitChar (c.toNat % 16)]
    else [c]

/-- A string token. A string without text is written as half a surrogate pair. -/
def quote : Option String → List Char
  | some s => '"' :: (s.toList.flatMap escape ++ ['"'])
  | none => "\"\\ud800\"".toList

end InputGuard.Json
