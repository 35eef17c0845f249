import InputGuard.Json.Text

/-! TOML documents of plain settings: lines that assign a string to a key. The
reader is a machine that takes one character at a time. Tables, dotted keys and
values that are no strings are valid TOML of a richer kind and are refused, as is
what is no TOML at all. -/

namespace InputGuard.Toml

/-- The two kinds of string: only `basic` ones have escapes. -/
inductive Quote where
  | basic
  | literal
deriving DecidableEq

def Quote.mark : Quote → Char
  | .basic => '"'
  | .literal => '\''

def Quote.ofMark? (c : Char) : Option Quote :=
  if c = '"' then some .basic else if c = '\'' then some .literal else none

/-- A string being read, newest character first; the key it is assigned to is
absent while a quoted key itself is read. -/
structure Partial where
  key : Option String
  quote : Quote
  multiline : Bool
  text : List Char
deriving DecidableEq

def Partial.push (p : Partial) (c : Char) : Partial := { p with text := c :: p.text }

inductive Mode where
  /-- before a key, or on an empty line -/
  | line
  | bareKey (letters : List Char)
  | beforeEquals (key : String)
  | beforeValue (key : String)
  | afterValue
  | comment
  /-- after one quote: an empty string, a long string or the first character -/
  | opened (p : Partial)
  /-- after two quotes that open a value -/
  | openedTwice (p : Partial)
  /-- after three quotes: a newline here is not part of the string -/
  | firstLine (p : Partial)
  | body (p : Partial)
  /-- after some quotes inside a long string -/
  | quotes (p : Partial) (count : Nat)
  | escape (p : Partial)
  | unicode (p : Partial) (value missing : Nat)
  /-- after a backslash at the end of a line; blanks are skipped -/
  | lineEnd (p : Partial) (newline : Bool)

/-- The next mode, with an assignment that is complete. -/
abbrev Step := Option (List (String × String) × Mode)

namespace Mode

def isSpace (c : Char) : Bool := c == ' ' || c == '\t'

def isBareKey (c : Char) : Bool := c.isAlphanum || c == '_' || c == '-'

/-- Control characters other than the tab stand in no comment and no string. -/
def isPlain (c : Char) : Bool := c == '\t' || (0x20 ≤ c.toNat && c.toNat ≠ 0x7F)

def shortEscape? : Char → Option Char
  | 'b' => some '\x08'
  | 't' => some '\t'
  | 'n' => some '\n'
  | 'f' => some '\x0c'
  | 'r' => some '\r'
  | '"' => some '"'
  | '\\' => some '\\'
  | _ => none

def goto (m : Mode) : Step := some ([], m)

def atLine (c : Char) : Step :=
  if isSpace c || c == '\n' then goto .line
  else if c = '#' then goto .comment
  else if isBareKey c then goto (.bareKey [c])
  else (Quote.ofMark? c).map fun q => ([], .opened ⟨none, q, false, []⟩)

def atEquals (key : String) (c : Char) : Step :=
  if isSpace c then goto (.beforeEquals key)
  else if c = '=' then goto (.beforeValue key)
  else none

def atEnd (c : Char) : Step :=
  if isSpace c then goto .afterValue
  else if c = '#' then goto .comment
  else if c = '\n' then goto .line
  else none

/-- The mode after a string, and the assignment if it was a value. -/
def close (p : Partial) : List (String × String) × Mode :=
  let text := String.ofList p.text.reverse
  match p.key with
  | none => ([], .beforeEquals text)
  | some key => ([(key, text)], .afterValue)

/-- Closes a string before a character that is no part of it. -/
def closeBefore (p : Partial) (c : Char) : Step :=
  match p.key with
  | none => atEquals (String.ofList p.text.reverse) c
  | some key => (atEnd c).map fun (_, m) => ([(key, String.ofList p.text.reverse)], m)

def inBody (p : Partial) (c : Char) : Step :=
  if c = p.quote.mark then
    if p.multiline then goto (.quotes p 1) else some (close p)
  else if c = '\\' ∧ p.quote = .basic then goto (.escape p)
  else if c = '\n' then if p.multiline then goto (.body (p.push c)) else none
  else if isPlain c then goto (.body (p.push c))
  else none

def pushQuotes (p : Partial) : Nat → Partial
  | 0 => p
  | n + 1 => pushQuotes (p.push p.quote.mark) n

/-- Three quotes close a long string, and up to two before them belong to it. -/
def inQuotes (p : Partial) (count : Nat) (c : Char) : Step :=
  if c = p.quote.mark then if count < 5 then goto (.quotes p (count + 1)) else none
  else if count < 3 then inBody (pushQuotes p count) c
  else closeBefore (pushQuotes p (count - 3)) c

def inUnicode (p : Partial) (value missing : Nat) (c : Char) : Step := do
  let d ← Json.hexDigit? c
  let value := value * 16 + d
  if missing = 1 then
    if value.isValidChar then goto (.body (p.push (Char.ofNat value))) else none
  else goto (.unicode p value (missing - 1))

def inEscape (p : Partial) (c : Char) : Step :=
  if c = 'u' then goto (.unicode p 0 4)
  else if c = 'U' then goto (.unicode p 0 8)
  else if p.multiline && (isSpace c || c == '\n') then goto (.lineEnd p (c == '\n'))
  else (shortEscape? c).map fun d => ([], .body (p.push d))

def step : Mode → Char → Step
  | .line, c => atLine c
  | .bareKey letters, c =>
    if isBareKey c then goto (.bareKey (c :: letters))
    else atEquals (String.ofList letters.reverse) c
  | .beforeEquals key, c => atEquals key c
  | .beforeValue key, c =>
    if isSpace c then goto (.beforeValue key)
    else (Quote.ofMark? c).map fun q => ([], .opened ⟨some key, q, false, []⟩)
  | .afterValue, c => atEnd c
  | .comment, c => if c = '\n' then goto .line else if isPlain c then goto .comment else none
  | .opened p, c => if c = p.quote.mark then goto (.openedTwice p) else inBody p c
  | .openedTwice p, c =>
    if c = p.quote.mark ∧ p.key.isSome then goto (.firstLine { p with multiline := true })
    else closeBefore p c
  | .firstLine p, c => if c = '\n' then goto (.body p) else inBody p c
  | .body p, c => inBody p c
  | .quotes p count, c => inQuotes p count c
  | .escape p, c => inEscape p c
  | .unicode p value missing, c => inUnicode p value missing c
  | .lineEnd p newline, c =>
    if isSpace c then goto (.lineEnd p newline)
    else if c = '\n' then goto (.lineEnd p true)
    else if newline then inBody p c
    else none

/-- The assignment that the end of the text completes. -/
def finish : Mode → Option (List (String × String))
  | .line | .afterValue | .comment => some []
  | .openedTwice p => p.key.map fun key => [(key, String.ofList p.text.reverse)]
  | .quotes p count =>
    if 3 ≤ count then
      p.key.map fun key => [(key, String.ofList (pushQuotes p (count - 3)).text.reverse)]
    else none
  | _ => none

end Mode

def run : Mode → List Char → Option (List (String × String))
  | m, [] => m.finish
  | m, c :: r => do
    let (done, m') ← m.step c
    (done ++ ·) <$> run m' r

/-- A carriage return counts as part of the newline it stands before, and stands
nowhere else. -/
def newlines? : List Char → Option (List Char)
  | [] => some []
  | '\r' :: '\n' :: r => ('\n' :: ·) <$> newlines? r
  | c :: r => if c = '\r' then none else (c :: ·) <$> newlines? r

def dropByteOrderMark : List Char → List Char
  | c :: r => if c = '\ufeff' then r else c :: r
  | [] => []

/-- The assignments of a document in source order. -/
def assignments? (document : List Char) : Option (List (String × String)) :=
  newlines? (dropByteOrderMark document) >>= run .line

end InputGuard.Toml
