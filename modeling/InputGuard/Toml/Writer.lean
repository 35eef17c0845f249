import InputGuard.Json.Text

/-! Writing settings as a TOML document, one assignment of a basic string a line.
The escapes of a JSON string are valid here; beside them U+007F must be escaped. -/

namespace InputGuard.Toml

def escape (c : Char) : List Char :=
  if c = '\x7f' then ['\\', 'u', '0', '0', '7', 'f'] else Json.escape c

def quote (text : String) : List Char := '"' :: (text.toList.flatMap escape ++ ['"'])

def assignment (key value : String) : List Char :=
  key.toList ++ [' ', '=', ' '] ++ quote value ++ ['\n']

def write (assignments : List (String × String)) : String :=
  String.ofList (assignments.flatMap fun (key, value) => assignment key value)

end InputGuard.Toml
