import InputGuard.Rule.Basic
import InputGuard.Snippet.Context
import InputGuard.Vtl.Statement

/-! Snippets of filters. Each puts a new value under the field of the input, and
none of them raises an error. A default keeps any value that is present, false
and zero included; the others leave an absent value alone, and those that take
the first character also an empty one. -/

namespace InputGuard.Snippet

open Rule (Default Filter)

/-- Puts a value under the field of the input. -/
def store (c : Context) (value : String) : String :=
  Vtl.quietly (Vtl.put c.input c.field value)

def defaultLiteral : Default → String
  | .string text => Vtl.string text
  | .integer value => Vtl.int value
  | .float value => Vtl.float value
  | .boolean value => Vtl.bool value

def defaultFilter (c : Context) (value : Default) : String :=
  Vtl.block (c.title "Default filter on")
    (Vtl.choose ("!$util.isNull(" ++ c.fieldRef ++ ")") (store c c.fieldRef)
      (store c (defaultLiteral value)))

/-- Replaces the value when the condition holds. -/
def replace (c : Context) (what condition value : String) : String :=
  Vtl.block (c.title what) (Vtl.when condition (store c value))

/-- Replaces the first character by its image under a method. -/
def replaceFirst (c : Context) (what method : String) : String :=
  replace c what ("!$util.isNullOrEmpty(" ++ c.fieldRef ++ ")")
    (c.fieldRef ++ ".substring(0, 1)." ++ method ++ "().concat(" ++ c.fieldRef ++ ".substring(1))")

def filter (c : Context) : Filter → String
  | .default value => defaultFilter c value
  | .lowercase => replace c "Lowercase filter on" c.fieldRef (c.fieldRef ++ ".toLowerCase()")
  | .uppercase => replace c "Uppercase filter on" c.fieldRef (c.fieldRef ++ ".toUpperCase()")
  | .lowerFirst => replaceFirst c "Lowercase first character filter on" "toLowerCase"
  | .upperFirst => replaceFirst c "Uppercase first character filter on" "toUpperCase"
  | .trim => replace c "Trim filter on" c.fieldRef (c.fieldRef ++ ".trim()")

end InputGuard.Snippet
