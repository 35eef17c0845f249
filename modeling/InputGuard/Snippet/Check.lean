import InputGuard.Rule.Basic
import InputGuard.Snippet.Context
import InputGuard.Vtl.Statement

/-! Snippets of checks. Each raises an error when the input's value fails, and
none of them changes the input. -/

namespace InputGuard.Snippet

open Rule (Check Members)

def emailPattern : String :=
  "^[_A-Za-z0-9-\\+]+(\\.[_A-Za-z0-9-]+)*@[A-Za-z0-9-]+(\\.[A-Za-z0-9]+)*(\\.[A-Za-z]\x7b2,\x7d)$"

def urlPattern : String :=
  "^(https?|ftp|file)://[-a-zA-Z0-9+&@#/%?=~_|!:,.;]*[-a-zA-Z0-9+&@#/%=~_|]"

/-- A block that raises an error if the condition holds. -/
def rejectIf (c : Context) (what condition complaint : String) : String :=
  Vtl.block (c.title what)
    (Vtl.when condition (Vtl.raise (c.field ++ " attribute " ++ complaint) c.errorType))

def typeCheck (c : Context) (what test type : String) : String :=
  rejectIf c what ("!$util." ++ test ++ "(" ++ c.fieldRef ++ ")") ("must be of type " ++ type)

def patternCheck (c : Context) (what pattern complaint : String) : String :=
  rejectIf c what ("!$util.matches(" ++ Vtl.string pattern ++ ", " ++ c.fieldRef ++ ")") complaint

def memberLiterals : Members → List String
  | .strings ms => ms.map Vtl.string
  | .integers ms => ms.map Vtl.int
  | .floats ms => ms.map Vtl.float

/-- Two blocks: the list of members, and the check against it. The complaint is
worded as that of a url check. -/
def membershipCheck (c : Context) (members : Members) : String :=
  Vtl.block (c.title "Membership list for")
      (Vtl.assign c.membersVar (Vtl.list (memberLiterals members))) ++ "\n" ++
    rejectIf c "Membership check on" ("!" ++ c.membersVar ++ ".contains(" ++ c.fieldRef ++ ")")
      "must be valid url"

def check (c : Context) : Check → String
  | .required => rejectIf c "Required check on" ("!" ++ c.fieldRef) "is required"
  | .number => typeCheck c "Number check on" "isNumber" "number"
  | .string => typeCheck c "String check on" "isString" "string"
  | .boolean => typeCheck c "Boolean check on" "isBoolean" "boolean"
  | .email => patternCheck c "Email check on" emailPattern "must be valid email"
  | .url => patternCheck c "URL check on" urlPattern "must be valid url"
  | .regex expression => patternCheck c "Pattern check on" expression "must match pattern"
  | .membership members => membershipCheck c members

end InputGuard.Snippet
