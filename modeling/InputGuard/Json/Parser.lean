import InputGuard.Json.Basic
import InputGuard.Json.Token

/-! Reading a JSON value from its tokens, with a stack of the containers that are
still open. Any depth is read; a limit on nesting is the concern of those who
decode the value. -/

namespace InputGuard.Json

/-- An open container: what it holds so far, newest first, and for an object the
key of the member whose value is being read. -/
inductive Frame where
  | array (elements : List Json)
  | object (members : List (Option String × Json)) (key : Option String)

/-- What may come next, inside the open containers. -/
inductive Expecting where
  | value (stack : List Frame)
  | firstElement (stack : List Frame)
  | firstMember (stack : List Frame)
  | member (members : List (Option String × Json)) (stack : List Frame)
  | colon (members : List (Option String × Json)) (key : Option String) (stack : List Frame)
  | after (value : Json) (stack : List Frame)

namespace Expecting

def onValue (stack : List Frame) : Token → Option Expecting
  | .null => some (.after .null stack)
  | .bool b => some (.after (.bool b) stack)
  | .number literal => some (.after (.number literal) stack)
  | .string text => some (.after (.string text) stack)
  | .openArray => some (.firstElement stack)
  | .openObject => some (.firstMember stack)
  | _ => none

def onMember (members : List (Option String × Json)) (stack : List Frame) :
    Token → Option Expecting
  | .string key => some (.colon members key stack)
  | _ => none

def step : Expecting → Token → Option Expecting
  | .value stack, t => onValue stack t
  | .firstElement stack, .closeArray => some (.after (.array []) stack)
  | .firstElement stack, t => onValue (.array [] :: stack) t
  | .firstMember stack, .closeObject => some (.after (.object []) stack)
  | .firstMember stack, t => onMember [] stack t
  | .member members stack, t => onMember members stack t
  | .colon members key stack, .colon => some (.value (.object members key :: stack))
  | .after v (.array vs :: stack), .comma => some (.value (.array (v :: vs) :: stack))
  | .after v (.array vs :: stack), .closeArray =>
    some (.after (.array (v :: vs).reverse) stack)
  | .after v (.object ms key :: stack), .comma => some (.member ((key, v) :: ms) stack)
  | .after v (.object ms key :: stack), .closeObject =>
    some (.after (.object ((key, v) :: ms).reverse) stack)
  | _, _ => none

def finish : Expecting → Option Json
  | .after v [] => some v
  | _ => none

end Expecting

def ofTokens? (ts : List Token) : Option Json :=
  ts.foldlM Expecting.step (.value []) >>= Expecting.finish

/-- The value of a JSON text, or nothing if the text is malformed. -/
def ofText? (text : String) : Option Json := tokens? text.toList >>= ofTokens?

end InputGuard.Json
