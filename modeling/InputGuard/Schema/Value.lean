/-! Argument values as they are written in a schema. Scalars keep their literal
text, so that the type they are read as can be chosen later. -/

namespace InputGuard.Schema

inductive Value where
  | string (text : String)
  | int (literal : String)
  | float (literal : String)
  | boolean (value : Bool)
  | enum (name : String)
  | list (members : List Value)
  | object (members : List (String × Value))
  | variable (name : String)
  | null
deriving Inhabited

/-- The kinds of value, without their contents. -/
inductive Shape where
  | string
  | int
  | float
  | boolean
  | enum
  | list
  | object
  | variable
  | null
deriving DecidableEq

namespace Shape

def all : List Shape :=
  [.string, .int, .float, .boolean, .enum, .list, .object, .variable, .null]

def name : Shape → String
  | .string => "String"
  | .int => "Int"
  | .float => "Float"
  | .boolean => "Boolean"
  | .enum => "Enum"
  | .list => "List"
  | .object => "Object"
  | .variable => "Variable"
  | .null => "Null"

def ofName? (name : String) : Option Shape := all.find? (·.name = name)

theorem ofName?_name (s : Shape) : ofName? s.name = some s := by
  cases s <;> decide

end Shape

namespace Value

def shape : Value → Shape
  | .string _ => .string
  | .int _ => .int
  | .float _ => .float
  | .boolean _ => .boolean
  | .enum _ => .enum
  | .list _ => .list
  | .object _ => .object
  | .variable _ => .variable
  | .null => .null

def boolText (b : Bool) : String := if b then "true" else "false"

/-- The literal of a scalar; lists, objects, variables and null have none. -/
def literal? : Value → Option String
  | .string s | .int s | .float s | .enum s => some s
  | .boolean b => some (boolText b)
  | .list _ | .object _ | .variable _ | .null => none

end Value
end InputGuard.Schema
