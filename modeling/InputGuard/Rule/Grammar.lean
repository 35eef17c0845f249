import InputGuard.Schema.TypeRef

/-! The grammar of the `@validator` directive: its kinds, its filters and its
parameters, each a closed list in declaration order, and which parameter a kind
or filter needs for a field of some type. -/

namespace InputGuard.Rule

open Schema (FieldType)

def directiveName : String := "validator"

/-- What a `@validator` directive does, as selected by its `type`. -/
inductive Kind where
  | filter
  | required
  | regex
  | number
  | string
  | boolean
  | url
  | email
  | membership
deriving DecidableEq

/-- How a `filter` changes the field. -/
inductive FilterKind where
  | default
  | lowercase
  | uppercase
  | lowerFirst
  | upperFirst
  | trim
deriving DecidableEq

/-- The declared parameters of the directive. -/
inductive Parameter where
  | kind
  | filter
  | expression
  | arrayString
  | arrayInt
  | arrayFloat
  | valueString
  | valueInt
  | valueFloat
  | valueBoolean
  | min
  | max
deriving DecidableEq

namespace Parameter

def all : List Parameter :=
  [.kind, .filter, .expression, .arrayString, .arrayInt, .arrayFloat, .valueString, .valueInt,
    .valueFloat, .valueBoolean, .min, .max]

def name : Parameter → String
  | .kind => "type"
  | .filter => "filter"
  | .expression => "expression"
  | .arrayString => "arrayString"
  | .arrayInt => "arrayInt"
  | .arrayFloat => "arrayFloat"
  | .valueString => "valueString"
  | .valueInt => "valueInt"
  | .valueFloat => "valueFloat"
  | .valueBoolean => "valueBoolean"
  | .min => "min"
  | .max => "max"

def typeName : Parameter → String
  | .kind => "ValidatorName!"
  | .filter => "FilterName"
  | .expression | .valueString => "String"
  | .arrayString => "[String]"
  | .arrayInt => "[Int]"
  | .arrayFloat => "[Float]"
  | .valueInt | .min | .max => "Int"
  | .valueFloat => "Float"
  | .valueBoolean => "Boolean"

def isDeclared (name : String) : Bool := all.any (·.name = name)

end Parameter

namespace Kind

def all : List Kind :=
  [.filter, .required, .regex, .number, .string, .boolean, .url, .email, .membership]

def name : Kind → String
  | .filter => "filter"
  | .required => "required"
  | .regex => "regex"
  | .number => "number"
  | .string => "string"
  | .boolean => "boolean"
  | .url => "url"
  | .email => "email"
  | .membership => "in"

def ofName? (name : String) : Option Kind := all.find? (·.name = name)

def description : Kind → String
  | .filter => "Rewrite the field value with the filter selected by `filter`"
  | .required => "Reject absent, empty, zero or false values"
  | .regex => "Reject values that do not match `expression`"
  | .number => "Reject values that are not numbers"
  | .string => "Reject values that are not strings"
  | .boolean => "Reject values that are not booleans"
  | .url => "Reject values that are not http, https, ftp or file URLs"
  | .email => "Reject values that are not email addresses"
  | .membership => "Reject values that are not members of the configured list"

/-- The types of field a kind is limited to. -/
def supported? : Kind → Option (List FieldType)
  | .membership => some [.string, .int, .float]
  | _ => none

/-- The parameter a kind needs on a field, if it needs one and supports the field. -/
def parameter? : Kind → FieldType → Option Parameter
  | .regex, _ => some .expression
  | .filter, _ => some .filter
  | .membership, .string => some .arrayString
  | .membership, .int => some .arrayInt
  | .membership, .float => some .arrayFloat
  | _, _ => none

/-- Checks raise errors; a filter changes the input. -/
def isCheck (k : Kind) : Bool := k ≠ .filter

def unknownMessage (name : String) : String := "Invalid validator type '" ++ name ++ "'"

theorem ofName?_name (k : Kind) : ofName? k.name = some k := by
  cases k <;> decide

end Kind

namespace FilterKind

def all : List FilterKind :=
  [.default, .lowercase, .uppercase, .lowerFirst, .upperFirst, .trim]

def name : FilterKind → String
  | .default => "default"
  | .lowercase => "lowercase"
  | .uppercase => "uppercase"
  | .lowerFirst => "lcFirst"
  | .upperFirst => "ucFirst"
  | .trim => "trim"

def ofName? (name : String) : Option FilterKind := all.find? (·.name = name)

def description : FilterKind → String
  | .default => "Set the field to the configured value when it is absent"
  | .lowercase => "Convert the value to lower case"
  | .uppercase => "Convert the value to upper case"
  | .lowerFirst => "Convert the first character to lower case"
  | .upperFirst => "Convert the first character to upper case"
  | .trim => "Remove leading and trailing whitespace"

/-- The types of field a filter is limited to. -/
def supported? : FilterKind → Option (List FieldType)
  | .default => some [.string, .int, .float, .boolean]
  | _ => none

/-- The parameter a filter needs on a field, if it needs one and supports the field. -/
def parameter? : FilterKind → FieldType → Option Parameter
  | .default, .string => some .valueString
  | .default, .int => some .valueInt
  | .default, .float => some .valueFloat
  | .default, .boolean => some .valueBoolean
  | _, _ => none

def unknownMessage (name : String) : String := "Invalid filter '" ++ name ++ "'"

theorem ofName?_name (f : FilterKind) : ofName? f.name = some f := by
  cases f <;> decide

end FilterKind

/-- The schema text that declares the directive and its two enumerations. -/
def declaration : String :=
  "directive @" ++ directiveName ++ "(\n" ++
    "\n".intercalate (Parameter.all.map fun p => "  " ++ p.name ++ ": " ++ p.typeName) ++
    "\n) on FIELD_DEFINITION\n\nenum ValidatorName \x7b " ++
    " ".intercalate (Kind.all.map Kind.name) ++
    " \x7d\n\nenum FilterName \x7b " ++
    " ".intercalate (FilterKind.all.map FilterKind.name) ++ " \x7d\n"

end InputGuard.Rule
