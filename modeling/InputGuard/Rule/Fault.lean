import InputGuard.Rule.Grammar

/-! Why a directive cannot be compiled. Each cause holds what its wording needs. -/

namespace InputGuard.Rule

open Schema (FieldType)

inductive Fault where
  | unmarkedParent (marker : String)
  | invalidField (name : String)
  | missingKind
  | unknownKind (name : String)
  | missingExpression
  | missingFilter
  | unknownFilter (name : String)
  | membershipType (type : FieldType)
  | defaultType (type : FieldType)
  | missingParameter (parameter : Parameter)
  | unreadable (parameter : Parameter) (text : String) (type : FieldType)
deriving DecidableEq

namespace Fault

def typeMessage (type : FieldType) (what : String) (supported : Option (List FieldType)) : String :=
  "Unexpected field type " ++ type.name ++ " for " ++ what ++ "; expected one of " ++
    ", ".intercalate ((supported.getD []).map FieldType.name) ++ "."

def message : Fault → String
  | .unmarkedParent marker =>
    directiveName ++ " directive requires " ++ marker ++ " directive on parent type"
  | .invalidField name => "Invalid field name '" ++ name ++ "'."
  | .missingKind =>
    "@" ++ directiveName ++ " requires the '" ++ Parameter.kind.name ++ "' argument."
  | .unknownKind name => Kind.unknownMessage name ++ "."
  | .missingExpression => "expression must be set to validate a pattern."
  | .missingFilter =>
    "'" ++ Parameter.filter.name ++ "' must be set when type is " ++ Kind.filter.name ++ "."
  | .unknownFilter name => FilterKind.unknownMessage name ++ "."
  | .membershipType type => typeMessage type Kind.membership.name Kind.membership.supported?
  | .defaultType type => typeMessage type "default filter" FilterKind.default.supported?
  | .missingParameter parameter => parameter.name ++ " must be defined."
  | .unreadable parameter text type =>
    parameter.name ++ " value '" ++ text ++ "' is not a valid " ++ type.name ++ "."

end Fault
end InputGuard.Rule
