import InputGuard.Rule.Basic
import InputGuard.Rule.Record
import InputGuard.Rule.Fault
import InputGuard.Text.Identifier
import InputGuard.Number.Decimal

/-! Resolving a parameter record against the type of a field. The result is a
rule, or the first thing that is wrong: the kind, then the type of the field,
then a missing parameter, then a text that does not read as the field's type. -/

namespace InputGuard.Rule

open Schema (FieldType)
open Number (Binary64 readInteger? readFloat?)

def readBoolean? (text : List Char) : Option Bool :=
  let s := Text.trim text
  if s = "true".toList then some true else if s = "false".toList then some false else none

/-- A parameter's text as a value, the whole text being named if it is unreadable. -/
def readAs (parameter : Parameter) (type : FieldType) (read : List Char → Option α)
    (text : String) : Except Fault α :=
  match read text.toList with
  | some v => .ok v
  | none => .error (.unreadable parameter text type)

def resolveMembers (r : Record) (type : FieldType) : Except Fault Members :=
  match Kind.membership.parameter? type with
  | none => .error (.membershipType type)
  | some p =>
    match r.list? p.name with
    | none => .error (.missingParameter p)
    | some texts =>
      match type with
      | .int => Members.integers <$> texts.mapM (readAs p type readInteger?)
      | .float => Members.floats <$> texts.mapM (readAs p type readFloat?)
      | _ => .ok (.strings texts)

def resolveDefault (r : Record) (type : FieldType) : Except Fault Default :=
  match FilterKind.default.parameter? type with
  | none => .error (.defaultType type)
  | some p =>
    match r.scalar? p.name with
    | none => .error (.missingParameter p)
    | some text =>
      match type with
      | .int => Default.integer <$> readAs p type readInteger? text
      | .float => Default.float <$> readAs p type readFloat? text
      | .boolean => Default.boolean <$> readAs p type readBoolean? text
      | _ => .ok (.string text)

def resolveFilter (r : Record) (type : FieldType) : Except Fault Filter :=
  match r.scalar? Parameter.filter.name with
  | none => .error .missingFilter
  | some name =>
    match FilterKind.ofName? name with
    | none => .error (.unknownFilter name)
    | some .default => Filter.default <$> resolveDefault r type
    | some .lowercase => .ok .lowercase
    | some .uppercase => .ok .uppercase
    | some .lowerFirst => .ok .lowerFirst
    | some .upperFirst => .ok .upperFirst
    | some .trim => .ok .trim

def resolveKind (r : Record) (type : FieldType) : Kind → Except Fault Rule
  | .required => .ok (.check .required)
  | .number => .ok (.check .number)
  | .string => .ok (.check .string)
  | .boolean => .ok (.check .boolean)
  | .email => .ok (.check .email)
  | .url => .ok (.check .url)
  | .regex =>
    match r.scalar? Parameter.expression.name with
    | none => .error .missingExpression
    | some expression => .ok (.check (.regex expression))
  | .membership => (fun ms => .check (.membership ms)) <$> resolveMembers r type
  | .filter => Rule.filter <$> resolveFilter r type

def resolve (r : Record) (type : FieldType) : Except Fault Rule :=
  match r.scalar? Parameter.kind.name with
  | none => .error .missingKind
  | some name =>
    match Kind.ofName? name with
    | none => .error (.unknownKind name)
    | some kind => resolveKind r type kind

/-- The rule for a field of some name, which must be an identifier. -/
def forField (field : String) (type : FieldType) (r : Record) : Except Fault Rule :=
  if Text.isIdentifier field.toList then resolve r type else .error (.invalidField field)

end InputGuard.Rule
