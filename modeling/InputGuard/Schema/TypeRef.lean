import InputGuard.Text.Blank
import InputGuard.Text.Identifier

/-! References to types: a name, a list `[T]` or a non-null `T!`, with blanks
around any of them. Writing a reference gives its form without blanks. -/

namespace InputGuard.Schema

inductive TypeRef where
  | named (name : String)
  | list (inner : TypeRef)
  | nonNull (inner : TypeRef)
deriving DecidableEq, Inhabited

namespace TypeRef

/-- Why a text is no type reference; each cause holds the part it is about. -/
inductive Error where
  | doubleNonNull (text : String)
  | unbalancedList (text : String)
  | invalidName (text : String)
deriving DecidableEq

def Error.message : Error → String
  | .doubleNonNull text => "Invalid type reference '" ++ text ++ "'"
  | .unbalancedList text => "Unbalanced list type '" ++ text ++ "'"
  | .invalidName text => "Invalid type name '" ++ text ++ "'"

def isNonNull : TypeRef → Bool
  | .nonNull _ => true
  | _ => false

/-- Well formed: names are identifiers and `!` never follows `!`. -/
def WellFormed : TypeRef → Prop
  | .named name => Text.isIdentifier name.toList = true
  | .list inner => inner.WellFormed
  | .nonNull inner => inner.isNonNull = false ∧ inner.WellFormed

def chars : TypeRef → List Char
  | .named name => name.toList
  | .list inner => '[' :: (inner.chars ++ [']'])
  | .nonNull inner => inner.chars ++ ['!']

def print (t : TypeRef) : String := String.ofList t.chars

def ofName (s : List Char) : Except Error TypeRef :=
  if Text.isIdentifier s then .ok (.named (String.ofList s))
  else .error (.invalidName (String.ofList s))

def ofNonNull (s : List Char) (inner : TypeRef) : Except Error TypeRef :=
  if inner.isNonNull then .error (.doubleNonNull (String.ofList s)) else .ok (.nonNull inner)

theorem length_trim_pos {text : List Char} {c : Char}
    (h : (Text.trim text).getLast? = some c ∨ (Text.trim text).head? = some c) :
    0 < (Text.trim text).length := by
  cases hs : Text.trim text with
  | nil => simp [hs] at h
  | cons => simp

/-- Reads a reference, the trailing `!` before the brackets. -/
def parse (text : List Char) : Except Error TypeRef :=
  let s := Text.trim text
  if _h : s.getLast? = some '!' then
    parse s.dropLast >>= ofNonNull s
  else if _h : s.head? = some '[' then
    if s.tail.getLast? = some ']' then TypeRef.list <$> parse s.tail.dropLast
    else .error (.unbalancedList (String.ofList s))
  else ofName s
termination_by text.length
decreasing_by
  · have := length_trim_pos (.inl _h)
    have := Text.length_trim_le text
    simp only [List.length_dropLast]
    omega
  · have := length_trim_pos (.inr _h)
    have := Text.length_trim_le text
    simp only [List.length_dropLast, List.length_tail]
    omega

/-- The texts that spell a reference. -/
inductive Spells : List Char → TypeRef → Prop where
  | named {s : List Char} (identifier : Text.isIdentifier s = true) :
    Spells s (.named (String.ofList s))
  | list {s : List Char} {t : TypeRef} (inner : Spells s t) :
    Spells ('[' :: (s ++ [']'])) (.list t)
  | nonNull {s : List Char} {t : TypeRef} (inner : Spells s t) (nullable : t.isNonNull = false) :
    Spells (s ++ ['!']) (.nonNull t)
  | blanks {s before after : List Char} {t : TypeRef} (inner : Spells s t)
    (leading : before.all Text.isBlank = true) (trailing : after.all Text.isBlank = true) :
    Spells (before ++ s ++ after) t

theorem Spells.wellFormed {s : List Char} {t : TypeRef} (h : Spells s t) : t.WellFormed := by
  induction h with
  | named identifier => simpa [WellFormed] using identifier
  | list _ ih => exact ih
  | nonNull _ nullable ih => exact ⟨nullable, ih⟩
  | blanks _ _ _ ih => exact ih

/-- A well-formed reference is spelled by the text it is written as. -/
theorem spells_chars {t : TypeRef} (h : t.WellFormed) : Spells t.chars t := by
  induction t with
  | named name => simpa [chars] using Spells.named h
  | list inner ih => exact .list (ih h)
  | nonNull inner ih => exact .nonNull (ih h.2) h.1

/-- The name inside all list and non-null wrappers. -/
def baseName : TypeRef → String
  | .named name => name
  | .list inner | .nonNull inner => inner.baseName

end TypeRef

/-- The type of a field as far as rules tell types apart: the four built-in
scalars, or any other name. -/
inductive FieldType where
  | string
  | int
  | float
  | boolean
  | other (name : String)
deriving DecidableEq, Inhabited

namespace FieldType

def ofName (name : String) : FieldType :=
  if name = "String" then .string
  else if name = "Int" then .int
  else if name = "Float" then .float
  else if name = "Boolean" then .boolean
  else .other name

def name : FieldType → String
  | .string => "String"
  | .int => "Int"
  | .float => "Float"
  | .boolean => "Boolean"
  | .other name => name

@[simp] theorem name_ofName (name : String) : (ofName name).name = name := by
  simp only [ofName]
  repeat' split
  all_goals simp_all [FieldType.name]

end FieldType

def TypeRef.fieldType (t : TypeRef) : FieldType := .ofName t.baseName

end InputGuard.Schema
