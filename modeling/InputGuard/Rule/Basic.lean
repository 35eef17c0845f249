import InputGuard.Rule.Grammar
import InputGuard.Number.Integer
import InputGuard.Number.Binary64

/-! Rules: directives whose parameters have been read as the types the field
demands. Every constructor holds exactly what its kind needs, so a rule can
always be rendered. -/

namespace InputGuard.Rule

open Number (Binary64)

/-- The allowed values of a membership check, typed by the field. -/
inductive Members where
  | strings (members : List String)
  | integers (members : List Int64)
  | floats (members : List Binary64)
deriving DecidableEq

/-- What a `default` filter fills in, typed by the field. -/
inductive Default where
  | string (text : String)
  | integer (value : Int64)
  | float (value : Binary64)
  | boolean (value : Bool)
deriving DecidableEq

inductive Check where
  | required
  | number
  | string
  | boolean
  | email
  | url
  | regex (expression : String)
  | membership (members : Members)
deriving DecidableEq

inductive Filter where
  | default (value : Default)
  | lowercase
  | uppercase
  | lowerFirst
  | upperFirst
  | trim
deriving DecidableEq

def Check.kind : Check → Kind
  | .required => .required
  | .number => .number
  | .string => .string
  | .boolean => .boolean
  | .email => .email
  | .url => .url
  | .regex _ => .regex
  | .membership _ => .membership

def Filter.kind : Filter → FilterKind
  | .default _ => .default
  | .lowercase => .lowercase
  | .uppercase => .uppercase
  | .lowerFirst => .lowerFirst
  | .upperFirst => .upperFirst
  | .trim => .trim

end InputGuard.Rule

namespace InputGuard

/-- A check rejects bad input and never changes it; a filter changes the input
and never rejects it. -/
inductive Rule where
  | check (check : Rule.Check)
  | filter (filter : Rule.Filter)
deriving DecidableEq

def Rule.kind : Rule → Rule.Kind
  | .check c => c.kind
  | .filter _ => .filter

theorem Rule.isCheck_kind (r : Rule) : r.kind.isCheck = true ↔ ∃ c, r = .check c := by
  cases r with
  | check c => exact ⟨fun _ => ⟨c, rfl⟩, fun _ => by cases c <;> rfl⟩
  | filter f => simp [Rule.kind, Rule.Kind.isCheck]

end InputGuard
