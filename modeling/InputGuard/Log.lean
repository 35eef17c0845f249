import InputGuard.Rule.Grammar
import InputGuard.Schema.Value

/-! What a run reports while it goes: one event for each thing that happened,
with its severity and its wording. A log shows the events up to some level. -/

namespace InputGuard

open Schema (Shape FieldType)

inductive Severity where
  | error
  | warning
  | info
  | debug
deriving DecidableEq

def Severity.name : Severity → String
  | .error => "ERROR"
  | .warning => "WARN"
  | .info => "INFO"
  | .debug => "DEBUG"

/-- The more severe, the lower. -/
def Severity.rank : Severity → Nat
  | .error => 0
  | .warning => 1
  | .info => 2
  | .debug => 3

/-- The least severe events that a log shows; a log without a level is off. -/
abbrev Level := Option Severity

/-- The level of a log when the environment names none. -/
def Level.standard : Level := some .info

inductive Event where
  /-- an argument was dropped, since values of its shape are not supported -/
  | dropped (name : String) (shape : Shape)
  /-- an argument was kept though the grammar does not declare it -/
  | undeclared (name : String)
  | generated (kind : Rule.Kind) (field : String) (type : FieldType)
  | augmented (id : String)
  | missing (id typeName : String)
  | failed (typeName field reason : String)
  | loadedConfig (path : String)
  | loadedResolvers (count : Nat) (path : String)
deriving DecidableEq

namespace Event

def severity : Event → Severity
  | .dropped _ _ => .warning
  | .undeclared _ => .debug
  | .generated _ _ _ => .debug
  | .augmented _ => .info
  | .missing _ _ => .debug
  | .failed _ _ _ => .error
  | .loadedConfig _ => .debug
  | .loadedResolvers _ _ => .debug

def message : Event → String
  | .dropped name shape =>
    "Dropping @" ++ Rule.directiveName ++ " argument '" ++ name ++ "': " ++ shape.name ++
      " values are not supported"
  | .undeclared name =>
    "Keeping undeclared @" ++ Rule.directiveName ++ " argument '" ++ name ++ "'"
  | .generated kind field type =>
    "Generated " ++ kind.name ++ " snippet for field '" ++ field ++ "' (" ++ type.name ++ ")"
  | .augmented id => "Added validator snippet to " ++ id
  | .missing id typeName => "No resolver " ++ id ++ " for " ++ typeName ++ "; skipping"
  | .failed typeName field reason => typeName ++ "." ++ field ++ ": " ++ reason
  | .loadedConfig path => "Loaded transformer config from " ++ path
  | .loadedResolvers count path => "Loaded " ++ toString count ++ " resolvers from " ++ path

def line (e : Event) : String := e.severity.name ++ " " ++ e.message

def isShown (level : Level) (e : Event) : Bool := level.any fun s => e.severity.rank ≤ s.rank

end Event
end InputGuard
