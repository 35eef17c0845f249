import InputGuard.Vtl.Literal

/-! Statements of the Velocity template language as text. Bodies are indented by
two blanks once, at their start: a literal inside may span lines, and its later
lines must stay as they are. -/

namespace InputGuard.Vtl

def indent (body : String) : String := "  " ++ body

/-- A statement between a start and an end comment. -/
def block (title body : String) : String :=
  "## [Start] " ++ title ++ ". **\n" ++ body ++ "\n## [End] " ++ title ++ ". **"

def when (condition body : String) : String :=
  "#if( " ++ condition ++ " )\n" ++ indent body ++ "\n#end"

def choose (condition body otherwise : String) : String :=
  "#if( " ++ condition ++ " )\n" ++ indent body ++ "\n#else\n" ++ indent otherwise ++ "\n#end"

def assign (name value : String) : String := "#set( " ++ name ++ " = " ++ value ++ " )"

/-- Evaluates an expression without printing its result. -/
def quietly (expression : String) : String := "$util.qr(" ++ expression ++ ")"

def raise (message errorType : String) : String :=
  "$util.error(" ++ string message ++ ", " ++ string errorType ++ ")"

/-- Stores a value under a field of an input object. -/
def put (input field value : String) : String :=
  input ++ ".put(" ++ string field ++ ", " ++ value ++ ")"

end InputGuard.Vtl
