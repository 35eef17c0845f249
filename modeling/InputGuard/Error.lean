import InputGuard.Config.Error
import InputGuard.Rule.Fault

/-! Errors of the whole program: a directive that cannot be compiled, or trouble
around it with settings, files or JSON. The wording of malformed JSON is not
fixed beyond its beginning. -/

namespace InputGuard

inductive Error where
  | invalidDirective (message : String)
  | config (error : Config.Error)
  | file (reason : String)
  | malformed
deriving DecidableEq

namespace Error

def ofFault (f : Rule.Fault) : Error := .invalidDirective f.message

def message : Error → String
  | .invalidDirective message => "InvalidDirectiveError: " ++ message
  | .config e => "Configuration error: " ++ e.message
  | .file reason => "I/O error: " ++ reason
  | .malformed => "Serialization error: "

/-- The bare message of an invalid directive. -/
def directiveMessage? : Error → Option String
  | .invalidDirective message => some message
  | _ => none

def isInvalidDirective (e : Error) : Bool := e.directiveMessage?.isSome

end Error
end InputGuard
