import InputGuard.Config.Basic

/-! Why a configuration could not be loaded. The wording of a malformed document
is not fixed beyond its beginning. -/

namespace InputGuard.Config

inductive Error where
  | unreadable (path reason : String)
  | malformed
  | invalid (key reason : String)
deriving DecidableEq

namespace Error

def ofProblem (p : Problem) : Error := .invalid p.key.name p.reason

def message : Error → String
  | .unreadable path reason => "Failed to read config file " ++ path ++ ": " ++ reason
  | .malformed => "Failed to parse config: "
  | .invalid key reason => "Invalid value for '" ++ key ++ "': " ++ reason

end Error
end InputGuard.Config
