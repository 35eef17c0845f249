import InputGuard.Config.Basic

/-! What a snippet refers to: the field it is for, and the input and error type
of the configuration. -/

namespace InputGuard.Snippet

structure Context where
  field : String
  input : String
  errorType : String
deriving DecidableEq

namespace Context

def ofConfig (c : Config) (field : String) : Context := ⟨field, c.inputPath, c.errorType⟩

/-- Reference to the field's value in the input. -/
def fieldRef (c : Context) : String := c.input ++ "." ++ c.field

/-- Variable that holds the members of a membership check. -/
def membersVar (c : Context) : String := "$" ++ c.field ++ "Arr"

/-- Title of a block about the field. -/
def title (c : Context) (what : String) : String := what ++ " \"" ++ c.field ++ "\""

end Context
end InputGuard.Snippet
