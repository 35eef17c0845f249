import InputGuard.Rule.Resolve
import InputGuard.Snippet.Check
import InputGuard.Snippet.Filter

/-! From a parameter record to the text of a snippet: the record is resolved into
a rule, where everything that can be wrong is found, and a rule is rendered. -/

namespace InputGuard.Snippet

open Rule (Record Fault)
open Schema (FieldType)

def render (c : Context) : Rule → String
  | .check k => check c k
  | .filter f => filter c f

/-- The snippet for a field of some name and type. -/
def generate (config : Config) (field : String) (type : FieldType) (r : Record) :
    Except Fault String :=
  render (.ofConfig config field) <$> Rule.forField field type r

end InputGuard.Snippet
