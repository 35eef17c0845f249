import InputGuard.Text.Identifier
import InputGuard.Text.Placeholder
import InputGuard.Text.Split

/-! Settings: the marker directive, the references that generated code uses, and
the templates of resolver ids. `Config.check` says whether every value can stand
in generated code and ids, or names the first one that cannot. -/

namespace InputGuard

structure Config where
  /-- name of the directive that the owning type must carry -/
  modelDirective : String := "model"
  /-- reference to the input object of a mutation -/
  inputPath : String := "$ctx.args.input"
  /-- type of the errors that checks raise -/
  errorType : String := "InvalidArgumentsError"
  /-- template of the id of a type's create resolver -/
  createResolverId : String := "Create\x7btype\x7dResolver"
  /-- template of the id of a type's update resolver -/
  updateResolverId : String := "Update\x7btype\x7dResolver"
deriving DecidableEq, Inhabited

namespace Config

inductive Key where
  | modelDirective
  | inputPath
  | errorType
  | createResolverId
  | updateResolverId
deriving DecidableEq

namespace Key

def all : List Key :=
  [.modelDirective, .inputPath, .errorType, .createResolverId, .updateResolverId]

def name : Key → String
  | .modelDirective => "model_directive"
  | .inputPath => "input_path"
  | .errorType => "error_type"
  | .createResolverId => "create_resolver_id"
  | .updateResolverId => "update_resolver_id"

def ofName? (name : String) : Option Key := all.find? (·.name = name)

end Key

def get (c : Config) : Key → String
  | .modelDirective => c.modelDirective
  | .inputPath => c.inputPath
  | .errorType => c.errorType
  | .createResolverId => c.createResolverId
  | .updateResolverId => c.updateResolverId

def set (c : Config) (value : String) : Key → Config
  | .modelDirective => { c with modelDirective := value }
  | .inputPath => { c with inputPath := value }
  | .errorType => { c with errorType := value }
  | .createResolverId => { c with createResolverId := value }
  | .updateResolverId => { c with updateResolverId := value }

/-- What can be wrong with a value. -/
inductive Problem where
  | emptyDirective
  | invalidPath
  | invalidErrorType
  | noPlaceholder (key : Key)
  | sameTemplates
deriving DecidableEq

namespace Problem

def key : Problem → Key
  | .emptyDirective => .modelDirective
  | .invalidPath => .inputPath
  | .invalidErrorType => .errorType
  | .noPlaceholder key => key
  | .sameTemplates => .updateResolverId

def reason : Problem → String
  | .emptyDirective => "must not be empty"
  | .invalidPath => "must be a '$'-prefixed dotted reference such as $ctx.args.input"
  | .invalidErrorType => "must be a plain identifier"
  | .noPlaceholder _ => "must contain the " ++ String.ofList Text.placeholder ++ " placeholder"
  | .sameTemplates => "must differ from create_resolver_id"

end Problem

/-- A dollar sign and one or more identifiers with single dots between them. -/
def isReference : List Char → Bool
  | '$' :: r => (Text.splitOn '.' r).all Text.isIdentifier
  | _ => false

def problem? (c : Config) : Option Problem :=
  if c.modelDirective = "" then some .emptyDirective
  else if !isReference c.inputPath.toList then some .invalidPath
  else if !Text.isIdentifier c.errorType.toList then some .invalidErrorType
  else if !Text.hasPlaceholder c.createResolverId.toList then some (.noPlaceholder .createResolverId)
  else if !Text.hasPlaceholder c.updateResolverId.toList then some (.noPlaceholder .updateResolverId)
  else if c.createResolverId = c.updateResolverId then some .sameTemplates
  else none

def check (c : Config) : Except Problem Config :=
  match c.problem? with
  | some p => .error p
  | none => .ok c

end Config
end InputGuard
