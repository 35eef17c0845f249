import InputGuard.CommandLine.Directory
import InputGuard.Error

/-! Why a command fails. The report names the step and its causes, from the
outermost inwards. Where the cause is malformed input, its wording is not fixed,
and the report stays open behind the last colon. -/

namespace InputGuard.CommandLine

/-- The name of the program, unless it is started under another one. -/
def programName : String := "vtl-validator"

inductive Complaint where
  | optionValue (option : String)
  | config (path : String) (error : Config.Error)
  | infoName
  | unknownName (name : String)
  | snippetWords (program : String)
  | applyWords (program : String)
  | pair (word : String)
  | unknownCommand (word : String)
  | directive (fault : Rule.Fault)
  | schemaFile (path : String) (error : FileError)
  | schemaText (path : String)
  | resolversFile (path : String) (error : FileError)
  | resolversText (path : String)
  | folder (path : String) (error : FileError)
  | output (path : String) (error : FileError)
deriving DecidableEq

namespace Complaint

def causes : Complaint → List String
  | .optionValue option => [option ++ " requires a value"]
  | .config path error => ["loading config " ++ path, error.message]
  | .infoName => ["Please specify a validator type or filter name"]
  | .unknownName name =>
    ["Unknown validator type or filter: " ++ name ++ " (use 'list' to see them)"]
  | .snippetWords program => ["Usage: " ++ program ++ " snippet <field> <FieldType> name=value..."]
  | .applyWords program =>
    ["Usage: " ++ program ++ " apply <schema.json> <resolvers.json> [--out <dir>]"]
  | .pair word => ["Expected name=value, got '" ++ word ++ "'"]
  | .unknownCommand word => ["Unknown command: " ++ word]
  | .directive fault => [(Error.ofFault fault).message]
  | .schemaFile path error => ["reading schema " ++ path, error.message]
  | .schemaText path => ["parsing schema " ++ path, ""]
  | .resolversFile path error =>
    ["loading resolvers " ++ path, (Error.file error.message).message, error.message]
  | .resolversText path => ["loading resolvers " ++ path, Error.malformed.message]
  | .folder path error => ["creating " ++ path, error.message]
  | .output path error => ["writing " ++ path, error.message]

/-- Whether the wording of the last cause is not fixed. -/
def isOpen : Complaint → Bool
  | .config _ .malformed | .schemaText _ | .resolversText _ => true
  | _ => false

def report (c : Complaint) : String :=
  "❌ " ++ ": ".intercalate c.causes ++ if c.isOpen then "" else "\n"

end Complaint
end InputGuard.CommandLine
