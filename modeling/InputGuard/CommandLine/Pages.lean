import InputGuard.CommandLine.Complaint
import InputGuard.Rule.Grammar

/-! What the commands that only inform print: the usage, the list of kinds and
filters, and the details of one of them. -/

namespace InputGuard.CommandLine

open Rule (Kind FilterKind Parameter)
open Schema (FieldType)

def version : String := "0.9.0"

def lines (ls : List String) : String := String.join (ls.map (· ++ "\n"))

def usagePage (program : String) : String := lines [
  "🛡️  " ++ programName ++ " v" ++ version,
  "",
  "Usage: " ++ program ++ " [--config <file.toml>] <command> [options]",
  "",
  "Commands:",
  "  list                                  List validator types and filters",
  "  info <name>                           Show details about a type or filter",
  "  sdl                                   Print the @validator declaration",
  "  snippet <field> <Type> name=value...  Generate the snippet for one field",
  "  apply <schema.json> <resolvers.json>  Augment resolvers and print templates",
  "  help                                  Show this help message",
  "",
  "Snippet arguments:",
  "  type=required                 Scalar argument",
  "  arrayString=[asd,123]         List argument",
  "",
  "Apply options:",
  "  --out <dir>   Write augmented templates as Mutation.<field>.req.vtl files"]

/-- A name filled up with blanks to ten columns, and its description. -/
def entry (name description : String) : String :=
  "  • " ++ name ++ String.ofList (List.replicate (10 - name.length) ' ') ++ " " ++ description

def listPage : String := lines (
  ["Validator types (" ++ toString Kind.all.length ++ " total):"] ++
  Kind.all.map (fun k => entry k.name k.description) ++
  ["", "Filters (" ++ toString FilterKind.all.length ++ " total):"] ++
  FilterKind.all.map (fun f => entry f.name f.description))

def builtinTypes : List FieldType := [.string, .int, .float, .boolean]

def supportedLine (supported : Option (List FieldType)) : String :=
  match supported with
  | some types => "Field types: " ++ ", ".intercalate (types.map FieldType.name)
  | none => "Field types: any"

def requirementLines (parameter? : FieldType → Option Parameter) : List String :=
  builtinTypes.filterMap fun t =>
    (parameter? t).map fun p => "  " ++ t.name ++ " field requires: " ++ p.name

def detailsPage (heading description : String) (supported : Option (List FieldType))
    (parameter? : FieldType → Option Parameter) : String :=
  lines ([heading, "  " ++ description, "", supportedLine supported] ++
    requirementLines parameter?)

/-- The details of a kind, or of a filter if no kind has the name. -/
def infoPage? (name : String) : Option String :=
  match Kind.ofName? name, FilterKind.ofName? name with
  | some k, _ =>
    some (detailsPage ("Validator type: " ++ k.name) k.description k.supported? k.parameter?)
  | none, some f =>
    some (detailsPage ("Filter: " ++ f.name) f.description f.supported? f.parameter?)
  | none, none => none

end InputGuard.CommandLine
