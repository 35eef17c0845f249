import InputGuard.CommandLine.Pages
import InputGuard.CommandLine.Words
import InputGuard.Config.Load
import InputGuard.Resolver.Codec
import InputGuard.Run
import InputGuard.Schema.Codec

/-! The commands. A command is a function from its words and a directory to what
it prints and logs, the directory it leaves, and a complaint if it fails; nothing is
written before everything that can be wrong with the input has been checked. What
is shown of the log goes to the error output, in front of the complaint. -/

namespace InputGuard.CommandLine

open Resolver (Operation Report Store)
open Schema (Argument Document FieldType)
open Rule (Record)

/-- What a command has printed and logged, and the directory as it left it. -/
structure Progress where
  printed : String
  directory : Directory
  events : List Event

/-- The end of a command, with the complaint if it failed. -/
structure Ending where
  progress : Progress
  complaint : Option Complaint

namespace Progress

def start (d : Directory) : Progress := ⟨"", d, []⟩

def print (p : Progress) (text : String) : Progress := { p with printed := p.printed ++ text }

def log (p : Progress) (events : List Event) : Progress := { p with events := p.events ++ events }

def done (p : Progress) : Ending := ⟨p, none⟩

def fail (p : Progress) (c : Complaint) : Ending := ⟨p, some c⟩

end Progress

/-- Goes on with a value, or fails with a complaint. -/
def orFail (p : Progress) (value : Except Complaint α) (next : α → Ending) : Ending :=
  match value with
  | .ok a => next a
  | .error c => p.fail c

def loadConfig (d : Directory) (path : Option String) : Except Complaint Config :=
  match path with
  | none => .ok {}
  | some path =>
    match d.read path with
    | .error e => .error (.config path (.unreadable path e.message))
    | .ok text => (Config.ofToml text).mapError (.config path)

/-- What is logged when a configuration was loaded. -/
def configEvents (path : Option String) : List Event := path.toList.map .loadedConfig

/-- Arguments as words give them, with the first word that is no pair of a name and a
value if there is one. -/
structure ReadWords where
  arguments : List Argument
  unpaired : Option String

/-- Reads words from left to right until one is no pair. -/
def readWords : List String → ReadWords
  | [] => ⟨[], none⟩
  | w :: ws =>
    match namedValue? w with
    | none => ⟨[], some w⟩
    | some (name, value) =>
      let rest := readWords ws
      { rest with arguments := ⟨name, value⟩ :: rest.arguments }

def snippet (c : Config) (field type : String) (pairs : List String) (p : Progress) : Ending :=
  let given := readWords pairs
  match given.unpaired with
  | some w => (p.log (Record.extractionEvents given.arguments)).fail (.pair w)
  | none =>
    let compiled := Run.compileField c field (.ofName type) given.arguments
    let p := p.log compiled.events
    orFail p (compiled.result.mapError .directive) fun text => (p.print (text.getD "" ++ "\n")).done

def readSchema (d : Directory) (path : String) : Except Complaint Document :=
  match d.read path with
  | .error e => .error (.schemaFile path e)
  | .ok text =>
    match Document.ofText? text with
    | none => .error (.schemaText path)
    | some document => .ok document

def readResolvers (d : Directory) (path : String) : Except Complaint Store :=
  match d.read path with
  | .error e => .error (.resolversFile path e)
  | .ok text =>
    match Store.ofText? text with
    | none => .error (.resolversText path)
    | some store => .ok store

/-- A template that a run changed. -/
structure Emission where
  id : String
  file : String
  template : String
deriving DecidableEq

def emission? (c : Config) (report : Report) (store : Store) (typeName : String)
    (o : Operation) : Option Emission :=
  let id := o.id c typeName
  if report.augmented.contains id then
    (store.get? id).map fun r => ⟨id, o.fileName typeName, r.request⟩
  else none

/-- The changed templates in the order of the document, create before update. -/
def emissions (c : Config) (d : Document) (report : Report) (store : Store) : List Emission :=
  d.types.flatMap fun t => Operation.all.filterMap (emission? c report store t.name)

def printEmission (e : Emission) : String :=
  "==> " ++ e.file ++ " (" ++ e.id ++ ")\n" ++ e.template ++ "\n\n"

/-- Writes templates into a folder until one cannot be written. -/
def writeEmissions (folder : String) : List Emission → Progress → Ending
  | [], p => p.done
  | e :: es, p =>
    let path := Path.join folder e.file
    match p.directory.write path e.template with
    | .error error => p.fail (.output path error)
    | .ok d =>
      writeEmissions folder es
        (({ p with directory := d } : Progress).print ("📝 " ++ e.id ++ " -> " ++ path ++ "\n"))

def summary (report : Report) : String :=
  "✅ " ++ toString report.augmented.length ++ " template(s) augmented, " ++
    toString report.skipped.length ++ " missing resolver(s) skipped\n"

def finishApply (report : Report) (e : Ending) : Ending :=
  match e.complaint with
  | none => (e.progress.print (summary report)).done
  | some _ => e

def applyTo (out : Option String) (es : List Emission) (report : Report) (p : Progress) :
    Ending :=
  match out with
  | none => (p.print (String.join (es.map printEmission) ++ summary report)).done
  | some folder =>
    let made := p.directory.makeFolder folder
    let p := { p with directory := made.directory }
    match made.error with
    | some e => p.fail (.folder folder e)
    | none => finishApply report (writeEmissions folder es p)

/-- Compiles the directives of a schema into the templates of resolvers, and puts out
what that changed. -/
def augment (c : Config) (out : Option String) (schema resolvers : String) (p : Progress) :
    Ending :=
  orFail p (readSchema p.directory schema) fun document =>
    orFail p (readResolvers p.directory resolvers) fun store =>
      let outcome := Run.document c document store
      let p := p.log (.loadedResolvers store.size resolvers :: outcome.events)
      orFail p (outcome.result.mapError .directive) fun report =>
        applyTo out (emissions c document report outcome.store) report p

def apply (c : Config) (program : String) (words : List String) (p : Progress) : Ending :=
  match takeOption "--out" words with
  | none => p.fail (.optionValue "--out")
  | some ⟨out, schema :: resolvers :: _⟩ => augment c out schema resolvers p
  | some _ => p.fail (.applyWords program)

def command (c : Config) (program name : String) (words : List String) (p : Progress) : Ending :=
  if name = "list" then (p.print listPage).done
  else if name = "info" then
    match words with
    | [] => p.fail .infoName
    | w :: _ => orFail p ((infoPage? w).elim (.error (.unknownName w)) .ok) fun t => (p.print t).done
  else if name = "sdl" then (p.print Rule.declaration).done
  else if name = "snippet" then
    match words with
    | field :: type :: pairs => snippet c field type pairs p
    | _ => p.fail (.snippetWords program)
  else if name = "apply" then apply c program words p
  else if name = "help" ∨ name = "--help" ∨ name = "-h" then (p.print (usagePage program)).done
  else (p.print (usagePage program)).fail (.unknownCommand name)

/-- Runs the words that are left when the configuration is loaded. -/
def runWith (c : Config) (program : String) (words : List String) (p : Progress) : Ending :=
  match words with
  | [] => (p.print (usagePage program)).done
  | name :: rest => command c program name rest p

/-- Runs the words of a command line on a directory, with the name that the program
was started under. The configuration is loaded before the command is looked at. -/
def run (words : List String) (d : Directory) (program : String := programName) : Ending :=
  let p := Progress.start d
  match takeOption "--config" words with
  | none => p.fail (.optionValue "--config")
  | some taken =>
    orFail p (loadConfig d taken.value) fun c =>
      runWith c program taken.rest (p.log (configEvents taken.value))

/-- What comes to the error output: an event of the log, or the report of a complaint.
What a logger puts in front of an event, the time and the place, is left out. -/
inductive Notice where
  | record (event : Event)
  | report (text : String)
deriving DecidableEq

def Notice.text : Notice → String
  | .record event => event.line ++ "\n"
  | .report text => text

/-- What a log shows of some events. -/
def shown (level : Level) (events : List Event) : List Notice :=
  (events.filter (Event.isShown level)).map .record

namespace Ending

def exitCode (e : Ending) : Nat := if e.complaint.isSome then 1 else 0

/-- The error output, with the log shown up to a level. -/
def errorOutput (e : Ending) (level : Level) : List Notice :=
  shown level e.progress.events ++ e.complaint.toList.map fun c => .report c.report

/-- The error output as a text; nothing of the log if no level is given. -/
def errorText (e : Ending) (level : Level := none) : String :=
  String.join ((e.errorOutput level).map Notice.text)

end Ending
end InputGuard.CommandLine
