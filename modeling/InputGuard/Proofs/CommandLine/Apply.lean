import InputGuard.Proofs.CommandLine.Configuration
import InputGuard.Proofs.Json.OrderedMap
import InputGuard.Proofs.Run.ClosedForm
import InputGuard.Proofs.Schema.Codec

/-! # The two ends of the command `apply`

A command line for `apply` is refused, or its templates are prepared
(`refused_or_prepared`). Everything it is refused for comes up before the first
output, so what is refused changes nothing (`run_of_refused`). What is prepared is
put out, and fails only if the output does (`Prepared.complaint_eq_none`). -/

namespace InputGuard.CommandLine

open Resolver (Report Store)
open Rule (Fault)
open Schema (Document)

/-! ## Refusals -/

/-- A command line for `apply` whose words are in order, with what they mean. -/
structure Request (words : List String) (d : Directory) where
  configPath : Option String
  config : Config
  afterCommand : List String
  out : Option String
  schema : String
  resolvers : String
  unused : List String
  configOption : takeOption "--config" words = some ⟨configPath, "apply" :: afterCommand⟩
  configLoads : loadConfig d configPath = .ok config
  outOption : takeOption "--out" afterCommand = some ⟨out, schema :: resolvers :: unused⟩

/-- A request whose files are read and whose directives all compile. -/
structure Prepared (words : List String) (d : Directory) extends Request words d where
  document : Document
  store : Store
  report : Report
  schemaReads : readSchema d schema = .ok document
  resolversRead : readResolvers d resolvers = .ok store
  compiles : (Run.document config document store).result = .ok report

/-- A request whose files are read and one of whose directives does not compile. -/
structure Invalid (words : List String) (d : Directory) extends Request words d where
  document : Document
  store : Store
  fault : Fault
  schemaReads : readSchema d schema = .ok document
  resolversRead : readResolvers d resolvers = .ok store
  fails : (Run.document config document store).result = .error fault

/-- What is logged of a request up to the end of its run. -/
def Request.events {words : List String} {d : Directory} (r : Request words d)
    (document : Document) (store : Store) : List Event :=
  configEvents r.configPath ++
    .loadedResolvers store.size r.resolvers :: (Run.document r.config document store).events

/-- Why a command line for `apply` is refused, the first cause in the order of the
checks, with the report of it and what was logged before. Where a text is malformed,
the report ends with the colon behind which the wording of its reader begins. -/
inductive Refused (program : String) (words : List String) (d : Directory) :
    String → List Event → Prop where
  | configValue (missing : takeOption "--config" words = none) :
      Refused program words d "❌ --config requires a value\n" []
  | configFile {path : String} {rest : List String} {error : FileError}
      (option : takeOption "--config" words = some ⟨some path, rest⟩)
      (unreadable : d.read path = .error error) :
      Refused program words d ("❌ loading config " ++ path ++ ": Failed to read config file " ++
        path ++ ": " ++ error.message ++ "\n") []
  | configText {path text : String} {rest : List String}
      (option : takeOption "--config" words = some ⟨some path, rest⟩)
      (reads : d.read path = .ok text) (malformed : Config.ofToml text = .error .malformed) :
      Refused program words d ("❌ loading config " ++ path ++ ": Failed to parse config: ") []
  | configKey {path text key reason : String} {rest : List String}
      (option : takeOption "--config" words = some ⟨some path, rest⟩)
      (reads : d.read path = .ok text)
      (invalid : Config.ofToml text = .error (.invalid key reason)) :
      Refused program words d ("❌ loading config " ++ path ++ ": Invalid value for '" ++ key ++
        "': " ++ reason ++ "\n") []
  | outValue {path : Option String} {c : Config} {rest : List String}
      (option : takeOption "--config" words = some ⟨path, "apply" :: rest⟩)
      (loads : loadConfig d path = .ok c) (missing : takeOption "--out" rest = none) :
      Refused program words d "❌ --out requires a value\n" (configEvents path)
  | words {path : Option String} {c : Config} {rest : List String} {taken : Taken}
      (option : takeOption "--config" words = some ⟨path, "apply" :: rest⟩)
      (loads : loadConfig d path = .ok c) (outOption : takeOption "--out" rest = some taken)
      (few : taken.rest.length < 2) :
      Refused program words d ("❌ Usage: " ++ program ++
        " apply <schema.json> <resolvers.json> [--out <dir>]\n") (configEvents path)
  | schemaFile (r : Request words d) {error : FileError}
      (unreadable : d.read r.schema = .error error) :
      Refused program words d ("❌ reading schema " ++ r.schema ++ ": " ++ error.message ++ "\n")
        (configEvents r.configPath)
  | schemaText (r : Request words d) {text : String} (reads : d.read r.schema = .ok text)
      (malformed : Document.ofText? text = none) :
      Refused program words d ("❌ parsing schema " ++ r.schema ++ ": ") (configEvents r.configPath)
  | resolversFile (r : Request words d) {document : Document} {error : FileError}
      (schemaReads : readSchema d r.schema = .ok document)
      (unreadable : d.read r.resolvers = .error error) :
      Refused program words d ("❌ loading resolvers " ++ r.resolvers ++ ": I/O error: " ++
        error.message ++ ": " ++ error.message ++ "\n") (configEvents r.configPath)
  | resolversText (r : Request words d) {document : Document} {text : String}
      (schemaReads : readSchema d r.schema = .ok document) (reads : d.read r.resolvers = .ok text)
      (malformed : Store.ofText? text = none) :
      Refused program words d ("❌ loading resolvers " ++ r.resolvers ++ ": Serialization error: ")
        (configEvents r.configPath)
  | directive (r : Invalid words d) :
      Refused program words d ("❌ InvalidDirectiveError: " ++ r.fault.message ++ "\n")
        (r.events r.document r.store)

variable {program : String} {words : List String} {d : Directory}

theorem run_of_loads {path : Option String} {c : Config} {rest : List String}
    (option : takeOption "--config" words = some ⟨path, "apply" :: rest⟩)
    (loads : loadConfig d path = .ok c) :
    run words d program = apply c program rest ((Progress.start d).log (configEvents path)) := by
  simp [run, runWith, option, loads, orFail, command]

theorem run_of_unusable {taken : Taken} {complaint : Complaint}
    (option : takeOption "--config" words = some taken)
    (unusable : loadConfig d taken.value = .error complaint) :
    run words d program = (Progress.start d).fail complaint := by
  simp only [run, option, unusable, orFail]

theorem run_of_outValue {path : Option String} {c : Config} {rest : List String}
    (option : takeOption "--config" words = some ⟨path, "apply" :: rest⟩)
    (loads : loadConfig d path = .ok c) (missing : takeOption "--out" rest = none) :
    run words d program =
      ((Progress.start d).log (configEvents path)).fail (.optionValue "--out") := by
  rw [run_of_loads option loads, apply, missing]

theorem readSchema_of_text {path text : String} {document : Document}
    (hread : d.read path = .ok text) (htext : Document.ofText? text = some document) :
    readSchema d path = .ok document := by
  simp only [readSchema, hread, htext]

theorem readResolvers_of_text {path text : String} {store : Store}
    (hread : d.read path = .ok text) (htext : Store.ofText? text = some store) :
    readResolvers d path = .ok store := by
  simp only [readResolvers, hread, htext]

namespace Request

variable (r : Request words d)

theorem eq (r' : Request words d) : r = r' := by
  obtain ⟨path, c, rest, out, schema, resolvers, unused, hconfig, hloads, hout⟩ := r
  obtain ⟨path', c', rest', out', schema', resolvers', unused', hconfig', hloads', hout'⟩ := r'
  cases hconfig.symm.trans hconfig'
  cases hloads.symm.trans hloads'
  cases hout.symm.trans hout'
  rfl

/-- The command begins with the loaded configuration. -/
def started : Progress := (Progress.start d).log (configEvents r.configPath)

theorem run_eq :
    run words d program = augment r.config r.out r.schema r.resolvers r.started := by
  rw [run_of_loads r.configOption r.configLoads, apply, r.outOption]
  rfl

theorem run_of_files {document : Document} {store : Store}
    (hschema : readSchema d r.schema = .ok document)
    (hresolvers : readResolvers d r.resolvers = .ok store) :
    run words d program =
      orFail ⟨"", d, r.events document store⟩
        ((Run.document r.config document store).result.mapError .directive) fun report =>
          applyTo r.out
            (emissions r.config document report (Run.document r.config document store).store)
            report ⟨"", d, r.events document store⟩ := by
  have hdirectory : r.started.directory = d := rfl
  simp only [r.run_eq, augment, hdirectory, hschema, hresolvers, orFail]
  rfl

end Request

theorem Invalid.run_eq (r : Invalid words d) :
    run words d program =
      (⟨"", d, r.events r.document r.store⟩ : Progress).fail (.directive r.fault) := by
  rw [r.run_of_files r.schemaReads r.resolversRead, r.fails]
  rfl

namespace Prepared

variable (p : Prepared words d)

/-- The store after all directives. -/
def final : Store := (Run.document p.config p.document p.store).store

/-- The templates that the command puts out. -/
def emitted : List Emission := emissions p.config p.document p.report p.final

/-- What the command logs. -/
def logged : List Event := p.events p.document p.store

theorem run_eq :
    run words d program = applyTo p.out p.emitted p.report ⟨"", d, p.logged⟩ := by
  rw [p.run_of_files p.schemaReads p.resolversRead, p.compiles]
  rfl

end Prepared

/-! ## Reading what the words name -/

/-- Files are written into a folder, one after the other. -/
inductive Writes (folder : String) : Directory → List Emission → Directory → Prop where
  | nil {d : Directory} : Writes folder d [] d
  | cons {d next after : Directory} {e : Emission} {es : List Emission}
      (first : d.write (Path.join folder e.file) e.template = .ok next)
      (rest : Writes folder next es after) : Writes folder d (e :: es) after

/-- Making the folder succeeds, and so does writing each file into it. -/
def Directory.Takes (d : Directory) (folder : String) (es : List Emission) : Prop :=
  (d.makeFolder folder).error = none ∧
    ∃ after, Writes folder (d.makeFolder folder).directory es after

/-- The line about a file that was written. -/
def writtenLine (folder : String) (e : Emission) : String :=
  "📝 " ++ e.id ++ " -> " ++ Path.join folder e.file ++ "\n"

theorem writeEmissions_of_writes {folder : String} {es : List Emission} {after : Directory}
    (h : Writes folder d es after) (printed : String) (events : List Event) :
    writeEmissions folder es ⟨printed, d, events⟩ =
      (Progress.mk (printed ++ String.join (es.map (writtenLine folder))) after events).done := by
  induction h generalizing printed with
  | nil => simp [writeEmissions]
  | @cons d next after e es first _ ih =>
    rw [writeEmissions]
    simp only [first, Progress.print, ih]
    simp [writtenLine, String.append_assoc]

theorem writes_of_writeEmissions {folder : String} {es : List Emission} {p : Progress}
    (h : (writeEmissions folder es p).complaint = none) :
    ∃ after, Writes folder p.directory es after := by
  induction es generalizing p with
  | nil => exact ⟨p.directory, .nil⟩
  | cons e es ih =>
    rw [writeEmissions] at h
    cases first : p.directory.write (Path.join folder e.file) e.template with
    | error error =>
      simp only [first] at h
      cases h
    | ok next =>
      simp only [first] at h
      obtain ⟨after, rest⟩ := ih h
      exact ⟨after, .cons first rest⟩

theorem applyTo_none (d : Directory) (es : List Emission) (report : Report)
    (events : List Event) :
    applyTo none es report ⟨"", d, events⟩ =
      (Progress.mk (String.join (es.map printEmission) ++ summary report) d events).done := by
  rw [applyTo, Progress.print, String.empty_append]

theorem applyTo_some {folder : String} {es : List Emission} {after : Directory}
    (made : (d.makeFolder folder).error = none)
    (h : Writes folder (d.makeFolder folder).directory es after) (report : Report)
    (events : List Event) :
    applyTo (some folder) es report ⟨"", d, events⟩ =
      (Progress.mk (String.join (es.map (writtenLine folder)) ++ summary report) after
        events).done := by
  simp only [applyTo, made, writeEmissions_of_writes h]
  simp [finishApply, Progress.done, Progress.print]

/-- The folder and the files that the words ask for, if any, can be made and written. -/
def Prepared.OutputSucceeds (p : Prepared words d) : Prop :=
  ∀ folder, p.out = some folder → d.Takes folder p.emitted

/-- The two forms of output, and where they leave the directory. -/
theorem Prepared.output_cases (p : Prepared words d) (output : p.OutputSucceeds)
    (program : String) :
    (p.out = none ∧ run words d program = (Progress.mk
      (String.join (p.emitted.map printEmission) ++ summary p.report) d p.logged).done) ∨
    ∃ folder after, p.out = some folder ∧
      Writes folder (d.makeFolder folder).directory p.emitted after ∧
      run words d program = (Progress.mk
        (String.join (p.emitted.map (writtenLine folder)) ++ summary p.report) after
          p.logged).done := by
  cases hout : p.out with
  | none => exact .inl ⟨rfl, by rw [p.run_eq, hout, applyTo_none]⟩
  | some folder =>
    obtain ⟨made, after, hwrites⟩ := output folder hout
    exact .inr ⟨folder, after, rfl, hwrites, by rw [p.run_eq, hout, applyTo_some made hwrites]⟩

theorem Prepared.complaint_eq_none (p : Prepared words d) (h : p.OutputSucceeds) :
    (run words d program).complaint = none := by
  rcases p.output_cases h program with ⟨-, hrun⟩ | ⟨folder, after, -, -, hrun⟩
  · rw [hrun, Progress.done]
  · rw [hrun, Progress.done]

/-- Without a complaint the folder and the files were made and written. -/
theorem Prepared.outputSucceeds (p : Prepared words d)
    (h : (run words d program).complaint = none) :
    p.OutputSucceeds := by
  intro folder hout
  rw [p.run_eq, hout] at h
  simp only [applyTo] at h
  cases made : (d.makeFolder folder).error with
  | some error =>
    simp only [made] at h
    cases h
  | none =>
    simp only [made, finishApply] at h
    split at h
    · next hwritten =>
      obtain ⟨after, hwrites⟩ := writes_of_writeEmissions hwritten
      exact ⟨made, after, hwrites⟩
    · next hfailed => cases hfailed.symm.trans h

/-- The resolver of one create mutation. -/
def createPostListing : List (String × Resolver.Resource × Bool) :=
  [("CreatePostResolver", ⟨"Mutation", "createPost", "{}", "{}"⟩, false)]

/-- A directory with a schema and that resolver. -/
def project (document : Document) : Directory :=
  ⟨[(["schema.json"], document.text),
    (["resolvers.json"], (Store.listing createPostListing).compact)], []⟩

theorem readSchema_project {document : Document} (h : document.WellFormed)
    (hdepth : document.toJson.depth ≤ Json.nesting) :
    readSchema (project document) "schema.json" = .ok document := by
  have hread : (project document).read "schema.json" = .ok document.text := rfl
  exact readSchema_of_text hread (Document.ofText?_write Json.Layout.blank_pretty h hdepth)

theorem readResolvers_project (document : Document) :
    readResolvers (project document) "resolvers.json" = .ok Run.createPost := by
  have hread : (project document).read "resolvers.json" =
      .ok (Store.listing createPostListing).compact := rfl
  exact readResolvers_of_text hread
    (Store.readBack_listing Json.Layout.blank_compact createPostListing)

def applyInto : List String := ["apply", "schema.json", "resolvers.json", "--out", "out"]

/-- The request that these words make. -/
def requestInto (d : Directory) : Request applyInto d :=
  ⟨none, {}, ["schema.json", "resolvers.json", "--out", "out"], some "out", "schema.json",
    "resolvers.json", [], rfl, rfl, rfl⟩

theorem wellFormed_string : (Schema.TypeRef.named "String").WellFormed := by
  rw [Schema.TypeRef.WellFormed]
  decide

end InputGuard.CommandLine
