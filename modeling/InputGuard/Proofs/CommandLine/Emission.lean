import InputGuard.Proofs.CommandLine.Apply
import InputGuard.Proofs.CommandLine.Directory
import InputGuard.Proofs.Run.Augmented

/-! # What the command `apply` puts out

The command puts out the templates that its run changed and no others: one for each
mutation that the report lists as augmented, as it is in the final store
(`apply_emits_changed`). Files have different names for different mutations
(`Operation.fileName_inj`), so none is written over another. -/

namespace InputGuard

open Resolver (Operation Report Store)
open Schema (Document)

/-! ## Names of files -/

theorem Resolver.Operation.name_inj {o o' : Operation} (h : o.name = o'.name) : o = o' := by
  cases o <;> cases o' <;> simp_all [name]

theorem Resolver.Operation.length_name (o : Operation) : o.name.toList.length = 6 := by
  cases o <;> simp [name]

theorem Resolver.Operation.fileName_inj {o o' : Operation} {t t' : String}
    (h : o.fileName t = o'.fileName t') : o = o' ∧ t = t' := by
  unfold fileName fieldName at h
  rw [String.append_left_inj, String.append_right_inj] at h
  have hchars := congrArg String.toList h
  rw [String.toList_append, String.toList_append] at hchars
  obtain ⟨hname, htype⟩ := List.append_inj hchars (by rw [length_name, length_name])
  exact ⟨name_inj (String.toList_inj.mp hname), String.toList_inj.mp htype⟩

namespace CommandLine

theorem fileName_eq (o : Operation) (t : String) :
    o.fileName t = "Mutation." ++ o.name ++ t ++ ".req.vtl" := by
  simp [Operation.fileName, Operation.fieldName, String.append_assoc]

theorem Path.plain_fileName {o : Operation} {t : String} (h : '/' ∉ t.toList) :
    Path.Plain (o.fileName t) := by
  have hopening : (o.fileName t).toList =
      "Mutation.".toList ++ (o.name.toList ++ t.toList) ++ ".req.vtl".toList := by
    simp [Operation.fileName, Operation.fieldName]
  have hlong : 9 ≤ (o.fileName t).toList.length := by
    rw [hopening]
    simp
  have hne (name : String) (hshort : name.toList.length < 9) : o.fileName t ≠ name := by
    intro hname
    rw [hname] at hlong
    omega
  constructor
  case slash =>
    rw [hopening]
    cases o <;> simp [Operation.name, h]
  case nonempty => exact hne "" (by decide)
  case dot => exact hne "." (by decide)
  case dots => exact hne ".." (by decide)

/-! ## Emissions and mutations -/

/-- The create and the update mutation of each type, in the order of the document. -/
def mutations (d : Document) : List (Operation × String) :=
  d.types.flatMap fun t => Operation.all.map (·, t.name)

/-- The mutations whose resolvers a report lists as augmented. -/
def augmentedMutations (c : Config) (d : Document) (report : Report) : List (Operation × String) :=
  (mutations d).filter fun m => m.1.id c m.2 ∈ report.augmented

/-- An emission shows the template of a mutation as it is in a store. -/
structure Shows (c : Config) (store : Store) (m : Operation × String) (e : Emission) : Prop where
  id : e.id = m.1.id c m.2
  file : e.file = "Mutation." ++ m.1.name ++ m.2 ++ ".req.vtl"
  template : (store.get? e.id).map (·.request) = some e.template

variable {c : Config} {d : Document} {report : Report} {store : Store}

theorem emissions_eq (c : Config) (d : Document) (report : Report) (store : Store) :
    emissions c d report store =
      (mutations d).filterMap fun m => emission? c report store m.2 m.1 := by
  simp [emissions, mutations, List.filterMap_flatMap, List.filterMap_map]

theorem exists_emission {m : Operation × String}
    (h : ∀ id ∈ report.augmented, store.contains id = true) (hm : m.1.id c m.2 ∈ report.augmented) :
    ∃ e, emission? c report store m.2 m.1 = some e ∧ Shows c store m e := by
  obtain ⟨r, hr⟩ := Option.isSome_iff_exists.mp (h _ hm)
  refine ⟨⟨m.1.id c m.2, m.1.fileName m.2, r.request⟩, ?_, ?_⟩
  · simp [emission?, hm, hr]
  · constructor
    case id => rfl
    case file => exact fileName_eq m.1 m.2
    case template =>
      rw [hr]
      rfl

/-- The emissions follow the augmented mutations one by one. -/
theorem forall₂_emissions (h : ∀ id ∈ report.augmented, store.contains id = true) :
    List.Forall₂ (Shows c store) (augmentedMutations c d report) (emissions c d report store) := by
  let f : Operation × String → Option Emission := fun m => emission? c report store m.2 m.1
  rw [emissions_eq, augmentedMutations]
  induction mutations d with
  | nil => exact .nil
  | cons m ms ih =>
    by_cases hm : m.1.id c m.2 ∈ report.augmented
    · obtain ⟨e, he, hshows⟩ := exists_emission h hm
      rw [List.filter_cons_of_pos (by simpa using hm), List.filterMap_cons_some (f := f) he]
      exact .cons hshows ih
    · have hnone : emission? c report store m.2 m.1 = none := by simp [emission?, hm]
      rw [List.filter_cons_of_neg (by simpa using hm), List.filterMap_cons_none (f := f) hnone]
      exact ih

theorem mem_mutations {m : Operation × String} : m ∈ mutations d ↔ ∃ t ∈ d.types, m.2 = t.name := by
  simp only [mutations, List.mem_flatMap, List.mem_map]
  constructor
  · rintro ⟨t, ht, o, -, rfl⟩
    exact ⟨t, ht, rfl⟩
  · rintro ⟨t, ht, hm⟩
    have ho : m.1 ∈ Operation.all := by cases m.1 <;> decide
    exact ⟨t, ht, m.1, ho, by rw [← hm]⟩

theorem shows_of_mem {e : Emission} (h : e ∈ emissions c d report store) :
    ∃ m ∈ mutations d, m.1.id c m.2 ∈ report.augmented ∧ Shows c store m e := by
  rw [emissions_eq] at h
  obtain ⟨m, hm, he⟩ := List.mem_filterMap.mp h
  simp only [emission?] at he
  split at he
  · next haugmented =>
    obtain ⟨r, hr, rfl⟩ := Option.map_eq_some_iff.mp he
    refine ⟨m, hm, by simpa using haugmented, rfl, fileName_eq m.1 m.2, ?_⟩
    rw [hr]
    rfl
  · cases he

theorem Shows.template_eq {m m' : Operation × String} {e e' : Emission} (h : Shows c store m e)
    (h' : Shows c store m' e') (hfile : e.file = e'.file) : e.template = e'.template := by
  have hname : m.1.fileName m.2 = m'.1.fileName m'.2 := by
    rw [fileName_eq, fileName_eq, ← h.file, ← h'.file, hfile]
  obtain ⟨ho, ht⟩ := Operation.fileName_inj hname
  have hid : e.id = e'.id := by rw [h.id, h'.id, ho, ht]
  have htemplate := h.template
  rw [hid, h'.template] at htemplate
  exact (Option.some.inj htemplate).symm

/-! ## The files that are written -/

/-- The files that are written into a folder, and the rest of the directory. -/
structure FilesWritten (before after : Directory) (folder : String) (es : List Emission) :
    Prop where
  /-- each file holds its template -/
  holds : ∀ e ∈ es, after.read (Path.join folder e.file) = .ok e.template
  /-- files of different names are different files -/
  apart : ∀ e ∈ es, ∀ e' ∈ es,
    after.locate (Path.join folder e.file) = after.locate (Path.join folder e'.file) →
      e.file = e'.file
  /-- every other file is as it was -/
  others : ∀ p, (∀ e ∈ es, after.locate (Path.join folder e.file) ≠ .ok p) →
    after.file? p = before.file? p
  /-- there is no other folder than after the given one was made -/
  folders : after.folders = (before.makeFolder folder).directory.folders

namespace Writes

variable {folder : String} {d after : Directory} {es : List Emission}

theorem sameFolders (h : Writes folder d es after) : d.SameFolders after := by
  induction h with
  | nil => exact fun _ => rfl
  | cons first _ ih =>
    obtain ⟨p, hp, rfl⟩ := Directory.write_eq_ok first
    exact fun q => (ih q).trans (Directory.sameFolders_setFile (Directory.reached_of_locate hp) _ q)

theorem folders_eq (h : Writes folder d es after) : after.folders = d.folders := by
  induction h with
  | nil => rfl
  | cons first _ ih =>
    obtain ⟨p, -, rfl⟩ := Directory.write_eq_ok first
    exact ih

/-- The first file still stands where it was written. -/
theorem locate_first {next : Directory} {e : Emission}
    (first : d.write (Path.join folder e.file) e.template = .ok next)
    (rest : Writes folder next es after) :
    ∃ p, after.locate (Path.join folder e.file) = .ok p ∧ next = d.setFile p e.template := by
  have hall : d.SameFolders after := (Writes.cons first rest).sameFolders
  obtain ⟨p, hp, hnext⟩ := Directory.write_eq_ok first
  exact ⟨p, hall.locate hp, hnext⟩

theorem exists_locate (h : Writes folder d es after) :
    ∀ e ∈ es, ∃ p, after.locate (Path.join folder e.file) = .ok p := by
  induction h with
  | nil => simp
  | cons first rest ih =>
    obtain ⟨p, hp, -⟩ := locate_first first rest
    exact List.forall_mem_cons.mpr ⟨⟨p, hp⟩, ih⟩

theorem file?_others (h : Writes folder d es after) {p : Path}
    (hp : ∀ e ∈ es, after.locate (Path.join folder e.file) ≠ .ok p) :
    after.file? p = d.file? p := by
  induction h with
  | nil => rfl
  | cons first rest ih =>
    obtain ⟨q, hq, rfl⟩ := locate_first first rest
    obtain ⟨hfirst, hrest⟩ := List.forall_mem_cons.mp hp
    have hne : p ≠ q := fun heq => hfirst (heq ▸ hq)
    rw [ih hrest, Directory.file?_setFile, if_neg hne]

/-- A file that is written more than once, always with the same text, holds that text. -/
theorem file?_holds (h : Writes folder d es after)
    (hsame : ∀ e ∈ es, ∀ e' ∈ es,
      after.locate (Path.join folder e.file) = after.locate (Path.join folder e'.file) →
        e.template = e'.template) :
    ∀ e ∈ es, ∀ p, after.locate (Path.join folder e.file) = .ok p →
      after.file? p = some (.text e.template) := by
  induction h with
  | nil => simp
  | @cons d next after e es first rest ih =>
    have hrest := ih fun a ha b hb =>
      hsame a (List.mem_cons_of_mem e ha) b (List.mem_cons_of_mem e hb)
    refine List.forall_mem_cons.mpr ⟨fun p hp => ?_, hrest⟩
    -- what the place holds in the end was written by the last file that goes there
    by_cases hagain : ∃ e' ∈ es, after.locate (Path.join folder e'.file) = .ok p
    · obtain ⟨e', he', hp'⟩ := hagain
      have htemplate := hsame e List.mem_cons_self e' (List.mem_cons_of_mem e he')
        (hp.trans hp'.symm)
      rw [hrest e' he' p hp', htemplate]
    · obtain ⟨q, hq, rfl⟩ := locate_first first rest
      cases hq.symm.trans hp
      rw [rest.file?_others fun e' he' hp' => hagain ⟨e', he', hp'⟩, Directory.file?_setFile,
        if_pos rfl]

theorem filesWritten {before : Directory}
    (h : Writes folder (before.makeFolder folder).directory es after)
    (hplain : ∀ e ∈ es, Path.Plain e.file)
    (hsame : ∀ e ∈ es, ∀ e' ∈ es, e.file = e'.file → e.template = e'.template) :
    FilesWritten before after folder es := by
  have hapart : ∀ e ∈ es, ∀ e' ∈ es,
      after.locate (Path.join folder e.file) = after.locate (Path.join folder e'.file) →
        e.file = e'.file := by
    intro e he e' he' heq
    obtain ⟨p, hp⟩ := h.exists_locate e he
    have hlast := Directory.getLast?_of_locate_join (hplain e he) hp
    have hlast' := Directory.getLast?_of_locate_join (hplain e' he') (heq.symm.trans hp)
    exact Option.some.inj (hlast.symm.trans hlast')
  constructor
  case holds =>
    intro e he
    obtain ⟨p, hp⟩ := h.exists_locate e he
    have hfile := h.file?_holds (fun a ha b hb hab => hsame a ha b hb (hapart a ha b hb hab)) e he
      p hp
    simp only [Directory.read, hp, hfile]
  case apart => exact hapart
  case others =>
    intro p hp
    rw [h.file?_others hp, Directory.file?, Directory.files_makeFolder, Directory.file?]
  case folders => exact h.folders_eq

end Writes

/-! ## The whole command -/

variable {program : String} {words : List String} {d : Directory}

theorem Prepared.contains_of_augmented (p : Prepared words d) :
    ∀ id ∈ p.report.augmented, p.final.contains id = true := by
  intro id hid
  obtain ⟨hstore, -⟩ := (Run.mem_augmented p.compiles).mp hid
  have hkeys : p.final.keys = p.store.keys := by
    rw [Prepared.final, (Run.document_of_ok p.compiles).1, Resolver.Edit.keys_applyAll]
  rw [Resolver.Edit.contains_congr hkeys, hstore]

/-- What the command puts out, and where. -/
structure EmitsChanged (p : Prepared words d) (e : Ending) : Prop where
  succeeds : e.exitCode = 0
  /-- the templates are those of the augmented mutations as they are in the end, types in
  the order of the document, create before update -/
  emitted : List.Forall₂ (Shows p.config p.final)
    (augmentedMutations p.config p.document p.report) p.emitted
  /-- each has its entry in the output, where it is named if it goes to a file and shown
  if not, and the summary follows -/
  printed : e.progress.printed =
    String.join (p.emitted.map fun shown =>
      match p.out with
      | none => "==> " ++ shown.file ++ " (" ++ shown.id ++ ")\n" ++ shown.template ++ "\n\n"
      | some folder => "📝 " ++ shown.id ++ " -> " ++ Path.join folder shown.file ++ "\n") ++
    ("✅ " ++ toString p.report.augmented.length ++ " template(s) augmented, " ++
      toString p.report.skipped.length ++ " missing resolver(s) skipped\n")
  /-- the error output is what is shown of the log -/
  logged : ∀ level, e.errorText level =
    String.join ((p.logged.filter (Event.isShown level)).map (·.line ++ "\n"))
  /-- without a folder, the directory stays as it is -/
  unwritten : p.out = none → e.progress.directory = d
  /-- otherwise the files that are written hold the templates -/
  written : ∀ folder, p.out = some folder → FilesWritten d e.progress.directory folder p.emitted
  /-- mutations that share the name of a file are one mutation -/
  names : ∀ (o o' : Operation) (t t' : String), o.fileName t = o'.fileName t' → o = o' ∧ t = t'
  /-- a template is put out exactly if it differs from the one that was loaded -/
  changed : ∀ id, (∃ e ∈ p.emitted, e.id = id) ↔
    (p.final.get? id).map (·.request) ≠ (p.store.get? id).map (·.request)

theorem Prepared.filesWritten (p : Prepared words d)
    (names : ∀ t ∈ p.document.types, '/' ∉ t.name.toList) {folder : String} {after : Directory}
    (h : Writes folder (d.makeFolder folder).directory p.emitted after) :
    FilesWritten d after folder p.emitted := by
  refine h.filesWritten ?_ ?_
  · intro e he
    obtain ⟨m, hm, -, hshows⟩ := shows_of_mem he
    obtain ⟨t, ht, hname⟩ := mem_mutations.mp hm
    rw [hshows.file, ← fileName_eq, hname]
    exact Path.plain_fileName (names t ht)
  · intro e he e' he' hfile
    obtain ⟨m, -, -, hshows⟩ := shows_of_mem he
    obtain ⟨m', -, -, hshows'⟩ := shows_of_mem he'
    exact hshows.template_eq hshows' hfile

/-- An id is emitted exactly if it is augmented. -/
theorem Prepared.mem_emitted (p : Prepared words d) (id : String) :
    (∃ e ∈ p.emitted, e.id = id) ↔ id ∈ p.report.augmented := by
  constructor
  · rintro ⟨e, he, rfl⟩
    obtain ⟨m, -, haugmented, hshows⟩ := shows_of_mem he
    rwa [hshows.id]
  · intro hid
    obtain ⟨t, ht, o, rfl⟩ := Run.exists_mutation p.compiles hid
    obtain ⟨e, he, hshows⟩ := exists_emission p.contains_of_augmented (m := (o, t.name)) hid
    refine ⟨e, ?_, hshows.id⟩
    rw [Prepared.emitted, emissions_eq]
    exact List.mem_filterMap.mpr ⟨(o, t.name), mem_mutations.mpr ⟨t, ht, rfl⟩, he⟩

theorem apply_emits_changed (p : Prepared words d)
    (names : ∀ t ∈ p.document.types, '/' ∉ t.name.toList) (output : p.OutputSucceeds) :
    EmitsChanged p (run words d program) := by
  have hcases := p.output_cases output program
  constructor
  case succeeds =>
    rw [Ending.exitCode, p.complaint_eq_none output]
    rfl
  case emitted => exact forall₂_emissions p.contains_of_augmented
  case printed =>
    rcases hcases with ⟨hout, hrun⟩ | ⟨folder, after, hout, -, hrun⟩
    · rw [hrun, hout]
      rfl
    · rw [hrun, hout]
      rfl
  case logged =>
    intro level
    rcases hcases with ⟨-, hrun⟩ | ⟨folder, after, -, -, hrun⟩
    · rw [hrun, errorText_done]
    · rw [hrun, errorText_done]
  case unwritten =>
    intro hout
    rcases hcases with ⟨-, hrun⟩ | ⟨folder, after, hfolder, -, -⟩
    · rw [hrun]
      rfl
    · cases hout.symm.trans hfolder
  case written =>
    intro folder hout
    rcases hcases with ⟨hnone, -⟩ | ⟨folder', after, hfolder, hwrites, hrun⟩
    · cases hout.symm.trans hnone
    · cases hout.symm.trans hfolder
      rw [hrun]
      exact p.filesWritten names hwrites
  case names => exact fun _ _ _ _ => Operation.fileName_inj
  case changed =>
    intro id
    rw [p.mem_emitted, Run.mem_augmented_iff p.compiles]
    rfl

theorem readSchema_trimmedTitle :
    readSchema (project Run.trimmedTitle) "schema.json" = .ok Run.trimmedTitle := by
  refine readSchema_project ?_ (by decide)
  simpa [Run.trimmedTitle, Document.WellFormed] using wellFormed_string

/-- The title of a post is trimmed and checked, and there is no update mutation. -/
def preparedTitle : Prepared applyInto (project Run.trimmedTitle) where
  toRequest := requestInto _
  document := Run.trimmedTitle
  store := Run.createPost
  report := ⟨["CreatePostResolver", "CreatePostResolver"],
    ["UpdatePostResolver", "UpdatePostResolver"]⟩
  schemaReads := readSchema_trimmedTitle
  resolversRead := readResolvers_project _
  compiles := Run.result_trimmedTitle

theorem outputSucceeds_preparedTitle : preparedTitle.OutputSucceeds := by
  rintro folder hout
  cases hout
  have hmutations : augmentedMutations {} Run.trimmedTitle preparedTitle.report =
      [(.create, "Post")] := by decide +kernel
  have hshows : List.Forall₂ (Shows {} preparedTitle.final) [(.create, "Post")]
      preparedTitle.emitted := by
    rw [← hmutations]
    exact forall₂_emissions preparedTitle.contains_of_augmented
  generalize preparedTitle.emitted = es at hshows ⊢
  obtain ⟨e, rest, he, hrest, rfl⟩ := List.forall₂_cons_left_iff.mp hshows
  obtain rfl := List.forall₂_nil_left_iff.mp hrest
  obtain ⟨id, file, template⟩ := e
  obtain rfl : file = "Mutation.createPost.req.vtl" := he.file
  have hwrite : ((project Run.trimmedTitle).makeFolder "out").directory.write
      "out/Mutation.createPost.req.vtl" template =
        .ok (((project Run.trimmedTitle).makeFolder "out").directory.setFile
          ["out", "Mutation.createPost.req.vtl"] template) := rfl
  exact ⟨rfl, _, .cons hwrite .nil⟩

theorem apply_emits_changed_preparedTitle :
    (∀ t ∈ preparedTitle.document.types, '/' ∉ t.name.toList) ∧ preparedTitle.OutputSucceeds ∧
      EmitsChanged preparedTitle (run applyInto (project Run.trimmedTitle) programName) := by
  have hnames : ∀ t ∈ preparedTitle.document.types, '/' ∉ t.name.toList := by
    simp [preparedTitle, Run.trimmedTitle]
  exact ⟨hnames, outputSucceeds_preparedTitle,
    apply_emits_changed preparedTitle hnames outputSucceeds_preparedTitle⟩

end CommandLine
end InputGuard
