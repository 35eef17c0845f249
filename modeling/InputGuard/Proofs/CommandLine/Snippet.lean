import InputGuard.Proofs.CommandLine.Configuration
import InputGuard.Proofs.Run.Effect

/-! # The command `snippet`

The words that give a field, its type and some arguments make the command print the
snippet that is generated from the record of these arguments, or report why there is
none (`snippet_agrees`). -/

namespace InputGuard.CommandLine

open Rule (Extracted Fault Record)
open Schema (Argument FieldType)

/-- The arguments that pairs of names and values stand for. -/
def argumentsOf (pairs : List (String × Extracted)) : List Argument :=
  pairs.map fun (name, e) => ⟨name, extractedFrom e⟩

def pairWords (pairs : List (String × Extracted)) : List String :=
  pairs.map fun (name, e) => pairWord name e

/-- Names without an equals sign, and values that a word can give. -/
def WritablePairs (pairs : List (String × Extracted)) : Prop :=
  ∀ p ∈ pairs, '=' ∉ p.1.toList ∧ Writable p.2

variable {pairs : List (String × Extracted)} {c : Config} {d : Directory} {field type : String}
  {program : String}

theorem readWords_pairWords (h : WritablePairs pairs) :
    readWords (pairWords pairs) = ⟨argumentsOf pairs, none⟩ := by
  induction pairs with
  | nil => rfl
  | cons p pairs ih =>
    obtain ⟨⟨hname, hvalue⟩, hpairs⟩ := List.forall_mem_cons.mp h
    have hrest : readWords (pairs.map fun (name, e) => pairWord name e) = _ := ih hpairs
    simp only [pairWords, List.map_cons, readWords, namedValue?_pairWord hname hvalue, hrest]
    rfl

/-- Values that words give are all kept, so at most their names are worth an event. -/
theorem debug_of_mem_extractionEvents :
    ∀ e ∈ Record.extractionEvents (argumentsOf pairs), e.severity = .debug := by
  intro e he
  obtain ⟨a, ha, he⟩ := List.mem_flatMap.mp he
  obtain ⟨⟨name, value⟩, -, rfl⟩ := List.mem_map.mp ha
  have hkept : ∃ kept, Extracted.ofValue? (extractedFrom value) = some kept := by
    cases value <;> exact ⟨_, rfl⟩
  obtain ⟨kept, hkept⟩ := hkept
  simp only [Record.events, hkept] at he
  split at he
  · cases he
  · rw [List.mem_singleton.mp he]
    rfl

theorem debug_of_mem_compileField :
    ∀ e ∈ (Run.compileField c field (.ofName type) (argumentsOf pairs)).events,
      e.severity = .debug := by
  intro e he
  unfold Run.compileField at he
  split at he
  · exact debug_of_mem_extractionEvents e he
  · rcases List.mem_append.mp he with he | he
    · exact debug_of_mem_extractionEvents e he
    · rw [List.mem_singleton.mp he]
      rfl

/-- How a command ends that prints a result, or reports why there is none. -/
structure Reports (result : Except Fault String) (d : Directory) (e : Ending) : Prop where
  succeeds : ∀ text, result = .ok text → e.progress.printed = text ++ "\n" ∧ e.exitCode = 0 ∧
    ∀ level, level ≠ some .debug → e.errorText level = ""
  fails : ∀ fault, result = .error fault → e.progress.printed = "" ∧ e.exitCode = 1 ∧
    ∀ level, level ≠ some .debug →
      e.errorText level = "❌ InvalidDirectiveError: " ++ fault.message ++ "\n"
  directory : e.progress.directory = d

theorem reports_snippet (h : WritablePairs pairs) {p : Progress} (hprinted : p.printed = "")
    (hlogged : ∀ e ∈ p.events, e.severity = .debug) :
    Reports (Snippet.generate c field (.ofName type) (.extract (argumentsOf pairs))) p.directory
      (snippet c field type (pairWords pairs) p) := by
  have hresult := Run.compileField_result (c := c) field (.ofName type) (argumentsOf pairs)
  have hquiet : ∀ e ∈ p.events ++
      (Run.compileField c field (.ofName type) (argumentsOf pairs)).events, e.severity = .debug :=
    List.forall_mem_append.mpr ⟨hlogged, debug_of_mem_compileField⟩
  simp only [snippet, readWords_pairWords h, hresult]
  cases Snippet.generate c field (.ofName type) (.extract (argumentsOf pairs)) with
  | ok text =>
    refine ⟨fun t ht => ?_, nofun, rfl⟩
    cases ht
    refine ⟨?_, rfl, fun level hlevel => ?_⟩
    · change p.printed ++ (text ++ "\n") = _
      rw [hprinted, String.empty_append]
    · exact errorText_done_of_debug hquiet hlevel
  | error fault =>
    refine ⟨nofun, fun f hf => ?_, rfl⟩
    cases hf
    refine ⟨hprinted, rfl, fun level hlevel => ?_⟩
    rw [← Complaint.report_directive]
    exact errorText_fail_of_debug hquiet hlevel _

theorem reports_run {words : List String} {parts : List Part} (writable : WritablePairs pairs)
    (paired : Pairs "--config" words parts)
    (left : unpaired parts = "snippet" :: field :: type :: pairWords pairs)
    (loads : loadConfig d (lastValue? parts) = .ok c) :
    Reports (Snippet.generate c field (.ofName type) (.extract (argumentsOf pairs))) d
      (run words d program) := by
  simp only [run_of_pairs paired, loads, left, orFail]
  have hlogged : ∀ e ∈ ((Progress.start d).log (configEvents (lastValue? parts))).events,
      e.severity = .debug := debug_of_mem_configEvents
  exact reports_snippet writable rfl hlogged

theorem option_notMem_pairWords {option : String} (h : '=' ∉ option.toList) :
    option ∉ pairWords pairs := by
  rw [pairWords, List.mem_map]
  rintro ⟨⟨name, e⟩, -, rfl⟩
  apply h
  cases e <;> simp [pairWord, listWord, textWord]

/-- The command does with its words what the library does with the record of the pairs. -/
structure SnippetAgrees (field type : String) (pairs : List (String × Extracted)) : Prop where
  /-- with the default configuration, if no other one is named -/
  plain : ∀ (d : Directory) (program : String),
    Reports (Snippet.generate {} field (.ofName type) (.extract (argumentsOf pairs))) d
      (run ("snippet" :: field :: type :: pairWords pairs) d program)
  /-- with the configuration that is named last anywhere among the words -/
  configured : ∀ (words : List String) (parts : List Part) (path : String) (c : Config)
    (d : Directory) (program : String), Pairs "--config" words parts →
    unpaired parts = "snippet" :: field :: type :: pairWords pairs →
    lastValue? parts = some path → loadConfig d (some path) = .ok c →
    Reports (Snippet.generate c field (.ofName type) (.extract (argumentsOf pairs))) d
      (run words d program)

theorem snippet_agrees (field_ne : field ≠ "--config") (type_ne : type ≠ "--config")
    (writable : WritablePairs pairs) : SnippetAgrees field type pairs := by
  constructor
  case plain =>
    intro d program
    have hpairs : "--config" ∉ pairWords pairs := option_notMem_pairWords (by decide)
    have hwords : "--config" ∉ "snippet" :: field :: type :: pairWords pairs := by
      simp [field_ne.symm, type_ne.symm, hpairs]
    have hvalue : lastValue? (("snippet" :: field :: type :: pairWords pairs).map .word) = none :=
      lastValue?_words _
    exact reports_run writable (.of_notMem hwords) (unpaired_words _) (by rw [hvalue]; rfl)
  case configured =>
    intro words parts path c d program paired left value loads
    exact reports_run writable paired left (by rwa [value])

/-- A kind that is given twice, an expression with an equals sign and an empty list. -/
def repeatedKind : List (String × Extracted) :=
  [("type", .scalar "in"), ("expression", .scalar "a=[b]"), ("arrayString", .list []),
    ("type", .scalar "regex")]

theorem writable_repeatedKind : WritablePairs repeatedKind := by
  have hscalar {text : String} (h : text.toList.head? ≠ some '[') : Writable (.scalar text) := by
    refine .scalar fun inner heq => h ?_
    simp [heq]
  have hempty : Writable (.list []) := .list nofun nofun nofun
  intro p hp
  simp only [repeatedKind, List.mem_cons, List.not_mem_nil, or_false] at hp
  obtain rfl | rfl | rfl | rfl := hp
  · exact ⟨by decide, hscalar (by decide)⟩
  · exact ⟨by decide, hscalar (by decide)⟩
  · exact ⟨by decide, hempty⟩
  · exact ⟨by decide, hscalar (by decide)⟩

theorem snippet_agrees_repeatedKind :
    "title" ≠ "--config" ∧ "String" ≠ "--config" ∧ WritablePairs repeatedKind ∧
      SnippetAgrees "title" "String" repeatedKind :=
  ⟨by decide, by decide, writable_repeatedKind,
    snippet_agrees (by decide) (by decide) writable_repeatedKind⟩

end InputGuard.CommandLine
