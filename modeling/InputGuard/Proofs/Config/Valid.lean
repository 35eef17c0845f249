import InputGuard.Config.Error
import InputGuard.Proofs.Config.Check
import InputGuard.Proofs.Text.Parts
import InputGuard.Proofs.Text.Split
import InputGuard.Snippet.Generate

/-! # What the check of a configuration says

A configuration is accepted if each value is as its key asks for (`Valid`), and otherwise
the error names the first key whose value is not (`refused_iff`). The references that
snippets make for a field are input paths of an accepted configuration again
(`check_set_inputPath`), and they tell the fields apart. -/

namespace InputGuard

/-! ## Identifiers and references -/

namespace Text

def Initial (c : Char) : Prop := c = '_' ∨ ('A' ≤ c ∧ c ≤ 'Z') ∨ ('a' ≤ c ∧ c ≤ 'z')

def Following (c : Char) : Prop := Initial c ∨ ('0' ≤ c ∧ c ≤ '9')

/-- `[_A-Za-z][_0-9A-Za-z]*` -/
inductive Identifier : List Char → Prop where
  | mk {c : Char} {r : List Char} (first : Initial c) (rest : ∀ x ∈ r, Following x) :
    Identifier (c :: r)

theorem isInitial_iff {c : Char} : isInitial c = true ↔ Initial c := by
  have halpha : c.isAlpha = (decide ('A'.val ≤ c.val ∧ c.val ≤ 'Z'.val) ||
      decide ('a'.val ≤ c.val) && decide (c.val ≤ 'z'.val)) := rfl
  simp [isInitial, Initial, halpha, Char.le_def]

theorem isFollowing_iff {c : Char} : isFollowing c = true ↔ Following c := by
  have hdigit : c.isDigit = (decide ('0'.val ≤ c.val) && decide (c.val ≤ '9'.val)) := rfl
  rw [Following, ← isInitial_iff]
  simp [isFollowing, isInitial, Char.isAlphanum, hdigit, Char.le_def, or_assoc]

theorem isIdentifier_iff {s : List Char} : isIdentifier s = true ↔ Identifier s := by
  cases s with
  | nil => exact iff_of_false Bool.false_ne_true nofun
  | cons c r =>
    rw [isIdentifier, Bool.and_eq_true, List.all_eq_true, isInitial_iff]
    simp only [isFollowing_iff]
    refine ⟨fun h => .mk h.1 h.2, fun h => ?_⟩
    obtain ⟨first, rest⟩ := h
    exact ⟨first, rest⟩

theorem point_notMem {s : List Char} (h : isIdentifier s = true) : '.' ∉ s :=
  fun hm => Bool.false_ne_true (isFollowing_of_mem h hm)

theorem isIdentifier_append {s r : List Char} (hs : isIdentifier s = true)
    (hr : r.all isFollowing = true) : isIdentifier (s ++ r) = true := by
  cases s with
  | nil => cases hs
  | cons c s =>
    rw [isIdentifier, Bool.and_eq_true] at hs
    simp [isIdentifier, hs.1, hs.2, hr]

end Text

namespace Config

/-- `$` and identifiers, one or more, with single points between them. -/
inductive Reference : List Char → Prop where
  | mk {p : List Char} {ps : List (List Char)} (segments : ∀ q ∈ p :: ps, Text.Identifier q) :
    Reference ('$' :: ['.'].intercalate (p :: ps))

theorem isReference_iff {s : List Char} : isReference s = true ↔ Reference s := by
  constructor
  · intro h
    unfold isReference at h
    split at h
    · next r =>
      obtain ⟨p, ps, hr⟩ := List.exists_cons_of_ne_nil (Text.splitOn_ne_nil '.' r)
      rw [← Text.intercalate_splitOn '.' r, hr]
      rw [hr, List.all_eq_true] at h
      exact .mk fun q hq => Text.isIdentifier_iff.mp (h q hq)
    · cases h
  · intro h
    obtain ⟨segments⟩ := h
    have hall := fun q hq => Text.isIdentifier_iff.mpr (segments q hq)
    rw [isReference, Text.splitOn_intercalate fun q hq => Text.point_notMem (hall q hq)]
    exact List.all_eq_true.mpr hall

/-! ## The first value that is not as it should be -/

/-- What is asked of the value under a key. The templates of ids are compared when both
are known to have their placeholder. -/
def Valid (c : Config) : Key → Prop
  | .modelDirective => c.modelDirective ≠ ""
  | .inputPath => Reference c.inputPath.toList
  | .errorType => Text.Identifier c.errorType.toList
  | .createResolverId => Text.placeholder <:+: c.createResolverId.toList
  | .updateResolverId =>
    Text.placeholder <:+: c.updateResolverId.toList ∧ c.createResolverId ≠ c.updateResolverId

/-- The values under the keys before this one are valid, and the one under it is not. -/
def FirstInvalid (c : Config) (k : Key) : Prop :=
  ∃ before after, Key.all = before ++ k :: after ∧ (∀ k' ∈ before, c.Valid k') ∧ ¬c.Valid k

theorem accepted_iff {c : Config} : c.Accepted ↔ ∀ k, c.Valid k := by
  constructor
  · intro h k
    cases k with
    | modelDirective => exact h.modelDirective
    | inputPath => exact isReference_iff.mp h.inputPath
    | errorType => exact Text.isIdentifier_iff.mp h.errorType
    | createResolverId => exact Text.hasPlaceholder_iff.mp h.createResolverId
    | updateResolverId => exact ⟨Text.hasPlaceholder_iff.mp h.updateResolverId, h.templates_ne⟩
  · intro h
    obtain ⟨hupdate, hne⟩ := h .updateResolverId
    exact ⟨h .modelDirective, isReference_iff.mpr (h .inputPath),
      Text.isIdentifier_iff.mpr (h .errorType), Text.hasPlaceholder_iff.mpr (h .createResolverId),
      Text.hasPlaceholder_iff.mpr hupdate, hne⟩

/-- The check goes through the keys in their order and names the first one that fails. -/
theorem key_problem? (c : Config) [DecidablePred c.Valid] :
    c.problem?.map Problem.key = Key.all.find? fun k => ¬c.Valid k := by
  unfold problem?
  simp only [Key.all, List.find?_cons, List.find?_nil, Valid, ← isReference_iff,
    ← Text.isIdentifier_iff, ← Text.hasPlaceholder_iff]
  split_ifs <;> simp_all [Problem.key]

theorem firstInvalid_iff {c : Config} {k : Key} :
    c.FirstInvalid k ↔ c.problem?.map Problem.key = some k := by
  classical
  rw [key_problem?, List.find?_eq_some_iff_append]
  constructor
  · intro ⟨before, after, order, valid, invalid⟩
    exact ⟨by simpa using invalid, before, after, order, by simpa using valid⟩
  · intro ⟨invalid, before, after, order, valid⟩
    exact ⟨before, after, order, by simpa using valid, by simpa using invalid⟩

theorem mapError_check (c : Config) :
    c.check.mapError Error.ofProblem =
      match c.problem? with
      | some p => .error (.invalid p.key.name p.reason)
      | none => .ok c := by
  unfold check
  cases c.problem? <;> rfl

/-- The error that is reported names the first key whose value is not valid. -/
theorem refused_iff {c : Config} {k : Key} :
    (∃ reason, c.check.mapError Error.ofProblem = .error (.invalid k.name reason)) ↔
      c.FirstInvalid k := by
  rw [firstInvalid_iff, mapError_check]
  cases c.problem? with
  | none => simp
  | some p =>
    simp only [Option.map_some, Option.some.injEq, Except.error.injEq, Error.invalid.injEq]
    constructor
    · intro ⟨_, hname, _⟩
      exact Key.name_injective hname
    · intro hkey
      exact ⟨p.reason, congrArg Key.name hkey, rfl⟩

/-! ## References to fields -/

theorem isReference_point {s f : List Char} (hs : isReference s = true)
    (hf : Text.isIdentifier f = true) : isReference (s ++ '.' :: f) = true := by
  unfold isReference at hs
  split at hs
  · next r =>
    rw [List.cons_append, isReference, Text.splitOn_append_cons,
      Text.splitOn_of_not_mem '.' f (Text.point_notMem hf), List.all_append, hs]
    simpa using hf
  · cases hs

theorem isReference_variable {s : List Char} (h : Text.isIdentifier s = true) :
    isReference ('$' :: s) = true := by
  rw [isReference, Text.splitOn_of_not_mem '.' s (Text.point_notMem h)]
  simpa using h

/-- Any other reference may stand in the place of the input path. -/
theorem check_set_inputPath {c : Config} {path : String} (h : c.Accepted)
    (hpath : isReference path.toList = true) :
    (c.set path .inputPath).check = .ok (c.set path .inputPath) :=
  check_eq_ok_iff.mpr ⟨rfl, { h with inputPath := hpath }⟩

end Config

namespace Snippet

/-- For some type and record, generation does not object to the name of the field. -/
def LetsThrough (c : Config) (field : String) : Prop :=
  ∃ type r, generate c field type r ≠ .error (.invalidField field)

theorem letsThrough_iff {c : Config} {field : String} :
    LetsThrough c field ↔ Text.isIdentifier field.toList = true := by
  constructor
  · intro ⟨type, r, h⟩
    by_contra hfield
    apply h
    rw [generate, Rule.forField, if_neg hfield]
    rfl
  · intro hfield
    refine ⟨.string, .empty, ?_⟩
    have hmissing : Rule.resolve .empty .string = .error .missingKind := rfl
    rw [generate, Rule.forField, if_pos hfield, hmissing]
    exact nofun

namespace Context

variable {c : Config} {field : String}

theorem isReference_fieldRef (accepted : c.Accepted)
    (identifier : Text.isIdentifier field.toList = true) :
    Config.isReference (ofConfig c field).fieldRef.toList = true := by
  have hchars : (ofConfig c field).fieldRef.toList = c.inputPath.toList ++ '.' :: field.toList := by
    simp [fieldRef, ofConfig]
  rw [hchars]
  exact Config.isReference_point accepted.inputPath identifier

theorem isReference_membersVar (identifier : Text.isIdentifier field.toList = true) :
    Config.isReference (ofConfig c field).membersVar.toList = true := by
  have hchars : (ofConfig c field).membersVar.toList = '$' :: (field.toList ++ "Arr".toList) := by
    simp [membersVar, ofConfig]
  rw [hchars]
  exact Config.isReference_variable (Text.isIdentifier_append identifier (by decide))

theorem fieldRef_inj {field' : String}
    (h : (ofConfig c field).fieldRef = (ofConfig c field').fieldRef) : field = field' :=
  (String.append_right_inj _).mp h

theorem membersVar_inj {field' : String}
    (h : (ofConfig c field).membersVar = (ofConfig c field').membersVar) : field = field' :=
  (String.append_right_inj _).mp ((String.append_left_inj _).mp h)

end Context
end Snippet

namespace Config

open Snippet (Context LetsThrough)

/-- What is known of the check of a configuration. -/
structure ChecksExactly (c : Config) : Prop where
  /-- it accepts the configuration as it is, if all values are valid -/
  accepts : ∀ c', c.check = .ok c' ↔ c' = c ∧ ∀ k, c.Valid k
  /-- otherwise it reports the first key whose value is not -/
  refuses : ∀ k, (∃ reason, c.check.mapError Error.ofProblem = .error (.invalid k.name reason)) ↔
    c.FirstInvalid k
  /-- the names of fields that generation lets through are the identifiers -/
  fields : ∀ field, LetsThrough c field ↔ Text.Identifier field.toList
  /-- the reference to such a field, and the variable of its members, are input paths of an
  accepted configuration if this one is accepted -/
  closed : (∀ k, c.Valid k) → ∀ field, LetsThrough c field →
    ∀ path ∈ [(Context.ofConfig c field).fieldRef, (Context.ofConfig c field).membersVar],
      (c.set path .inputPath).check = .ok (c.set path .inputPath)
  /-- different fields have different references and different variables -/
  apart : ∀ field field', field ≠ field' →
    (Context.ofConfig c field).fieldRef ≠ (Context.ofConfig c field').fieldRef ∧
      (Context.ofConfig c field).membersVar ≠ (Context.ofConfig c field').membersVar

theorem check_exact (c : Config) : ChecksExactly c where
  accepts c' := by rw [check_eq_ok_iff, accepted_iff]
  refuses _ := refused_iff
  fields field := by rw [Snippet.letsThrough_iff, Text.isIdentifier_iff]
  closed valid field through path hpath := by
    have accepted := accepted_iff.mpr valid
    have identifier := Snippet.letsThrough_iff.mp through
    apply check_set_inputPath accepted
    obtain rfl | rfl : path = _ ∨ path = _ := by simpa using hpath
    · exact Context.isReference_fieldRef accepted identifier
    · exact Context.isReference_membersVar identifier
  apart field field' hne :=
    ⟨fun h => hne (Context.fieldRef_inj h), fun h => hne (Context.membersVar_inj h)⟩

/-- Points side by side, and one at the end, leave a segment empty. -/
example : isReference "$ctx..input".toList = false ∧ isReference "$ctx.".toList = false ∧
    isReference "$".toList = false := by
  decide

end Config
end InputGuard
