import InputGuard.Proofs.Number.Reading
import InputGuard.Proofs.Snippet.Parameter

/-! # Floats from a record to its snippet

A float parameter is read as the finite number nearest to the decimal in its text, and
refused if there is none. What is written for a number is a plain decimal whose nearest
number is that number again (`floats_kept`). -/

namespace InputGuard

/-- A text spells a finite float, and this is the literal of it. -/
def Number.SameFloat (text literal : String) : Prop :=
  ∃ x : Binary64, (SpelledFloat text.toList x ∧ x.isFinite = true) ∧ Vtl.float x = literal

namespace Snippet

open Number (Binary64 Decimal SameFloat SpelledFloat isNumeral ofDigits readFloat?)
open Rule (Default Members Parameter Readable Reads Record RefusedWith readAs)
open Schema (FieldType)

variable {p : Parameter} {text : String} {x : Binary64} {r : Record}

theorem handled_float : Handled "Float" readFloat? Vtl.float .float .floats where
  reads_iff _ _ := ⟨Reads.float, fun h => ⟨rfl, h⟩⟩
  exists_value text d h := by cases d <;> simp [Reads] at h ⊢
  exists_members ms h := by cases ms <;> simp [Members.typeName] at h ⊢
  typeName _ := rfl
  values _ := rfl
  memberLiterals _ := rfl
  defaultLiteral _ := rfl

/-! ## Refusals -/

/-- How a text is refused that is no finite float. -/
def notAFloat (name text : String) : String :=
  name ++ " value '" ++ text ++ "' is not a valid Float."

theorem notAFloat_eq (name text : String) :
    name ++ " value '" ++ text ++ "' is not a valid " ++ "Float" ++ "." = notAFloat name text := by
  rw [String.append_assoc, String.append_assoc]
  rfl

theorem readable_float_iff :
    Readable "Float" text ↔ ∃ x, SpelledFloat text.toList x ∧ x.isFinite = true := by
  simp only [Rule.readable_float, Number.readFloat?_eq_some_iff]

theorem not_readable (h : SpelledFloat text.toList x) (infinite : x.isFinite = false) :
    ¬Readable "Float" text := by
  rw [Rule.readable_float, h.readFloat?, infinite]
  simp

theorem refused_of_infinite (h : SpelledFloat text.toList x) (infinite : x.isFinite = false) :
    RefusedWith (readAs p .float readFloat? text) (notAFloat p.name text) := by
  have hnone : ∀ y, readFloat? text.toList ≠ some y := by
    simp [h.readFloat?, infinite]
  exact ⟨_, Rule.readAs_eq_error hnone, notAFloat_eq p.name text⟩

theorem members_refused {before after : List String} (kind : r.HasScalar "type" "in")
    (recorded : r.HasTexts "arrayFloat" (before ++ text :: after))
    (readable : ∀ t ∈ before, Readable "Float" t) (unreadable : ¬Readable "Float" text) :
    RefusedWith (Rule.resolve r .float) (notAFloat "arrayFloat" text) := by
  have hrefuses : Rule.Refuses r "Float" _ :=
    .members kind (.unreadable (by decide) recorded readable unreadable)
  exact notAFloat_eq "arrayFloat" text ▸ hrefuses.resolve

theorem default_refused (kind : r.HasScalar "type" "filter")
    (filter : r.HasScalar "filter" "default") (recorded : r.HasScalar "valueFloat" text)
    (unreadable : ¬Readable "Float" text) :
    RefusedWith (Rule.resolve r .float) (notAFloat "valueFloat" text) := by
  have hone : r.HasOne "valueFloat" ([] ++ [text]) := .scalar recorded
  have hrefuses : Rule.Refuses r "Float" _ :=
    .default kind filter (.unreadable (by decide) hone (by simp) unreadable)
  exact notAFloat_eq "valueFloat" text ▸ hrefuses.resolve

/-! ## Literals -/

theorem float_toList (x : Binary64) : (Vtl.float x).toList = Number.writeFloat x :=
  String.toList_ofList

theorem readAs_float (finite : x.isFinite = true) :
    readAs p .float readFloat? (Vtl.float x) = .ok x := by
  rw [Rule.readAs_eq_ok_iff, float_toList, Number.readFloat?_writeFloat finite]

/-- The digits on both sides of the point of a literal, whose decimal rounds to the number
and to no other one. -/
theorem exists_digits (finite : x.isFinite = true) : ∃ whole fraction,
    isNumeral whole = true ∧ isNumeral fraction = true ∧
      (Vtl.float x).toList =
        (if x.negative then ['-'] else []) ++ (whole ++ '.' :: fraction) ∧
      ∀ y, Decimal.RoundsTo ⟨x.negative, ofDigits (whole ++ fraction), -fraction.length⟩ y ↔
        y = x := by
  obtain ⟨whole, fraction, hplain, hw, hf, -⟩ := (Number.shortest x).plain_eq
  have hsign : (Number.shortest x).negative = x.negative := rfl
  rw [hsign] at hplain
  refine ⟨whole, fraction, hw, hf, by rw [float_toList, Number.writeFloat, hplain], fun y => ?_⟩
  -- the decimal is what the reader makes of the literal
  have hread := Number.readFloat?_writeFloat finite
  have hspells := Decimal.read?_eq_some_iff.mpr (Decimal.spells_plain x.negative hw hf)
  rw [Number.writeFloat, readFloat?, Number.trim_plain, hplain, hspells] at hread
  have hrounds := (Decimal.toBinary64?_eq_some_iff.mp hread).1
  exact ⟨fun h => h.unique hrounds, fun h => h ▸ hrounds⟩

/-! ## The main result -/

/-- What becomes of floats on the way from a record to the snippet of a field. -/
structure KeepsFloats (config : Config) (field : String) : Prop where
  /-- a resolved rule has finite floats only, whatever the type of the field is -/
  finite : ∀ (r : Record) (type : FieldType) (rule : Rule), Rule.resolve r type = .ok rule →
    ∀ x, Default.float x ∈ rule.values → x.isFinite = true
  /-- and so has any rule that a snippet is rendered from -/
  rendered : ∀ (r : Record) (type : FieldType) (snippet : String),
    generate config field type r = .ok snippet →
      ∃ rule, Rule.resolve r type = .ok rule ∧ snippet = render (.ofConfig config field) rule ∧
        ∀ x, Default.float x ∈ rule.values → x.isFinite = true
  /-- a text is read as the finite float it spells -/
  read : ∀ (p : Parameter) (text : String) (x : Binary64),
    readAs p .float readFloat? text = .ok x ↔ SpelledFloat text.toList x ∧ x.isFinite = true
  /-- a text is refused that spells a float which is not finite -/
  refused : ∀ (p : Parameter) (text : String) (x : Binary64), SpelledFloat text.toList x →
    x.isFinite = false → RefusedWith (readAs p .float readFloat? text) (notAFloat p.name text)
  /-- every decimal rounds to one float, which is not finite from the border of overflow on -/
  border : ∀ d : Decimal, ∃ x, (∀ y, d.RoundsTo y ↔ y = x) ∧
    (x.isFinite = false ↔ 2 ^ (1024 : ℤ) - 2 ^ (970 : ℤ) ≤ d.absolute)
  /-- a record is refused for the first such member -/
  membersRefused : ∀ (r : Record) (before after : List String) (text : String) (x : Binary64),
    r.HasScalar "type" "in" → r.HasTexts "arrayFloat" (before ++ text :: after) →
    (∀ t ∈ before, ∃ y, SpelledFloat t.toList y ∧ y.isFinite = true) →
    SpelledFloat text.toList x → x.isFinite = false →
    RefusedWith (Rule.resolve r .float) (notAFloat "arrayFloat" text)
  /-- and for such a default -/
  defaultRefused : ∀ (r : Record) (text : String) (x : Binary64), r.HasScalar "type" "filter" →
    r.HasScalar "filter" "default" → r.HasScalar "valueFloat" text →
    SpelledFloat text.toList x → x.isFinite = false →
    RefusedWith (Rule.resolve r .float) (notAFloat "valueFloat" text)
  /-- a finite float is written with digits on both sides of one point, and the exact value
  of this decimal rounds to the same bits -/
  written : ∀ x : Binary64, x.isFinite = true → ∃ whole fraction,
    isNumeral whole = true ∧ isNumeral fraction = true ∧
      (Vtl.float x).toList =
        (if x.negative then ['-'] else []) ++ (whole ++ '.' :: fraction) ∧
      ∀ y, Decimal.RoundsTo ⟨x.negative, ofDigits (whole ++ fraction), -fraction.length⟩ y ↔
        y = x
  /-- so that what is written is read back -/
  readBack : ∀ (p : Parameter) (x : Binary64), x.isFinite = true →
    readAs p .float readFloat? (Vtl.float x) = .ok x
  /-- a membership check on a float has the recorded members in their order -/
  members : ∀ (r : Record) (snippet : String), r.HasScalar "type" "in" →
    (generate config field .float r = .ok snippet ↔
      Text.isIdentifier field.toList = true ∧
        ∃ texts literals, r.HasTexts "arrayFloat" texts ∧ List.Forall₂ SameFloat texts literals ∧
          snippet = beforeMembers (.ofConfig config field) ++ ", ".intercalate literals ++
            afterMembers (.ofConfig config field))
  /-- a default of a float has the recorded value -/
  default : ∀ (r : Record) (snippet : String), r.HasScalar "type" "filter" →
    r.HasScalar "filter" "default" →
    (generate config field .float r = .ok snippet ↔
      Text.isIdentifier field.toList = true ∧
        ∃ text literal, r.HasScalar "valueFloat" text ∧ SameFloat text literal ∧
          snippet = beforeDefault (.ofConfig config field) ++ literal ++
            afterDefault (.ofConfig config field))

/-- Floats keep their value from the record to the snippet. -/
theorem floats_kept (config : Config) (field : String) : KeepsFloats config field := by
  have hfinite {r : Record} {type : FieldType} {rule : Rule}
      (h : Rule.resolve r type = .ok rule) (x : Binary64) (hx : Default.float x ∈ rule.values) :
      x.isFinite = true :=
    Rule.isFinite_of_resolve h _ hx
  have hsame : SameFloat =
      fun text literal => ∃ x, readFloat? text.toList = some x ∧ Vtl.float x = literal := by
    simp only [Number.readFloat?_eq_some_iff]
    rfl
  constructor
  case finite => exact fun _ _ _ h => hfinite h
  case rendered =>
    intro r type snippet h
    obtain ⟨rule, hrule, rfl⟩ := generate_eq_ok_iff.mp h
    have hresolve := (Rule.forField_eq_ok_iff.mp hrule).2
    exact ⟨rule, hresolve, rfl, hfinite hresolve⟩
  case read =>
    intro p text x
    rw [Rule.readAs_eq_ok_iff, Number.readFloat?_eq_some_iff]
  case refused => exact fun _ _ _ h infinite => refused_of_infinite h infinite
  case border =>
    intro d
    obtain ⟨x, hx, -⟩ := d.toBinary64?_spec
    refine ⟨x, fun y => ⟨fun hy => hy.unique hx, fun h => h ▸ hx⟩, ?_⟩
    rw [← not_lt, ← hx.isFinite_iff, Bool.not_eq_true]
  case membersRefused =>
    intro r before after text x kind recorded readable h infinite
    exact members_refused kind recorded (fun t ht => readable_float_iff.mpr (readable t ht))
      (not_readable h infinite)
  case defaultRefused =>
    intro r text x kind filter recorded h infinite
    exact default_refused kind filter recorded (not_readable h infinite)
  case written => exact fun _ finite => exists_digits finite
  case readBack => exact fun _ _ finite => readAs_float finite
  case members =>
    intro r snippet kind
    rw [hsame]
    exact handled_float.generate_members_iff kind
  case default =>
    intro r snippet kind filter
    rw [hsame]
    exact handled_float.generate_default_iff kind filter

end Snippet
end InputGuard
