import InputGuard.Proofs.Number.Canonical
import InputGuard.Proofs.Snippet.Parameter

/-! # Integers from a record to its snippet

An integer parameter is read as the number that its text spells, and the snippet has
the canonical decimal of that number in the place of the text (`integers_kept`). -/

namespace InputGuard

/-- A text spells an integer of 64 bits, and this is the canonical decimal of it. -/
def Number.SameInteger (text decimal : String) : Prop :=
  ∃ n, InRange n ∧ Spelled text.toList n ∧ Canonical decimal.toList n

namespace Snippet

open Number (Canonical InRange SameInteger Spelled readInteger?)
open Rule (Members Parameter Reads Record readAs)

theorem readAs_integer_iff {p : Parameter} {text : String} {v : Int64} :
    readAs p .int readInteger? text = .ok v ↔ Spelled text.toList v.toInt := by
  rw [Rule.readAs_eq_ok_iff, Number.readInteger?_eq_some_iff, Number.spelled_iff]

theorem int_eq_iff {v : Int64} {decimal : String} :
    Vtl.int v = decimal ↔ Canonical decimal.toList v.toInt := by
  rw [Number.canonical_iff, ← String.toList_inj, Vtl.int, String.toList_ofList, eq_comm]

theorem sameInteger_iff {text decimal : String} : SameInteger text decimal ↔
    ∃ v, readInteger? text.toList = some v ∧ Vtl.int v = decimal := by
  simp only [Number.readInteger?_eq_some_iff, int_eq_iff, ← Number.spelled_iff]
  constructor
  · rintro ⟨n, ⟨hlow, hhigh⟩, hspelled, hcanonical⟩
    have hn : (Int64.ofInt n).toInt = n :=
      Int64.toInt_ofInt_of_le hlow (Int.lt_add_one_iff.mpr hhigh)
    exact ⟨.ofInt n, hn.symm ▸ hspelled, hn.symm ▸ hcanonical⟩
  · rintro ⟨v, hspelled, hcanonical⟩
    exact ⟨v.toInt, Number.inRange_toInt v, hspelled, hcanonical⟩

theorem handled_integer : Handled "Int" readInteger? Vtl.int .integer .integers where
  reads_iff _ _ := ⟨Reads.integer, fun h => ⟨rfl, h⟩⟩
  exists_value text d h := by cases d <;> simp [Reads] at h ⊢
  exists_members ms h := by cases ms <;> simp [Members.typeName] at h ⊢
  typeName _ := rfl
  values _ := rfl
  memberLiterals _ := rfl
  defaultLiteral _ := rfl

/-- What becomes of integers on the way from a record to the snippet of a field. -/
structure KeepsIntegers (config : Config) (field : String) : Prop where
  /-- a text is read as the integer it spells -/
  read : ∀ (p : Parameter) (text : String) (v : Int64),
    readAs p .int readInteger? text = .ok v ↔ Spelled text.toList v.toInt
  /-- it is refused if the integer has more than 64 bits -/
  refused : ∀ (p : Parameter) (text : String) (n : Int), Spelled text.toList n → ¬InRange n →
    readAs p .int readInteger? text = .error (.unreadable p text .int)
  /-- an integer is written as its canonical decimal -/
  written : ∀ (v : Int64) (decimal : String),
    Vtl.int v = decimal ↔ Canonical decimal.toList v.toInt
  /-- and what is written is read back -/
  readBack : ∀ (p : Parameter) (v : Int64), readAs p .int readInteger? (Vtl.int v) = .ok v
  /-- a membership check on an integer has the recorded members in their order -/
  members : ∀ (r : Record) (snippet : String), r.HasScalar "type" "in" →
    (generate config field .int r = .ok snippet ↔
      Text.isIdentifier field.toList = true ∧
        ∃ texts decimals, r.HasTexts "arrayInt" texts ∧ List.Forall₂ SameInteger texts decimals ∧
          snippet = beforeMembers (.ofConfig config field) ++ ", ".intercalate decimals ++
            afterMembers (.ofConfig config field))
  /-- a default of an integer has the recorded value -/
  default : ∀ (r : Record) (snippet : String), r.HasScalar "type" "filter" →
    r.HasScalar "filter" "default" →
    (generate config field .int r = .ok snippet ↔
      Text.isIdentifier field.toList = true ∧
        ∃ text decimal, r.HasScalar "valueInt" text ∧ SameInteger text decimal ∧
          snippet = beforeDefault (.ofConfig config field) ++ decimal ++
            afterDefault (.ofConfig config field))

/-- Integers keep their value from the record to the snippet. -/
theorem integers_kept (config : Config) (field : String) : KeepsIntegers config field := by
  have hsame : SameInteger =
      fun text decimal => ∃ v, readInteger? text.toList = some v ∧ Vtl.int v = decimal := by
    ext text decimal
    exact sameInteger_iff
  constructor
  case read => exact fun _ _ _ => readAs_integer_iff
  case refused =>
    intro p text n hspelled hrange
    refine Rule.readAs_eq_error fun v hv => hrange ?_
    rw [Number.readInteger?_eq_some_iff] at hv
    rw [(Number.spelled_iff.mp hspelled).unique hv]
    exact Number.inRange_toInt v
  case written => exact fun _ _ => int_eq_iff
  case readBack =>
    intro p v
    rw [Rule.readAs_eq_ok_iff, Vtl.int, String.toList_ofList, Number.readInteger?_writeInteger]
  case members =>
    intro r snippet kind
    rw [hsame]
    exact handled_integer.generate_members_iff kind
  case default =>
    intro r snippet kind filter
    rw [hsame]
    exact handled_integer.generate_default_iff kind filter

end Snippet
end InputGuard
