import InputGuard.Text.Blank
import InputGuard.Number.Digits

/-! Whole numbers of 64 bits in decimal. A written integer is canonical: a minus
sign for negatives only, and no leading zero. A read integer may carry blanks
around it, either sign and leading zeros, and is refused outside the 64-bit
range; the bound is checked on the exact value, so nothing wraps. -/

namespace InputGuard.Number

/-- An optional sign in front of a number, and whether it is a minus. -/
def splitSign : List Char → Bool × List Char
  | '-' :: r => (true, r)
  | '+' :: r => (false, r)
  | s => (false, s)

def isNumeral (s : List Char) : Bool := !s.isEmpty && s.all Char.isDigit

def signed (negative : Bool) (n : Nat) : Int := if negative then -(n : Int) else n

/-- From -2 ^ 63 to 2 ^ 63 - 1. -/
def InRange (v : Int) : Prop := -0x8000000000000000 ≤ v ∧ v ≤ 0x7FFFFFFFFFFFFFFF

instance (v : Int) : Decidable (InRange v) := inferInstanceAs (Decidable (_ ∧ _))

def writeInteger (v : Int64) : List Char :=
  if v.toInt < 0 then '-' :: digits v.toInt.natAbs else digits v.toInt.natAbs

/-- The integer a text spells, blanks around it aside. -/
def readInteger? (text : List Char) : Option Int64 :=
  let (negative, body) := splitSign (Text.trim text)
  let v := signed negative (ofDigits body)
  if isNumeral body ∧ InRange v then some (Int64.ofInt v) else none

theorem isNumeral_digits (n : Nat) : isNumeral (digits n) = true := by
  simp only [isNumeral, Bool.and_eq_true, List.all_eq_true]
  exact ⟨by simpa using digits_ne_nil n, fun c h => isDigit_of_mem_digits h⟩

theorem mem_writeInteger {v : Int64} {c : Char} (h : c ∈ writeInteger v) :
    c = '-' ∨ c.isDigit = true := by
  unfold writeInteger at h
  split at h
  · rcases List.mem_cons.mp h with rfl | h
    · exact .inl rfl
    · exact .inr (isDigit_of_mem_digits h)
  · exact .inr (isDigit_of_mem_digits h)

theorem inRange_toInt (v : Int64) : InRange v.toInt :=
  ⟨Int64.le_toInt v, Int64.toInt_le v⟩

end InputGuard.Number
