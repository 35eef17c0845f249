import InputGuard.Json.Text
import Mathlib.Data.List.Forall2

/-! # Hexadecimal digits

A number may be spelled in either case, the most significant digit first. -/

namespace InputGuard.Text

/-- A digit, in either case, and its value. -/
def IsHexDigit (c : Char) (value : Nat) : Prop :=
  value < 16 ∧ (c = Nat.digitChar value ∨ c = (Nat.digitChar value).toUpper)

theorem IsHexDigit.hexDigit? {c : Char} {value : Nat} (h : IsHexDigit c value) :
    Json.hexDigit? c = some value := by
  have hall : ∀ n < 16, Json.hexDigit? (Nat.digitChar n) = some n ∧
      Json.hexDigit? (Nat.digitChar n).toUpper = some n := by decide
  obtain ⟨hlt, rfl | rfl⟩ := h
  · exact (hall value hlt).1
  · exact (hall value hlt).2

/-- The number that digits stand for behind those of another one. -/
def hexFrom (start : Nat) (values : List Nat) : Nat := values.foldl (· * 16 + ·) start

theorem hexFrom_nil (start : Nat) : hexFrom start [] = start := rfl

theorem hexFrom_cons (start value : Nat) (values : List Nat) :
    hexFrom start (value :: values) = hexFrom (start * 16 + value) values := rfl

/-- Some digits spell a number. -/
def SpellsHex (digits : List Char) (n : Nat) : Prop :=
  ∃ values, List.Forall₂ IsHexDigit digits values ∧ hexFrom 0 values = n

end InputGuard.Text
