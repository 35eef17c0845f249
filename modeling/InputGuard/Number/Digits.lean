/-! Decimal digits of a natural number, most significant first. Writing and
reading are inverse, and a written number holds digits only. -/

namespace InputGuard.Number

def digits (n : Nat) : List Char := Nat.toDigits 10 n

def ofDigits (s : List Char) : Nat := Nat.ofDigitChars 10 s 0

/-- A one with `n` zeros behind it. -/
def powerOfTen (n : Nat) : Nat := Nat.pow 10 n

theorem ofDigits_digits (n : Nat) : ofDigits (digits n) = n :=
  Nat.ofDigitChars_toDigits (by decide) (by decide)

theorem digits_ne_nil (n : Nat) : digits n ≠ [] := Nat.toDigits_ne_nil

theorem isDigit_of_mem_digits {n : Nat} {c : Char} (h : c ∈ digits n) : c.isDigit = true :=
  Nat.isDigit_of_mem_toDigits (by decide) (by decide) h

end InputGuard.Number
