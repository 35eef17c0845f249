import InputGuard.Number.Binary64

/-! Rounding an exact fraction to the nearest binary64 magnitude, ties to even.
The exponent is chosen so that the significand has 53 bits, or is the smallest
one; a significand that rounds up to 54 bits carries into the next binade, since
the magnitude adds the two parts. -/

namespace InputGuard.Number

/-- The quotient of two naturals, rounded to nearest, ties to even. -/
def divHalfEven (num den : Nat) : Nat :=
  let q := num / den
  let r := 2 * (num % den)
  if r < den then q else if den < r then q + 1 else q + q % 2

/-- The exponent of the binade of a positive fraction: the largest `e` with
2 ^ `e` at most the fraction. -/
def binade (num den : Nat) : Int :=
  let e : Int := (num.log2 : Int) - den.log2
  if den <<< e.toNat ≤ num <<< (-e).toNat then e else e - 1

/-- The magnitude nearest to a fraction; `Binary64.limit` or more on overflow. -/
def nearestMagnitude (num den : Nat) : Nat :=
  if num = 0 then 0
  else
    let e := max (binade num den - 52) (-1074)
    (e + 1074).toNat * Binary64.binadeSize +
      divHalfEven (num <<< (-e).toNat) (den <<< e.toNat)

theorem divHalfEven_near (num den : Nat) (h : 0 < den) :
    2 * num ≤ 2 * (divHalfEven num den * den) + den ∧
      2 * (divHalfEven num den * den) ≤ 2 * num + den := by
  have hd := Nat.div_add_mod num den
  have hm := Nat.mod_lt num h
  have hc : den * (num / den) = num / den * den := Nat.mul_comm _ _
  simp only [divHalfEven]
  split
  · omega
  · split
    · rw [Nat.add_mul]; omega
    · rcases Nat.mod_two_eq_zero_or_one (num / den) with hp | hp <;>
        simp only [hp, Nat.add_zero, Nat.add_mul, Nat.one_mul] <;> omega

end InputGuard.Number
