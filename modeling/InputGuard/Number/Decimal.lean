import InputGuard.Text.Blank
import InputGuard.Number.Integer
import InputGuard.Number.Rounding

/-! Decimal numbers: a coefficient times a power of ten. `Decimal.read?` reads
the usual notation, `Decimal.plain` writes positional notation with a point and
digits on both sides and never an exponent, and `Decimal.toBinary64?` rounds to
the nearest binary64, ties to even, refusing what overflows. -/

namespace InputGuard.Number

structure Decimal where
  negative : Bool
  coefficient : Nat
  exponent : Int
deriving DecidableEq

namespace Decimal

/-- Digits before and after the point; at least one of the two parts is not empty. -/
def splitPoint? (s : List Char) : Option (List Char × List Char) :=
  let whole := s.takeWhile Char.isDigit
  match s.dropWhile Char.isDigit with
  | [] => if whole.isEmpty then none else some (whole, [])
  | '.' :: fraction =>
    if fraction.all Char.isDigit && !(whole.isEmpty && fraction.isEmpty) then some (whole, fraction)
    else none
  | _ => none

/-- The power of ten after an exponent mark. -/
def readExponent? (s : List Char) : Option Int :=
  let (negative, body) := splitSign s
  if isNumeral body then some (signed negative (ofDigits body)) else none

def isExponentMark (c : Char) : Bool := c == 'e' || c == 'E'

/-- The number a text spells: an optional sign, digits with at most one point,
and an optional exponent. -/
def read? (s : List Char) : Option Decimal := do
  let (negative, body) := splitSign s
  let mantissa := body.takeWhile (!isExponentMark ·)
  let exponent ← match body.dropWhile (!isExponentMark ·) with
    | [] => some 0
    | _ :: e => readExponent? e
  let (whole, fraction) ← splitPoint? mantissa
  some ⟨negative, ofDigits (whole ++ fraction), exponent - fraction.length⟩

/-- Nearest binary64, or nothing on overflow. Far outside the range of
magnitudes the answer is known without computing the power of ten. -/
def toBinary64? (d : Decimal) : Option Binary64 :=
  let width : Int := (digits d.coefficient).length
  if d.coefficient = 0 ∨ width + d.exponent < -330 then some (.ofMagnitude d.negative 0)
  else if 310 < width + d.exponent then none
  else
    let m := nearestMagnitude (d.coefficient * powerOfTen d.exponent.toNat)
      (powerOfTen (-d.exponent).toNat)
    if m < Binary64.limit then some (.ofMagnitude d.negative m) else none

/-- The digits in positional notation: the point is always written, with a digit
on each side. -/
def positional (coefficient : Nat) (exponent : Int) : List Char :=
  let ds := digits coefficient
  let places := (-exponent).toNat
  if 0 ≤ exponent then ds ++ List.replicate exponent.toNat '0' ++ ['.', '0']
  else if places < ds.length then ds.take (ds.length - places) ++ '.' :: ds.drop (ds.length - places)
  else '0' :: '.' :: (List.replicate (places - ds.length) '0' ++ ds)

def plain (d : Decimal) : List Char :=
  if d.negative then '-' :: positional d.coefficient d.exponent
  else positional d.coefficient d.exponent

theorem mem_positional {n : Nat} {e : Int} {c : Char} (h : c ∈ positional n e) :
    c = '.' ∨ c.isDigit = true := by
  have hd {l : List Char} (hl : l ⊆ digits n) (hc : c ∈ l) : c = '.' ∨ c.isDigit = true :=
    .inr (isDigit_of_mem_digits (hl hc))
  have hz {k : Nat} (hc : c ∈ List.replicate k '0') : c = '.' ∨ c.isDigit = true :=
    .inr (List.eq_of_mem_replicate hc ▸ rfl)
  unfold positional at h
  dsimp only at h
  split at h
  · rcases List.mem_append.mp h with h | h
    · exact (List.mem_append.mp h).elim (hd (List.Subset.refl _)) hz
    · simp only [List.mem_cons, List.not_mem_nil, or_false] at h
      rcases h with rfl | rfl
      · exact .inl rfl
      · exact .inr rfl
  · split at h
    · rcases List.mem_append.mp h with h | h
      · exact hd (List.take_subset _ _) h
      · exact (List.mem_cons.mp h).elim .inl (hd (List.drop_subset _ _))
    · rcases List.mem_cons.mp h with rfl | h
      · exact .inr rfl
      · refine (List.mem_cons.mp h).elim .inl fun h => ?_
        exact (List.mem_append.mp h).elim hz (hd (List.Subset.refl _))

theorem mem_plain {d : Decimal} {c : Char} (h : c ∈ d.plain) :
    c = '-' ∨ c = '.' ∨ c.isDigit = true := by
  unfold plain at h
  split at h
  · exact (List.mem_cons.mp h).imp id mem_positional
  · exact .inr (mem_positional h)

end Decimal

/-- The finite binary64 a text spells, blanks around it aside. -/
def readFloat? (text : List Char) : Option Binary64 :=
  Decimal.read? (Text.trim text) >>= Decimal.toBinary64?

end InputGuard.Number
