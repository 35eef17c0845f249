import InputGuard.Number.Digits
import InputGuard.Number.Rounding

/-! Whether a JSON number lies within binary64. The literal is read as a
significand of at most 64 bits, digits beyond them being dropped, times a power
of ten; the two are rounded separately and multiplied, and the number is out of
range when the power or the product is. -/

namespace InputGuard.Json

open Number

/-- A number read so far: significand · 10 ^ exponent; `full` once a digit did
not fit any more. -/
structure Scaled where
  significand : Nat
  exponent : Int
  full : Bool

namespace Scaled

def push (s : Scaled) (d : Nat) : Option Nat :=
  let n := s.significand * 10 + d
  if !s.full && n < UInt64.size then some n else none

def whole (s : Scaled) (d : Nat) : Scaled :=
  match s.push d with
  | some n => { s with significand := n }
  | none => { s with exponent := s.exponent + 1, full := true }

def fraction (s : Scaled) (d : Nat) : Scaled :=
  match s.push d with
  | some n => { s with significand := n, exponent := s.exponent - 1 }
  | none => { s with full := true }

/-- The natural number nearest to `n` with a significand of 53 bits. -/
def rounded (n : Nat) : Nat :=
  let x := Binary64.ofMagnitude false (nearestMagnitude n 1)
  (x.significand <<< x.exponent.toNat) >>> (-x.exponent).toNat

def inRange (s : Scaled) : Bool :=
  s.significand == 0 || s.exponent < 0 ||
    (s.exponent ≤ 308 &&
      nearestMagnitude (rounded s.significand * rounded (powerOfTen s.exponent.toNat)) 1 <
        Binary64.limit)

end Scaled

def digitValues (s : List Char) : List Nat := s.map fun c => c.toNat - '0'.toNat

/-- Takes the literal of a number token apart: whole digits, fraction, power. -/
def numberInRange (literal : List Char) : Bool :=
  let body := if literal.head? = some '-' then literal.drop 1 else literal
  let wholeDigits := body.takeWhile Char.isDigit
  let rest := body.dropWhile Char.isDigit
  let fractionDigits := if rest.head? = some '.' then (rest.drop 1).takeWhile Char.isDigit else []
  let power := (rest.dropWhile fun c => c.isDigit || c == '.').drop 1
  let negative := power.head? = some '-'
  let shift : Int := ofDigits (power.filter Char.isDigit)
  let s := (digitValues wholeDigits).foldl Scaled.whole ⟨0, 0, false⟩
  let s := (digitValues fractionDigits).foldl Scaled.fraction { s with full := false }
  { s with exponent := if negative then s.exponent - shift else s.exponent + shift }.inRange

end InputGuard.Json
