import InputGuard.Number.Decimal

/-! The shortest decimal that reads back to a binary64. The reals that round to
a finite number form an interval around it, whose ends belong to it when the
significand is even. Going down through the powers of ten, the first grid with a
point in that interval gives the fewest digits; of its two points beside the
number the nearer one is taken, and of two equally near ones the greater. -/

namespace InputGuard.Number

/-- A positive number with the ends of the interval that rounds to it, all three
in units of `num / den`; `closed` says that the ends belong to the interval. -/
structure Neighbourhood where
  low : Nat
  value : Nat
  high : Nat
  closed : Bool
  num : Nat
  den : Nat

namespace Neighbourhood

/-- The interval reaches half way to the next number on either side, and below a
power of two the next number is half as far away. -/
def ofBinary64 (x : Binary64) : Neighbourhood :=
  let m := x.significand
  let e := x.exponent - 2
  { low := if m = Binary64.binadeSize ∧ -1074 < x.exponent then 4 * m - 1 else 4 * m - 2
    value := 4 * m
    high := 4 * m + 2
    closed := m % 2 == 0
    num := 1 <<< e.toNat
    den := 1 <<< (-e).toNat }

/-- Whether `c` times `10 ^ k` lies in the interval. -/
def holds (i : Neighbourhood) (k : Int) (c : Nat) : Bool :=
  let scale := i.num * powerOfTen (-k).toNat
  let point := c * (i.den * powerOfTen k.toNat)
  if i.closed then decide (i.low * scale ≤ point ∧ point ≤ i.high * scale)
  else decide (i.low * scale < point ∧ point < i.high * scale)

/-- The point of the grid `10 ^ k` that stands for the number, if one does. -/
def pick? (i : Neighbourhood) (k : Int) : Option Nat :=
  let num := i.value * (i.num * powerOfTen (-k).toNat)
  let den := i.den * powerOfTen k.toNat
  let c := num / den
  if holds i k c then
    if holds i k (c + 1) ∧ den ≤ 2 * (num % den) then some (c + 1) else some c
  else if holds i k (c + 1) then some (c + 1)
  else none

/-- The first of `fuel` grids, from `10 ^ k` downwards, with a point in the interval. -/
def search (i : Neighbourhood) : Nat → Int → Option (Nat × Int)
  | 0, _ => none
  | fuel + 1, k =>
    match pick? i k with
    | some c => some (c, k)
    | none => search i fuel (k - 1)

end Neighbourhood

/-- The largest finite number is below 10 ^ 309 and the narrowest interval is
wider than 10 ^ -324, so the grids in between suffice. Zero keeps its sign. -/
def shortest (x : Binary64) : Decimal :=
  let found := if x.magnitude = 0 then none else (Neighbourhood.ofBinary64 x).search 633 308
  let (c, k) := found.getD (0, 0)
  ⟨x.negative, c, k⟩

def writeFloat (x : Binary64) : List Char := (shortest x).plain

end InputGuard.Number
