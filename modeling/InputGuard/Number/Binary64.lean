/-! Binary floating-point numbers of 64 bits, held as their bits. The lower
sixty-three bits are the magnitude; a finite number is ± `significand` ·
2 ^ `exponent`, where the significand has at most 53 bits. For every finite
number `magnitude = (exponent + 1074) · binadeSize + significand`, which holds
for the subnormals too: they share the smallest exponent with the first normal
binade, and their significand stays below `binadeSize`. So magnitudes are
ordered as the values are. -/

namespace InputGuard.Number

structure Binary64 where
  bits : UInt64
deriving DecidableEq

namespace Binary64

/-- The value of the highest bit, which is set in negative numbers: 2 ^ 63. -/
def signBit : Nat := 0x8000000000000000

/-- How many magnitudes have the same exponent: 2 ^ 52. -/
def binadeSize : Nat := 0x10000000000000

/-- The first magnitude that is no finite number: infinity. -/
def limit : Nat := 0x7FF0000000000000

def negative (x : Binary64) : Bool := decide (signBit ≤ x.bits.toNat)

def magnitude (x : Binary64) : Nat := x.bits.toNat % signBit

def isFinite (x : Binary64) : Bool := decide (x.magnitude < limit)

def significand (x : Binary64) : Nat :=
  if x.magnitude < binadeSize then x.magnitude else x.magnitude % binadeSize + binadeSize

def exponent (x : Binary64) : Int := max (x.magnitude / binadeSize : Nat) 1 - 1075

def ofMagnitude (negative : Bool) (magnitude : Nat) : Binary64 :=
  ⟨UInt64.ofNat (magnitude + if negative then signBit else 0)⟩

theorem magnitude_lt (x : Binary64) : x.magnitude < signBit := Nat.mod_lt _ (by decide)

theorem ofMagnitude_magnitude (x : Binary64) : ofMagnitude x.negative x.magnitude = x := by
  obtain ⟨b⟩ := x
  have hb := b.toNat_lt
  simp only [ofMagnitude, negative, magnitude, decide_eq_true_eq]
  congr 1
  apply UInt64.toNat_inj.mp
  rw [UInt64.toNat_ofNat']
  split <;> simp only [signBit] at * <;> omega

theorem magnitude_ofMagnitude {b : Bool} {m : Nat} (h : m < signBit) :
    (ofMagnitude b m).magnitude = m := by
  simp only [ofMagnitude, magnitude, UInt64.toNat_ofNat']
  split <;> simp only [signBit] at * <;> omega

theorem negative_ofMagnitude {b : Bool} {m : Nat} (h : m < signBit) :
    (ofMagnitude b m).negative = b := by
  simp only [ofMagnitude, negative, UInt64.toNat_ofNat']
  cases b <;> simp only [signBit] at * <;> simp <;> omega

theorem isFinite_ofMagnitude {b : Bool} {m : Nat} (h : m < signBit) :
    (ofMagnitude b m).isFinite = decide (m < limit) := by
  rw [isFinite, magnitude_ofMagnitude h]

end Binary64
end InputGuard.Number
