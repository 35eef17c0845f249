import InputGuard.Number.Shortest
import InputGuard.Proofs.Number.Decimal

/-! # The numbers that round to a binary64

The interval around a finite number holds exactly what `Neighbourhood.holds`
accepts (`holds_iff`), and every fraction in it rounds to the number
(`nearestMagnitude_of_covers`). -/

namespace InputGuard.Number

namespace Binary64

variable {x : Binary64}

/-- The number without its sign. -/
def absolute (x : Binary64) : ℚ := x.significand * 2 ^ x.exponent

theorem significand_lt (x : Binary64) : x.significand < 2 * binadeSize := by
  unfold significand
  split
  · omega
  · have := Nat.mod_lt x.magnitude (show 0 < binadeSize by decide)
    omega

theorem le_exponent (x : Binary64) : -1074 ≤ x.exponent := by
  unfold exponent
  omega

theorem exponent_le (h : x.isFinite = true) : x.exponent ≤ 971 := by
  have hlt : x.magnitude < limit := of_decide_eq_true h
  have : x.magnitude / binadeSize < 2047 := Nat.div_lt_of_lt_mul hlt
  unfold exponent
  omega

/-- Only the numbers of the smallest exponent have less than 53 bits. -/
theorem binadeSize_le_significand (h : -1074 < x.exponent) : binadeSize ≤ x.significand := by
  unfold exponent at h
  unfold significand
  split
  · next hm =>
    rw [Nat.div_eq_of_lt hm] at h
    omega
  · exact Nat.le_add_left _ _

theorem significand_pos (h : x.magnitude ≠ 0) : 0 < x.significand := by
  unfold significand
  split
  · exact Nat.pos_of_ne_zero h
  · exact Nat.lt_of_lt_of_le (by decide) (Nat.le_add_left binadeSize _)

/-- A magnitude counts the numbers below it. -/
theorem magnitude_eq (x : Binary64) :
    x.magnitude = (x.exponent + 1074).toNat * binadeSize + x.significand := by
  have hdiv := Nat.div_add_mod' x.magnitude binadeSize
  unfold exponent significand
  split
  · next hm =>
    rw [Nat.div_eq_of_lt hm]
    simp
  · next hm =>
    have hpos : 0 < x.magnitude / binadeSize := Nat.div_pos (by omega) (by decide)
    have hexp : (max (x.magnitude / binadeSize : ℕ) 1 - 1075 + 1074 : ℤ).toNat =
        x.magnitude / binadeSize - 1 := by omega
    have hmul := Nat.sub_mul (x.magnitude / binadeSize) 1 binadeSize
    have hle := Nat.mul_le_mul_right binadeSize hpos
    rw [hexp]
    omega

end Binary64

namespace Neighbourhood

variable {i : Neighbourhood} {x : Binary64}

/-- What the ends are counted in. -/
def unit (i : Neighbourhood) : ℚ := i.num / i.den

/-- The rational lies in the interval. -/
structure Covers (i : Neighbourhood) (v : ℚ) : Prop where
  low : i.low * i.unit ≤ v
  high : v ≤ i.high * i.unit
  ends : i.closed = false → i.low * i.unit < v ∧ v < i.high * i.unit

theorem Covers.of_lt {v : ℚ} (hl : i.low * i.unit < v) (hh : v < i.high * i.unit) : i.Covers v :=
  ⟨hl.le, hh.le, fun _ => ⟨hl, hh⟩⟩

/-- The test on naturals is the test on rationals. -/
theorem holds_iff (hden : 0 < i.den) {k : ℤ} {c : ℕ} :
    i.holds k c = true ↔ i.Covers (c * 10 ^ k) := by
  have hd : (0 : ℚ) < i.den := by exact_mod_cast hden
  have hk : (0 : ℚ) < powerOfTen (-k).toNat := by exact_mod_cast powerOfTen_pos _
  have hpoint : ((c * (i.den * powerOfTen k.toNat) : ℕ) : ℚ) =
      c * 10 ^ k * (i.den * powerOfTen (-k).toNat) := by
    rw [ten_zpow]
    push_cast
    field_simp
  have hscale (n : ℕ) : ((n * (i.num * powerOfTen (-k).toNat) : ℕ) : ℚ) =
      n * i.unit * (i.den * powerOfTen (-k).toNat) := by
    rw [unit]
    push_cast
    field_simp
  have hle (n : ℕ) : (n * (i.num * powerOfTen (-k).toNat) ≤ c * (i.den * powerOfTen k.toNat) ↔
      (n * i.unit : ℚ) ≤ c * 10 ^ k) ∧
      (c * (i.den * powerOfTen k.toNat) ≤ n * (i.num * powerOfTen (-k).toNat) ↔
        (c * 10 ^ k : ℚ) ≤ n * i.unit) := by
    constructor <;>
      rw [← Nat.cast_le (α := ℚ), hpoint, hscale, mul_le_mul_iff_left₀ (by positivity)]
  have hlt (n : ℕ) : (n * (i.num * powerOfTen (-k).toNat) < c * (i.den * powerOfTen k.toNat) ↔
      (n * i.unit : ℚ) < c * 10 ^ k) ∧
      (c * (i.den * powerOfTen k.toNat) < n * (i.num * powerOfTen (-k).toNat) ↔
        (c * 10 ^ k : ℚ) < n * i.unit) := by
    constructor <;>
      rw [← Nat.cast_lt (α := ℚ), hpoint, hscale, mul_lt_mul_iff_left₀ (by positivity)]
  unfold holds
  cases hc : i.closed with
  | true =>
    simp only [if_true, decide_eq_true_eq, (hle _).1, (hle _).2]
    exact ⟨fun ⟨hl, hh⟩ => ⟨hl, hh, fun h => nomatch hc.symm.trans h⟩, fun h => ⟨h.low, h.high⟩⟩
  | false =>
    simp only [Bool.false_eq_true, if_false, decide_eq_true_eq, (hlt _).1, (hlt _).2]
    exact ⟨fun ⟨hl, hh⟩ => .of_lt hl hh, fun h => h.ends hc⟩

theorem den_pos (x : Binary64) : 0 < (ofBinary64 x).den := shift_pos (by decide) _

/-- A quarter of the last place of the number. -/
theorem unit_ofBinary64 (x : Binary64) : (ofBinary64 x).unit = 2 ^ x.exponent / 4 := by
  have h := zpow_eq_div 2 (x.exponent - 2)
  push_cast at h
  simp only [unit, ofBinary64, Nat.shiftLeft_eq, one_mul]
  push_cast
  rw [← h, zpow_sub₀ (by norm_num)]
  norm_num

theorem high_ofBinary64 (x : Binary64) :
    (ofBinary64 x).high * (ofBinary64 x).unit = (x.significand + 1 / 2) * 2 ^ x.exponent := by
  rw [unit_ofBinary64]
  simp only [ofBinary64]
  push_cast
  ring

theorem value_ofBinary64 (x : Binary64) :
    (ofBinary64 x).value * (ofBinary64 x).unit = x.absolute := by
  rw [unit_ofBinary64, Binary64.absolute]
  simp only [ofBinary64]
  push_cast
  ring

/-- The lower end is half a place below the number, or a quarter at the bottom of
a binade with another one below it. -/
theorem low_ofBinary64 (h : x.magnitude ≠ 0) :
    (ofBinary64 x).low * (ofBinary64 x).unit =
      (x.significand -
          if x.significand = Binary64.binadeSize ∧ -1074 < x.exponent then 1 / 4 else 1 / 2) *
        2 ^ x.exponent := by
  have hpos := Binary64.significand_pos h
  rw [unit_ofBinary64]
  simp only [ofBinary64]
  split
  · rw [Nat.cast_sub (by omega)]
    push_cast
    ring
  · rw [Nat.cast_sub (by omega)]
    push_cast
    ring

end Neighbourhood

section Rounding

open Neighbourhood (ofBinary64 Covers low_ofBinary64 high_ofBinary64 unit_ofBinary64)

variable {x : Binary64} {num den : ℕ}

/-- What holds of a fraction in the interval of a number, wherever the lower end is. -/
theorem bounds_of_covers (h0 : x.magnitude ≠ 0) {v : ℚ} (h : (ofBinary64 x).Covers v) :
    (x.significand - 1 / 2) * 2 ^ x.exponent ≤ v ∧ v ≤ (x.significand + 1 / 2) * 2 ^ x.exponent ∧
      (x.significand % 2 = 1 → (x.significand - 1 / 2) * 2 ^ x.exponent < v ∧
        v < (x.significand + 1 / 2) * 2 ^ x.exponent) := by
  have hpos := two_zpow_pos x.exponent
  have hlow : (x.significand - 1 / 2) * 2 ^ x.exponent ≤
      (ofBinary64 x).low * (ofBinary64 x).unit := by
    rw [low_ofBinary64 h0]
    refine mul_le_mul_of_nonneg_right ?_ hpos.le
    split <;> linarith
  refine ⟨hlow.trans h.low, high_ofBinary64 x ▸ h.high, fun hodd => ?_⟩
  have hopen : (ofBinary64 x).closed = false := by simp [ofBinary64, hodd]
  obtain ⟨hl, hh⟩ := h.ends hopen
  exact ⟨hlow.trans_lt hl, high_ofBinary64 x ▸ hh⟩

theorem two_zpow_add (e k : ℤ) : (2 : ℚ) ^ (e + k) = 2 ^ k * 2 ^ e := by
  rw [zpow_add₀ (by norm_num), mul_comm]

theorem lt_of_covers (h0 : x.magnitude ≠ 0) {v : ℚ} (h : (ofBinary64 x).Covers v) :
    v < 2 ^ (x.exponent + 53) := by
  have hs : (x.significand : ℚ) + 1 ≤ 2 ^ 53 := by exact_mod_cast x.significand_lt
  rw [two_zpow_add]
  refine (bounds_of_covers h0 h).2.1.trans_lt (mul_lt_mul_of_pos_right ?_ (two_zpow_pos _))
  norm_num
  linarith

theorem pos_of_covers (h0 : x.magnitude ≠ 0) {v : ℚ} (h : (ofBinary64 x).Covers v) : 0 < v := by
  have hs : (1 : ℚ) ≤ x.significand := by exact_mod_cast Binary64.significand_pos h0
  refine lt_of_lt_of_le (mul_pos ?_ (two_zpow_pos x.exponent)) (bounds_of_covers h0 h).1
  linarith

/-- Below a number at the bottom of a binade the places are half as wide, and a
fraction of the interval rounds up into the binade of the number. -/
theorem nearestMagnitude_below (h0 : x.magnitude ≠ 0) (hn : 0 < num) (hd : 0 < den)
    (h : (ofBinary64 x).Covers (num / den)) (hs : x.significand = Binary64.binadeSize)
    (he : -1074 < x.exponent) (hlt : (num / den : ℚ) < 2 ^ (x.exponent + 52)) :
    nearestMagnitude num den = x.magnitude := by
  have hpos := two_zpow_pos x.exponent
  have hsq : (x.significand : ℚ) = 2 ^ 52 := by rw [hs]; norm_num [Binary64.binadeSize]
  have hlow := h.low
  rw [low_ofBinary64 h0, if_pos ⟨hs, he⟩, hsq] at hlow
  have hhalf : (2 : ℚ) ^ (x.exponent - 1) = 2 ^ x.exponent / 2 := by
    rw [zpow_sub₀ (by norm_num), zpow_one]
  have hbinade : binade num den = x.exponent + 51 := by
    apply binade_eq hn hd
    · rw [two_zpow_add]
      refine le_trans (mul_le_mul_of_nonneg_right ?_ hpos.le) hlow
      norm_num
    · rw [add_assoc]
      exact hlt
  have hnear : nearestMagnitude num den =
      (x.exponent - 1 + 1074).toNat * Binary64.binadeSize + 2 * Binary64.binadeSize := by
    rw [two_zpow_add] at hlt
    apply nearestMagnitude_eq hn hd (by rw [hbinade]; omega)
    · rw [hhalf]
      norm_num [Binary64.binadeSize] at hlow ⊢
      linarith
    · rw [hhalf]
      norm_num [Binary64.binadeSize] at hlt ⊢
      linarith
    · intro hodd
      omega
  have hnext : (x.exponent + 1074).toNat = (x.exponent - 1 + 1074).toNat + 1 := by omega
  rw [hnear, x.magnitude_eq, hs, hnext]
  ring

/-- Anywhere else in the interval the places are those of the number. -/
theorem max_binade_eq (h0 : x.magnitude ≠ 0) (hn : 0 < num) (hd : 0 < den)
    (h : (ofBinary64 x).Covers (num / den))
    (hbottom : ¬(x.significand = Binary64.binadeSize ∧ -1074 < x.exponent ∧
      (num / den : ℚ) < 2 ^ (x.exponent + 52))) :
    max (binade num den - 52) (-1074) = x.exponent := by
  have hbelow := lt_of_covers h0 h
  rcases (x.le_exponent).eq_or_lt with he | he
  · have := binade_lt hn hd hbelow
    omega
  · have hge : (2 : ℚ) ^ (x.exponent + 52) ≤ num / den := by
      by_contra hlt
      have hne : x.significand ≠ Binary64.binadeSize := fun hs =>
        hbottom ⟨hs, he, lt_of_not_ge hlt⟩
      have hsize := Binary64.binadeSize_le_significand he
      have hs : (2 ^ 52 + 1 : ℚ) ≤ x.significand := by
        exact_mod_cast (show 2 ^ 52 + 1 ≤ x.significand from lt_of_le_of_ne hsize hne.symm)
      refine hlt (le_trans ?_ (bounds_of_covers h0 h).1)
      rw [two_zpow_add]
      refine mul_le_mul_of_nonneg_right ?_ (two_zpow_pos _).le
      norm_num
      linarith
    have hbinade : binade num den = x.exponent + 52 := by
      apply binade_eq hn hd hge
      rw [add_assoc]
      exact hbelow
    omega

/-- A fraction in the interval of a number rounds to the number. -/
theorem nearestMagnitude_of_covers (h0 : x.magnitude ≠ 0) (hd : 0 < den)
    (h : (ofBinary64 x).Covers (num / den)) : nearestMagnitude num den = x.magnitude := by
  have hn : 0 < num := by
    by_contra hz
    have hv := pos_of_covers h0 h
    rw [show num = 0 by omega, Nat.cast_zero, zero_div] at hv
    exact lt_irrefl _ hv
  by_cases hbottom : x.significand = Binary64.binadeSize ∧ -1074 < x.exponent ∧
      (num / den : ℚ) < 2 ^ (x.exponent + 52)
  · obtain ⟨hs, he, hlt⟩ := hbottom
    exact nearestMagnitude_below h0 hn hd h hs he hlt
  · obtain ⟨hl, hh, hodd⟩ := bounds_of_covers h0 h
    rw [nearestMagnitude_eq hn hd (max_binade_eq h0 hn hd h hbottom) hl hh hodd,
      ← x.magnitude_eq]

end Rounding

end InputGuard.Number
