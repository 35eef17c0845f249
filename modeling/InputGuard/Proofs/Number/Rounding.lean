import InputGuard.Number.Rounding
import Mathlib.Algebra.Order.Field.Power
import Mathlib.Algebra.Order.Field.Rat
import Mathlib.Algebra.Order.Group.Abs
import Mathlib.Tactic.FieldSimp
import Mathlib.Tactic.Linarith
import Mathlib.Tactic.NormNum
import Mathlib.Tactic.Positivity
import Mathlib.Tactic.Ring

/-! # Rounding, in rational numbers

`nearestMagnitude` works on two naturals. Its result depends on their quotient
only: once the exponent is known, it is the significand nearest to the quotient
in units of the exponent (`nearestMagnitude_eq`). -/

namespace InputGuard.Number

/-- A power with an integer exponent as it is computed on naturals. -/
theorem zpow_eq_div (b : ℕ) (e : ℤ) :
    (b : ℚ) ^ e = (b : ℚ) ^ e.toNat / (b : ℚ) ^ (-e).toNat := by
  rcases Int.le_total 0 e with h | h
  · have he : (-e).toNat = 0 := by omega
    have hz : (e.toNat : ℤ) = e := Int.toNat_of_nonneg h
    rw [he, pow_zero, div_one, ← zpow_natCast, hz]
  · have he : e.toNat = 0 := by omega
    have hz : ((-e).toNat : ℤ) = -e := Int.toNat_of_nonneg (by omega)
    rw [he, pow_zero, one_div, ← zpow_natCast, hz, zpow_neg, inv_inv]

theorem two_zpow_pos (e : ℤ) : (0 : ℚ) < 2 ^ e := zpow_pos (by norm_num) e

/-- The quotient that `divHalfEven` is given, in units of `2 ^ e`. -/
theorem shift_div_shift {num den : ℕ} (hd : 0 < den) (e : ℤ) :
    ((num <<< (-e).toNat : ℕ) : ℚ) / (den <<< e.toNat : ℕ) = num / den / 2 ^ e := by
  have hden : (den : ℚ) ≠ 0 := by exact_mod_cast hd.ne'
  have htwo := zpow_eq_div 2 e
  push_cast at htwo
  rw [htwo]
  push_cast [Nat.shiftLeft_eq]
  field_simp

theorem shift_pos {n : ℕ} (h : 0 < n) (k : ℕ) : 0 < n <<< k := by
  rw [Nat.shiftLeft_eq]
  positivity

theorem shift_le_shift_iff {num den : ℕ} (hd : 0 < den) (e : ℤ) :
    den <<< e.toNat ≤ num <<< (-e).toNat ↔ (2 : ℚ) ^ e ≤ num / den := by
  have hpos : (0 : ℚ) < (den <<< e.toNat : ℕ) := by exact_mod_cast shift_pos hd _
  rw [← one_le_div (two_zpow_pos e), ← shift_div_shift hd, one_le_div hpos, Nat.cast_le]

/-- The logarithms of the two naturals give the binade or the one above it. -/
theorem binade_spec {num den : ℕ} (hn : 0 < num) (hd : 0 < den) :
    (2 : ℚ) ^ binade num den ≤ num / den ∧ (num / den : ℚ) < 2 ^ (binade num den + 1) := by
  have hden : (0 : ℚ) < den := by exact_mod_cast hd
  have hn1 : ((2 : ℚ) ^ (num.log2 : ℤ)) ≤ num := by exact_mod_cast Nat.log2_self_le hn.ne'
  have hn2 : (num : ℚ) < 2 ^ ((num.log2 : ℤ) + 1) := by exact_mod_cast Nat.lt_log2_self
  have hd1 : ((2 : ℚ) ^ (den.log2 : ℤ)) ≤ den := by exact_mod_cast Nat.log2_self_le hd.ne'
  have hd2 : (den : ℚ) < 2 ^ ((den.log2 : ℤ) + 1) := by exact_mod_cast Nat.lt_log2_self
  have htest := @shift_le_shift_iff num den hd (num.log2 - den.log2)
  unfold binade
  dsimp only
  split
  · next h =>
    refine ⟨htest.mp h, ?_⟩
    rw [div_lt_iff₀ hden]
    calc (num : ℚ) < 2 ^ ((num.log2 : ℤ) + 1) := hn2
      _ = 2 ^ ((num.log2 : ℤ) - den.log2 + 1) * 2 ^ (den.log2 : ℤ) := by
          rw [← zpow_add₀ (by norm_num)]
          congr 1
          ring
      _ ≤ _ := mul_le_mul_of_nonneg_left hd1 (two_zpow_pos _).le
  · next h =>
    refine ⟨?_, ?_⟩
    · rw [le_div_iff₀ hden]
      calc (2 : ℚ) ^ ((num.log2 : ℤ) - den.log2 - 1) * den
          ≤ 2 ^ ((num.log2 : ℤ) - den.log2 - 1) * 2 ^ ((den.log2 : ℤ) + 1) :=
            mul_le_mul_of_nonneg_left hd2.le (two_zpow_pos _).le
        _ = 2 ^ (num.log2 : ℤ) := by
            rw [← zpow_add₀ (by norm_num)]
            congr 1
            ring
        _ ≤ num := hn1
    · rw [sub_add_cancel]
      exact lt_of_not_ge fun hge => h (htest.mpr hge)

theorem binade_lt {num den : ℕ} (hn : 0 < num) (hd : 0 < den) {e : ℤ}
    (h : (num / den : ℚ) < 2 ^ e) : binade num den < e :=
  (zpow_lt_zpow_iff_right₀ (by norm_num : (1 : ℚ) < 2)).mp ((binade_spec hn hd).1.trans_lt h)

/-- A fraction lies in one binade only. -/
theorem binade_eq {num den : ℕ} (hn : 0 < num) (hd : 0 < den) {e : ℤ}
    (hle : (2 : ℚ) ^ e ≤ num / den) (hlt : (num / den : ℚ) < 2 ^ (e + 1)) :
    binade num den = e := by
  have hupper := binade_lt hn hd hlt
  have hlower := (zpow_lt_zpow_iff_right₀ (by norm_num : (1 : ℚ) < 2)).mp
    (hle.trans_lt (binade_spec hn hd).2)
  omega

section HalfEven

variable {num den : ℕ}

theorem abs_divHalfEven_sub_le (hd : 0 < den) :
    |(divHalfEven num den : ℚ) - num / den| ≤ 1 / 2 := by
  have hden : (0 : ℚ) < den := by exact_mod_cast hd
  obtain ⟨hl, hh⟩ := divHalfEven_near num den hd
  have hl' : (2 * num : ℚ) ≤ 2 * (divHalfEven num den * den) + den := by exact_mod_cast hl
  have hh' : (2 * (divHalfEven num den * den) : ℚ) ≤ 2 * num + den := by exact_mod_cast hh
  rw [abs_le, neg_le_sub_iff_le_add, sub_le_iff_le_add, div_le_iff₀ hden, ← sub_le_iff_le_add',
    le_div_iff₀ hden]
  constructor <;> linarith

theorem one_le_abs_sub {k q : ℕ} (h : k ≠ q) : (1 : ℚ) ≤ |(k : ℚ) - q| := by
  have hint : (1 : ℤ) ≤ |(k : ℤ) - q| := Int.one_le_abs (sub_ne_zero.mpr (by exact_mod_cast h))
  exact_mod_cast hint

theorem divHalfEven_even_of_half (h : 2 * num = 2 * (divHalfEven num den * den) + den ∨
    2 * (divHalfEven num den * den) = 2 * num + den) (hd : 0 < den) :
    divHalfEven num den % 2 = 0 := by
  have hmod := Nat.mod_lt num hd
  have hdiv : num = num / den * den + num % den := (Nat.div_add_mod' num den).symm
  unfold divHalfEven at h ⊢
  dsimp only at h ⊢
  split_ifs at h ⊢
  · omega
  · rw [Nat.add_mul] at h
    omega
  · omega

/-- No natural is nearer to the rational, and if another one is as near, this one is even. -/
structure RoundsHalfEven (w : ℚ) (q : ℕ) : Prop where
  half : |(q : ℚ) - w| ≤ 1 / 2
  near : ∀ k : ℕ, |(q : ℚ) - w| ≤ |(k : ℚ) - w|
  even : ∀ k : ℕ, k ≠ q → |(k : ℚ) - w| = |(q : ℚ) - w| → q % 2 = 0

theorem roundsHalfEven_divHalfEven (hd : 0 < den) :
    RoundsHalfEven (num / den) (divHalfEven num den) := by
  have hden : (0 : ℚ) < den := by exact_mod_cast hd
  have hhalf := @abs_divHalfEven_sub_le num den hd
  have hsplit (k : ℕ) : |(k : ℚ) - divHalfEven num den| ≤
      |(k : ℚ) - num / den| + |(divHalfEven num den : ℚ) - num / den| := by
    rw [abs_sub_comm (divHalfEven num den : ℚ)]
    exact abs_sub_le _ _ _
  constructor
  case half => exact hhalf
  case near =>
    intro k
    by_cases hk : k = divHalfEven num den
    · rw [hk]
    · linarith [one_le_abs_sub hk, hsplit k]
  case even =>
    intro k hk htie
    have heq : |(divHalfEven num den : ℚ) - num / den| = 1 / 2 :=
      le_antisymm hhalf (by linarith [one_le_abs_sub hk, hsplit k])
    refine divHalfEven_even_of_half ?_ hd
    rcases eq_or_eq_neg_of_abs_eq heq with h | h
    · right
      rw [sub_eq_iff_eq_add, ← sub_eq_iff_eq_add', eq_div_iff hden.ne'] at h
      have : (2 * (divHalfEven num den * den) : ℚ) = 2 * num + den := by linarith
      exact_mod_cast this
    · left
      rw [sub_eq_iff_eq_add, ← sub_eq_iff_eq_add', eq_div_iff hden.ne'] at h
      have : (2 * num : ℚ) = 2 * (divHalfEven num den * den) + den := by linarith
      exact_mod_cast this

/-- A natural within half a unit of the rational is its rounding; at exactly half a unit it
must be even. -/
theorem RoundsHalfEven.eq {w : ℚ} {q s : ℕ} (h : RoundsHalfEven w q) (hl : (s : ℚ) - 1 / 2 ≤ w)
    (hh : w ≤ s + 1 / 2) (hs : s % 2 = 1 → (s : ℚ) - 1 / 2 < w ∧ w < s + 1 / 2) : q = s := by
  by_contra hne
  have hapart := one_le_abs_sub (Ne.symm hne)
  have hsplit := abs_sub_le (s : ℚ) w q
  rw [abs_sub_comm w] at hsplit
  have hsw : |(s : ℚ) - w| ≤ 1 / 2 := abs_le.mpr ⟨by linarith, by linarith⟩
  have hhalf := h.half
  -- both are half a unit away, so they are neighbours and both even
  have hq : q % 2 = 0 := h.even s (Ne.symm hne) (by linarith)
  have hs' : s % 2 = 0 := by
    by_contra hodd
    obtain ⟨h1, h2⟩ := hs (by omega)
    have hlt : |(s : ℚ) - w| < 1 / 2 := abs_lt.mpr ⟨by linarith, by linarith⟩
    linarith
  have hnext : |(s : ℤ) - q| ≤ 1 := by
    have : |(s : ℚ) - q| ≤ 1 := by linarith
    exact_mod_cast this
  rw [abs_le] at hnext
  omega

end HalfEven

/-- Rounding of a fraction whose exponent is known. -/
theorem nearestMagnitude_eq {num den s : ℕ} {e : ℤ} (hn : 0 < num) (hd : 0 < den)
    (he : max (binade num den - 52) (-1074) = e)
    (hl : ((s : ℚ) - 1 / 2) * 2 ^ e ≤ num / den) (hh : (num / den : ℚ) ≤ (s + 1 / 2) * 2 ^ e)
    (hs : s % 2 = 1 →
      ((s : ℚ) - 1 / 2) * 2 ^ e < num / den ∧ (num / den : ℚ) < (s + 1 / 2) * 2 ^ e) :
    nearestMagnitude num den = (e + 1074).toNat * Binary64.binadeSize + s := by
  have hpos := two_zpow_pos e
  have hdiv : divHalfEven (num <<< (-e).toNat) (den <<< e.toNat) = s := by
    apply (roundsHalfEven_divHalfEven (shift_pos hd _)).eq <;> simp only [shift_div_shift hd]
    · rwa [le_div_iff₀ hpos]
    · rwa [div_le_iff₀ hpos]
    · intro hodd
      rw [lt_div_iff₀ hpos, div_lt_iff₀ hpos]
      exact hs hodd
  simp only [nearestMagnitude, hn.ne', if_false, he, hdiv]

end InputGuard.Number
