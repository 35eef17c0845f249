import InputGuard.Proofs.Number.Shortest

/-! # Rounding to nearest

What it means that a binary64 is the nearest one to a rational, said of exact numbers
only (`Binary64.Nearest`). At most one number is (`Binary64.Nearest.unique`), and the one
with the magnitude that is computed for a fraction is (`nearest_nearestMagnitude`). -/

namespace InputGuard.Number

namespace Binary64

variable {x y : Binary64} {v : ℚ}

/-- No number is nearer to the rational, and if another one is as near, this one is
even. Infinity takes part as the first number that is too large, which is `2 ^ 1024`. -/
structure Nearest (x : Binary64) (v : ℚ) : Prop where
  bounded : x.magnitude ≤ limit
  near : ∀ y : Binary64, y.magnitude ≤ limit → |x.absolute - v| ≤ |y.absolute - v|
  even : ∀ y : Binary64, y.magnitude ≤ limit → y.magnitude ≠ x.magnitude →
    |y.absolute - v| = |x.absolute - v| → x.significand % 2 = 0

/-! ## The order of the numbers -/

theorem significand_mod_two (x : Binary64) : x.significand % 2 = x.magnitude % 2 := by
  have h := x.magnitude_eq
  simp only [binadeSize] at h
  omega

theorem absolute_lt_two_zpow (x : Binary64) : x.absolute < 2 ^ (x.exponent + 53) := by
  rw [two_zpow_add]
  refine mul_lt_mul_of_pos_right ?_ (two_zpow_pos _)
  exact_mod_cast x.significand_lt

theorem two_zpow_le_absolute (h : -1074 < x.exponent) :
    (2 : ℚ) ^ (x.exponent + 52) ≤ x.absolute := by
  rw [two_zpow_add]
  refine mul_le_mul_of_nonneg_right ?_ (two_zpow_pos _).le
  exact_mod_cast binadeSize_le_significand h

theorem absolute_lt (h : x.magnitude < y.magnitude) : x.absolute < y.absolute := by
  have hx := x.magnitude_eq
  have hy := y.magnitude_eq
  have hsx := x.significand_lt
  have hsy := y.significand_lt
  have hex := x.le_exponent
  have hey := y.le_exponent
  rcases lt_trichotomy x.exponent y.exponent with he | he | he
  · calc x.absolute < 2 ^ (x.exponent + 53) := x.absolute_lt_two_zpow
      _ ≤ 2 ^ (y.exponent + 52) := zpow_le_zpow_right₀ (by norm_num) (by omega)
      _ ≤ y.absolute := two_zpow_le_absolute (by omega)
  · rw [absolute, absolute, he]
    refine mul_lt_mul_of_pos_right ?_ (two_zpow_pos _)
    rw [he] at hx
    exact_mod_cast (show x.significand < y.significand by omega)
  · have hs := binadeSize_le_significand (x := x) (by omega)
    simp only [binadeSize] at *
    omega

theorem absolute_inj : x.absolute = y.absolute ↔ x.magnitude = y.magnitude := by
  constructor
  · intro h
    rcases lt_trichotomy x.magnitude y.magnitude with hlt | heq | hlt
    · exact absurd h (absolute_lt hlt).ne
    · exact heq
    · exact absurd h (absolute_lt hlt).ne'
  · intro h
    simp only [absolute, significand, exponent, h]

/-- Of two numbers that are equally near one is odd, or there is a nearer one between
them. -/
theorem Nearest.unique (hx : x.Nearest v) (hy : y.Nearest v) : x.magnitude = y.magnitude := by
  wlog hlt : x.magnitude < y.magnitude generalizing x y
  · rcases Nat.lt_or_eq_of_le (Nat.le_of_not_lt hlt) with h | h
    · exact (this hy hx h).symm
    · exact h.symm
  have htie : |y.absolute - v| = |x.absolute - v| :=
    le_antisymm (hy.near x hx.bounded) (hx.near y hy.bounded)
  have hxeven := hx.even y hy.bounded hlt.ne' htie
  have hyeven := hy.even x hx.bounded hlt.ne htie.symm
  rw [significand_mod_two] at hxeven hyeven
  -- the number after `x` lies strictly between the two
  have hnext : (ofMagnitude false (x.magnitude + 1)).magnitude = x.magnitude + 1 :=
    magnitude_ofMagnitude (lt_of_le_of_lt hlt y.magnitude_lt)
  have hlow : x.absolute < (ofMagnitude false (x.magnitude + 1)).absolute :=
    absolute_lt (by omega)
  have hhigh : (ofMagnitude false (x.magnitude + 1)).absolute < y.absolute :=
    absolute_lt (by omega)
  have hnear := hx.near _ (by rw [hnext]; exact hlt.trans_le hy.bounded)
  have hfar : |(ofMagnitude false (x.magnitude + 1)).absolute - v| < |x.absolute - v| := by
    rw [abs_lt]
    have h1 := neg_abs_le (x.absolute - v)
    have h2 := le_abs_self (y.absolute - v)
    constructor <;> linarith
  exact absurd hnear (not_le.mpr hfar)

/-! ## Numbers on a grid -/

/-- A number whose exponent is smaller lies below the grid's part with full precision. -/
theorem absolute_lt_of_exponent_lt {e : ℤ} (h : x.exponent < e) : x.absolute < 2 ^ (e + 52) :=
  x.absolute_lt_two_zpow.trans_le (zpow_le_zpow_right₀ (by norm_num) (by omega))

theorem exists_multiple {e : ℤ} (h : e ≤ x.exponent) : ∃ k : ℕ, x.absolute = k * 2 ^ e := by
  refine ⟨x.significand * 2 ^ (x.exponent - e).toNat, ?_⟩
  have he : ((x.exponent - e).toNat : ℤ) + e = x.exponent := by omega
  push_cast
  rw [absolute, mul_assoc, ← zpow_natCast, ← zpow_add₀ (by norm_num), he]

/-- What rounding leaves under an exponent: a significand of 53 bits, the power of two after
them, or fewer bits under the smallest exponent. -/
structure Precise (e : ℤ) (q : ℕ) : Prop where
  exponent : -1074 ≤ e
  low : -1074 < e → binadeSize ≤ q
  high : q ≤ 2 * binadeSize

theorem Precise.absolute_eq {e : ℤ} {q : ℕ} (h : Precise e q)
    (hx : x.magnitude = (e + 1074).toNat * binadeSize + q) : x.absolute = q * 2 ^ e := by
  obtain ⟨he, hlow, hhigh⟩ := h
  have hmagnitude := x.magnitude_eq
  have hs := x.significand_lt
  have hex := x.le_exponent
  have hsize := binadeSize_le_significand (x := x)
  rcases hhigh.lt_or_eq with hlt | rfl
  · have hexp : x.exponent = e := by
      simp only [binadeSize] at *
      omega
    have hsig : x.significand = q := by
      rw [hexp] at hmagnitude
      omega
    rw [absolute, hexp, hsig]
  · have hexp : x.exponent = e + 1 := by
      simp only [binadeSize] at *
      omega
    have hsig : x.significand = binadeSize := by
      rw [hexp] at hmagnitude
      simp only [binadeSize] at *
      omega
    rw [absolute, hexp, hsig, zpow_add_one₀ (by norm_num)]
    push_cast
    ring

/-- A nearest point of the grid `2 ^ e` is a nearest number, since all numbers from
`2 ^ (e + 52)` on are points of that grid. -/
theorem nearest_of_grid {e : ℤ} {q : ℕ} (bounded : x.magnitude ≤ limit) (precise : Precise e q)
    (hm : x.magnitude = (e + 1074).toNat * binadeSize + q) (hfine : -1074 < e → 2 ^ (e + 52) ≤ v)
    (h : RoundsHalfEven (v / 2 ^ e) q) : x.Nearest v := by
  have hpos := two_zpow_pos e
  have hx := precise.absolute_eq hm
  have hscale (k : ℕ) : |(k * 2 ^ e : ℚ) - v| = |k - v / 2 ^ e| * 2 ^ e := by
    rw [← abs_of_pos hpos, ← abs_mul, abs_of_pos hpos, sub_mul, div_mul_cancel₀ _ hpos.ne']
  have hcoarse (y : Binary64) (he : y.exponent < e) : |x.absolute - v| < |y.absolute - v| := by
    have hv := hfine (y.le_exponent.trans_lt he)
    have hy := absolute_lt_of_exponent_lt he
    -- the grid has a point between `y` and `v`
    have hpoint : ((2 ^ 52 : ℕ) : ℚ) * 2 ^ e = 2 ^ (e + 52) := by
      rw [two_zpow_add]
      norm_num
    calc |x.absolute - v| = |q - v / 2 ^ e| * 2 ^ e := by rw [hx, hscale]
      _ ≤ |((2 ^ 52 : ℕ) : ℚ) - v / 2 ^ e| * 2 ^ e :=
        mul_le_mul_of_nonneg_right (h.near _) hpos.le
      _ = v - 2 ^ (e + 52) := by
        rw [← hscale, hpoint, abs_of_nonpos (by linarith), neg_sub]
      _ < v - y.absolute := by linarith
      _ = |y.absolute - v| := by rw [abs_of_nonpos (by linarith), neg_sub]
  constructor
  case bounded => exact bounded
  case near =>
    intro y _
    rcases lt_or_ge y.exponent e with he | he
    · exact (hcoarse y he).le
    · obtain ⟨k, hy⟩ := exists_multiple he
      rw [hx, hy, hscale, hscale]
      exact mul_le_mul_of_nonneg_right (h.near k) hpos.le
  case even =>
    intro y _ hne htie
    rcases lt_or_ge y.exponent e with he | he
    · exact absurd htie (hcoarse y he).ne'
    · obtain ⟨k, hy⟩ := exists_multiple he
      have hk : k ≠ q := by
        rintro rfl
        exact hne (absolute_inj.mp (hy.trans hx.symm))
      rw [hx, hy, hscale, hscale, mul_left_inj' hpos.ne'] at htie
      have heven := h.even k hk htie
      rw [significand_mod_two, hm]
      simp only [binadeSize]
      omega

/-! ## The ends of the range -/

theorem two_zpow_le_absolute_of_ne_zero (h : x.magnitude ≠ 0) :
    (2 : ℚ) ^ (-1074 : ℤ) ≤ x.absolute := by
  have hs : (1 : ℚ) ≤ x.significand := by exact_mod_cast significand_pos h
  calc (2 : ℚ) ^ (-1074 : ℤ) ≤ 2 ^ x.exponent := zpow_le_zpow_right₀ (by norm_num) x.le_exponent
    _ = 1 * 2 ^ x.exponent := (one_mul _).symm
    _ ≤ x.absolute := mul_le_mul_of_nonneg_right hs (two_zpow_pos _).le

theorem absolute_of_magnitude_eq_zero (h : x.magnitude = 0) : x.absolute = 0 := by
  simp [absolute, significand, h, binadeSize]

theorem nearest_zero (hx : x.magnitude = 0) (h0 : 0 ≤ v) (h : v < 2 ^ (-1075 : ℤ)) :
    x.Nearest v := by
  have hhalf : (2 : ℚ) ^ (-1074 : ℤ) = 2 * 2 ^ (-1075 : ℤ) := by
    rw [← zpow_one_add₀ (by norm_num)]
    norm_num
  have hself : |x.absolute - v| = v := by
    rw [absolute_of_magnitude_eq_zero hx, zero_sub, abs_neg, abs_of_nonneg h0]
  have hfar (y : Binary64) (hy : y.magnitude ≠ 0) : v < |y.absolute - v| := by
    have hle := two_zpow_le_absolute_of_ne_zero hy
    rw [abs_of_nonneg (by linarith)]
    linarith
  constructor
  case bounded => simp [hx]
  case near =>
    intro y _
    by_cases hy : y.magnitude = 0
    · rw [absolute_inj.mpr (hx.trans hy.symm)]
    · rw [hself]
      exact (hfar y hy).le
  case even =>
    intro y _ hne htie
    rw [hself] at htie
    exact absurd htie (hfar y (hx ▸ hne)).ne'

theorem absolute_of_magnitude_eq_limit (h : x.magnitude = limit) :
    x.absolute = 2 ^ (1024 : ℤ) := by
  have hprecise : Precise 972 binadeSize := ⟨by decide, fun _ => le_rfl, by decide⟩
  rw [hprecise.absolute_eq h, show (1024 : ℤ) = 972 + 52 by norm_num, two_zpow_add]
  norm_num [binadeSize]

theorem nearest_limit (hx : x.magnitude = limit) (h : 2 ^ (1024 : ℤ) ≤ v) : x.Nearest v := by
  have hself : |x.absolute - v| = v - x.absolute := by
    rw [absolute_of_magnitude_eq_limit hx, abs_of_nonpos (by linarith), neg_sub]
  have hfar (y : Binary64) (hy : y.magnitude < limit) : |x.absolute - v| < |y.absolute - v| := by
    have hlt := absolute_lt (hx.symm ▸ hy)
    rw [hself, abs_of_nonpos (by linarith [absolute_of_magnitude_eq_limit hx]), neg_sub]
    linarith
  constructor
  case bounded => exact hx.le
  case near =>
    intro y hy
    rcases hy.lt_or_eq with hlt | heq
    · exact (hfar y hlt).le
    · rw [absolute_inj.mpr (hx.trans heq.symm)]
  case even =>
    intro y hy hne htie
    exact absurd htie (hfar y (lt_of_le_of_ne hy (hx ▸ hne))).ne'

/-- The numbers overflow from half way between the largest finite one and `2 ^ 1024` on. -/
theorem Nearest.magnitude_eq_limit_iff (h : x.Nearest v) :
    x.magnitude = limit ↔ 2 ^ (1024 : ℤ) - 2 ^ (970 : ℤ) ≤ v := by
  -- infinity, and the largest finite number, which is odd
  have hinf : (ofMagnitude false limit).magnitude = limit := magnitude_ofMagnitude (by decide)
  have hmax : (ofMagnitude false (limit - 1)).magnitude = limit - 1 :=
    magnitude_ofMagnitude (by decide)
  have hlast : (ofMagnitude false (limit - 1)).absolute =
      2 ^ (1024 : ℤ) - 2 * 2 ^ (970 : ℤ) := by
    have htwo : (2 : ℚ) ^ (971 : ℤ) = 2 * 2 ^ (970 : ℤ) := two_zpow_add 970 1
    have htop : (2 : ℚ) ^ (1024 : ℤ) = 2 ^ (53 : ℤ) * 2 ^ (971 : ℤ) := two_zpow_add 971 53
    have hprecise : Precise 971 (2 * binadeSize - 1) := ⟨by decide, fun _ => by decide, by decide⟩
    rw [hprecise.absolute_eq hmax, ← htwo, htop, ← sub_one_mul]
    norm_num [binadeSize]
  have hfirst := absolute_of_magnitude_eq_limit (x := x)
  have hinfabs := absolute_of_magnitude_eq_limit hinf
  have hgap := two_zpow_pos 970
  generalize (2 : ℚ) ^ (1024 : ℤ) = top at *
  generalize (2 : ℚ) ^ (970 : ℤ) = gap at *
  constructor
  · intro hx
    have hnear := h.near _ (show (ofMagnitude false (limit - 1)).magnitude ≤ limit by omega)
    rw [hfirst hx, hlast] at hnear
    have habove := le_abs_self (top - v)
    rcases abs_cases (top - 2 * gap - v) with ⟨h1, -⟩ | ⟨h1, -⟩ <;> linarith
  · intro hv
    by_contra hne
    have hlt : x.magnitude < limit := lt_of_le_of_ne h.bounded hne
    have hle : x.absolute ≤ (ofMagnitude false (limit - 1)).absolute := by
      rcases (Nat.le_sub_one_of_lt hlt).lt_or_eq with hlt | heq
      · exact (absolute_lt (hmax.symm ▸ hlt)).le
      · exact (absolute_inj.mpr (heq.trans hmax.symm)).le
    have hnear := h.near _ hinf.le
    have hbelow := neg_le_abs (x.absolute - v)
    rw [hlast] at hle
    rw [hinfabs] at hnear
    rcases abs_cases (top - v) with ⟨h1, -⟩ | ⟨h1, -⟩
    · -- the rational lies half way, where the odd number loses
      have heq : x.absolute = (ofMagnitude false (limit - 1)).absolute := by
        rw [hlast]
        linarith
      have htie : |(ofMagnitude false limit).absolute - v| = |x.absolute - v| := by
        rw [hinfabs]
        linarith
      have heven := h.even _ hinf.le (by omega) htie
      rw [significand_mod_two, absolute_inj.mp heq, hmax] at heven
      exact absurd heven (by decide)
    · linarith

end Binary64

/-! ## Rounding of a fraction -/

section Fraction

open Binary64 (limit binadeSize)

variable {num den : ℕ}

/-- The exponent fits the fraction, and the significand is the fraction rounded under it. -/
theorem nearestMagnitude_spec (hn : 0 < num) (hd : 0 < den) :
    ∃ (e : ℤ) (q : ℕ), nearestMagnitude num den = (e + 1074).toNat * binadeSize + q ∧
      (-1074 < e → (2 : ℚ) ^ (e + 52) ≤ num / den) ∧ Binary64.Precise e q ∧
      RoundsHalfEven (num / den / 2 ^ e) q := by
  obtain ⟨hlow, hhigh⟩ := binade_spec hn hd
  refine ⟨max (binade num den - 52) (-1074), _, by rw [nearestMagnitude, if_neg hn.ne'], ?_⟩
  generalize he : max (binade num den - 52) (-1074) = e
  have hpos := two_zpow_pos e
  have hrounds : RoundsHalfEven (num / den / 2 ^ e)
      (divHalfEven (num <<< (-e).toNat) (den <<< e.toNat)) :=
    shift_div_shift hd e ▸ roundsHalfEven_divHalfEven (shift_pos hd e.toNat)
  generalize divHalfEven (num <<< (-e).toNat) (den <<< e.toNat) = q at hrounds
  obtain ⟨hbelow, habove⟩ := abs_le.mp hrounds.half
  have hfine (h : -1074 < e) : (2 : ℚ) ^ (e + 52) ≤ num / den := by
    rwa [show e + 52 = binade num den by omega]
  refine ⟨hfine, ?_, hrounds⟩
  constructor
  case exponent => omega
  case low =>
    intro h
    have hsize : ((2 : ℚ) ^ 52) ≤ num / den / 2 ^ e := by
      rw [le_div_iff₀ hpos]
      simpa [two_zpow_add] using hfine h
    have : ((2 ^ 52 : ℕ) : ℚ) < (q + 1 : ℕ) := by
      push_cast
      linarith
    exact Nat.lt_succ_iff.mp (by exact_mod_cast this)
  case high =>
    have hsize : num / den / 2 ^ e < (2 : ℚ) ^ 53 := by
      rw [div_lt_iff₀ hpos]
      have hle : (2 : ℚ) ^ (binade num den + 1) ≤ 2 ^ (e + 53) :=
        zpow_le_zpow_right₀ (by norm_num) (by omega)
      simpa [two_zpow_add] using hhigh.trans_le hle
    have : (q : ℚ) < (2 ^ 53 + 1 : ℕ) := by
      push_cast
      linarith
    exact Nat.lt_succ_iff.mp (by exact_mod_cast this)

/-- The magnitude of a fraction is that of the number nearest to it. -/
theorem nearest_nearestMagnitude {x : Binary64} (hd : 0 < den)
    (hx : x.magnitude = min (nearestMagnitude num den) limit) : x.Nearest (num / den) := by
  rcases Nat.eq_zero_or_pos num with rfl | hn
  · refine Binary64.nearest_zero ?_ (by simp) (by simp)
    simpa [nearestMagnitude] using hx
  obtain ⟨e, q, hm, hfine, precise, hrounds⟩ := nearestMagnitude_spec hn hd
  rcases Nat.lt_or_ge limit (nearestMagnitude num den) with hlimit | hlimit
  · rw [Nat.min_eq_right hlimit.le] at hx
    have hlarge : 972 ≤ e := by
      have hhigh := precise.high
      simp only [limit, binadeSize] at *
      omega
    refine Binary64.nearest_limit hx (le_trans ?_ (hfine (by omega)))
    exact zpow_le_zpow_right₀ (by norm_num) (by omega)
  · rw [Nat.min_eq_left hlimit] at hx
    exact Binary64.nearest_of_grid (hx.trans_le hlimit) precise (hx.trans hm) hfine hrounds

end Fraction

end InputGuard.Number
