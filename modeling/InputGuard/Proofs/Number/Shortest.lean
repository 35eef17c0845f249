import InputGuard.Proofs.Number.Decimal
import InputGuard.Proofs.Number.Neighbourhood
import Mathlib.Data.Nat.Cast.Order.Field

/-! # Shortest decimals read back

The search for a shortest decimal ends on a decimal in the interval of the number
(`shortest_covers`), so that reading what was written gives the same bits
(`readFloat?_writeFloat`). In particular no two finite numbers are written alike. -/

namespace InputGuard.Number

namespace Neighbourhood

variable {i : Neighbourhood} {k : ℤ}

theorem holds_of_pick? {c : ℕ} (h : i.pick? k = some c) : i.holds k c = true := by
  unfold pick? at h
  dsimp only at h
  split at h
  · next hc =>
    split at h
    · next hnext => cases h; exact hnext.1
    · cases h; exact hc
  · split at h
    · next hnext => cases h; exact hnext
    · cases h

/-- A grid finer than what lies above the number has a point in the interval. -/
theorem pick?_isSome (hden : 0 < i.den) (hlow : i.low ≤ i.value)
    (hfine : i.value * i.unit + 10 ^ k < i.high * i.unit) : ∃ c, i.pick? k = some c := by
  have hgrid : 0 < i.den * powerOfTen k.toNat := Nat.mul_pos hden (powerOfTen_pos _)
  have hk : (0 : ℚ) < 10 ^ k := zpow_pos (by norm_num) k
  have hunit : 0 ≤ i.unit := by unfold unit; positivity
  have hquot : ((i.value * (i.num * powerOfTen (-k).toNat) : ℕ) : ℚ) /
      (i.den * powerOfTen k.toNat : ℕ) = i.value * i.unit / 10 ^ k := by
    have hup : (powerOfTen k.toNat : ℚ) ≠ 0 := by exact_mod_cast (powerOfTen_pos _).ne'
    have hd : (i.den : ℚ) ≠ 0 := by exact_mod_cast hden.ne'
    rw [ten_zpow, unit]
    push_cast
    field_simp
  -- the point below the number and the one above it
  let c := i.value * (i.num * powerOfTen (-k).toNat) / (i.den * powerOfTen k.toNat)
  have hbelow : (c : ℚ) * 10 ^ k ≤ i.value * i.unit := by
    rw [← le_div_iff₀ hk, ← hquot]
    exact Nat.cast_div_le
  have habove : i.value * i.unit < ((c + 1 : ℕ) : ℚ) * 10 ^ k := by
    rw [← div_lt_iff₀ hk, ← hquot, div_lt_iff₀ (by exact_mod_cast hgrid)]
    have hlt := Nat.lt_mul_div_succ (i.value * (i.num * powerOfTen (-k).toNat)) hgrid
    rw [Nat.mul_comm (i.den * powerOfTen k.toNat)] at hlt
    exact_mod_cast hlt
  have hnext : i.holds k (c + 1) = true := by
    rw [holds_iff hden]
    apply Covers.of_lt
    · refine lt_of_le_of_lt (mul_le_mul_of_nonneg_right ?_ hunit) habove
      exact_mod_cast hlow
    · push_cast
      linarith
  unfold pick?
  dsimp only
  split
  · split
    · exact ⟨_, rfl⟩
    · exact ⟨_, rfl⟩
  · exact ⟨c + 1, rfl⟩

/-- The search finds a point if one of its grids has one. -/
theorem search_of_pick? {fuel n : ℕ} {c : ℕ} (hn : n < fuel) (h : i.pick? (k - n) = some c) :
    ∃ c' k', i.search fuel k = some (c', k') ∧ i.pick? k' = some c' := by
  induction fuel generalizing k n with
  | zero => omega
  | succ fuel ih =>
    unfold search
    cases hk : i.pick? k with
    | some c' => exact ⟨c', k, rfl, hk⟩
    | none =>
      cases n with
      | zero =>
        rw [Nat.cast_zero, sub_zero, hk] at h
        cases h
      | succ n =>
        refine ih (n := n) (by omega) ?_
        rw [← h]
        congr 1
        push_cast
        ring

end Neighbourhood

open Neighbourhood (ofBinary64 Covers)

variable {x : Binary64}

/-- The narrowest half place is wider than the finest grid. -/
theorem finest_lt : (10 : ℚ) ^ (-324 : ℤ) < 2 ^ (-1075 : ℤ) := by
  have h : (2 : ℚ) ^ 1075 < 10 ^ 324 := by
    exact_mod_cast (show 2 ^ 1075 < 10 ^ 324 by decide +kernel)
  have hinv := inv_strictAnti₀ (by positivity) h
  rw [zpow_neg, zpow_neg]
  exact_mod_cast hinv

theorem largest_lt : (2 : ℚ) ^ (1024 : ℤ) < 10 ^ (309 : ℤ) := by
  exact_mod_cast (show 2 ^ 1024 < 10 ^ 309 by decide +kernel)

theorem two_zpow_le_half (x : Binary64) : (2 : ℚ) ^ (-1075 : ℤ) ≤ 2 ^ x.exponent / 2 := by
  have hle := x.le_exponent
  calc (2 : ℚ) ^ (-1075 : ℤ) ≤ 2 ^ (x.exponent - 1) := zpow_le_zpow_right₀ (by norm_num) (by omega)
    _ = 2 ^ x.exponent / 2 := by rw [zpow_sub₀ (by norm_num), zpow_one]

/-- The finest grid of the search has a point in every interval. -/
theorem finest_grid (x : Binary64) : ∃ c, (ofBinary64 x).pick? (-324) = some c := by
  apply Neighbourhood.pick?_isSome (Neighbourhood.den_pos x)
  · simp only [ofBinary64]
    split <;> omega
  · have hhalf := finest_lt.trans_le (two_zpow_le_half x)
    rw [Neighbourhood.value_ofBinary64, Neighbourhood.high_ofBinary64, Binary64.absolute]
    linarith

/-- The decimal of a number other than zero lies in its interval. -/
theorem shortest_covers (h0 : x.magnitude ≠ 0) :
    (shortest x).negative = x.negative ∧ (ofBinary64 x).Covers (shortest x).absolute := by
  obtain ⟨c, hc⟩ := finest_grid x
  have hlast : (ofBinary64 x).pick? (308 - (632 : ℕ)) = some c := hc
  obtain ⟨c', k, hsearch, hpick⟩ :=
    Neighbourhood.search_of_pick? (show 632 < 633 by decide) hlast
  have hx : shortest x = ⟨x.negative, c', k⟩ := by
    simp only [shortest, h0, if_false, hsearch]
    rfl
  rw [hx]
  exact ⟨rfl, (Neighbourhood.holds_iff (Neighbourhood.den_pos x)).mp
    (Neighbourhood.holds_of_pick? hpick)⟩

/-- The bounds at which `toBinary64?` gives up are out of reach for a decimal in the
interval of a finite number. -/
theorem width_of_covers {d : Decimal} (hx : x.isFinite = true) (h0 : x.magnitude ≠ 0)
    (h : (ofBinary64 x).Covers d.absolute) :
    d.coefficient ≠ 0 ∧ -330 ≤ ((digits d.coefficient).length : ℤ) + d.exponent ∧
      ((digits d.coefficient).length : ℤ) + d.exponent ≤ 310 := by
  obtain ⟨hl, -, -⟩ := bounds_of_covers h0 h
  have hten : (1 : ℚ) < 10 := by norm_num
  have hs1 : (1 : ℚ) ≤ x.significand := by exact_mod_cast Binary64.significand_pos h0
  have hlow : (2 : ℚ) ^ (-1075 : ℤ) ≤ d.absolute := by
    have hhalf := two_zpow_le_half x
    have := mul_le_mul_of_nonneg_right (show (1 / 2 : ℚ) ≤ x.significand - 1 / 2 by linarith)
      (two_zpow_pos x.exponent).le
    linarith
  have hhigh : d.absolute < 2 ^ (1024 : ℤ) := by
    have hexp := Binary64.exponent_le hx
    exact (lt_of_covers h0 h).trans_le (zpow_le_zpow_right₀ (by norm_num) (by omega))
  have hpos : 0 < d.coefficient := by
    by_contra hz
    have hv := pos_of_covers h0 h
    rw [Decimal.absolute, show d.coefficient = 0 by omega, Nat.cast_zero, zero_mul] at hv
    exact lt_irrefl _ hv
  refine ⟨hpos.ne', ?_, ?_⟩
  · have := (zpow_lt_zpow_iff_right₀ hten).mp (finest_lt.trans_le (hlow.trans d.absolute_lt.le))
    omega
  · have hle := Decimal.le_absolute hpos.ne'
    have := (zpow_lt_zpow_iff_right₀ hten).mp (hle.trans_lt (hhigh.trans largest_lt))
    omega

/-- A decimal in the interval of a finite number is read as that number. -/
theorem toBinary64?_of_covers {d : Decimal} (hx : x.isFinite = true) (h0 : x.magnitude ≠ 0)
    (hs : d.negative = x.negative) (h : (ofBinary64 x).Covers d.absolute) :
    d.toBinary64? = some x := by
  obtain ⟨hne, hlow, hhigh⟩ := width_of_covers hx h0 h
  have hden := powerOfTen_pos (-d.exponent).toNat
  have hnear := nearestMagnitude_of_covers h0 hden (d.absolute_eq_div ▸ h)
  have hlimit : x.magnitude < Binary64.limit := of_decide_eq_true hx
  unfold Decimal.toBinary64?
  dsimp only
  rw [if_neg (by omega), if_neg (by omega), hnear, if_pos hlimit, hs,
    Binary64.ofMagnitude_magnitude]

/-- Nothing of a written number is trimmed. -/
theorem trim_plain (d : Decimal) : Text.trim d.plain = d.plain := by
  refine Text.trim_eq_self fun c hc => ?_
  rcases Decimal.mem_plain hc with rfl | rfl | hd
  · rfl
  · rfl
  · exact Text.isBlank_of_isDigit hd

/-- Reading what was written gives the same bits. -/
theorem readFloat?_writeFloat (hx : x.isFinite = true) : readFloat? (writeFloat x) = some x := by
  obtain ⟨d, hread, hsign, habs⟩ := Decimal.read?_plain (shortest x)
  unfold readFloat? writeFloat
  rw [trim_plain, hread]
  change d.toBinary64? = some x
  by_cases h0 : x.magnitude = 0
  · -- zero is written with the coefficient zero and is read back by its sign
    have hx : shortest x = ⟨x.negative, 0, 0⟩ := by
      simp only [shortest, h0, if_true]
      rfl
    have hzero : d.coefficient = 0 := by
      rw [hx, Decimal.absolute, Decimal.absolute, Nat.cast_zero, zero_mul, mul_eq_zero] at habs
      exact_mod_cast habs.resolve_right (zpow_pos (by norm_num) d.exponent).ne'
    have hneg : d.negative = x.negative := by rw [hsign, hx]
    unfold Decimal.toBinary64?
    dsimp only
    rw [if_pos (.inl hzero), hneg, ← h0, Binary64.ofMagnitude_magnitude]
  · obtain ⟨hneg, hcovers⟩ := shortest_covers h0
    exact toBinary64?_of_covers hx h0 (hsign.trans hneg) (habs ▸ hcovers)

/-- Different finite numbers are written differently. -/
theorem writeFloat_injective {y : Binary64} (hx : x.isFinite = true) (hy : y.isFinite = true)
    (h : writeFloat x = writeFloat y) : x = y := by
  have hread := readFloat?_writeFloat hx
  rw [h, readFloat?_writeFloat hy] at hread
  exact (Option.some.inj hread).symm

/-- What is read is finite. -/
theorem isFinite_of_readFloat? {s : List Char} (h : readFloat? s = some x) :
    x.isFinite = true := by
  obtain ⟨d, -, hd⟩ := Option.bind_eq_some_iff.mp h
  have hfinite {b : Bool} {m : ℕ} (hm : m < Binary64.limit) :
      (Binary64.ofMagnitude b m).isFinite = true := by
    rw [Binary64.isFinite_ofMagnitude (hm.trans (by decide))]
    exact decide_eq_true hm
  unfold Decimal.toBinary64? at hd
  dsimp only at hd
  split at hd
  · cases hd
    exact hfinite (by decide)
  · split at hd
    · cases hd
    · split at hd
      · next hm =>
        cases hd
        exact hfinite hm
      · cases hd

end InputGuard.Number
