import InputGuard.Proofs.Number.Notation
import InputGuard.Proofs.Number.Rounding

/-! # Positional notation

Positional notation has digits on both sides of one point (`positional_eq`), and
reading it gives a decimal of the same sign and size (`read?_plain`). -/

namespace InputGuard.Number

theorem powerOfTen_pos (n : ℕ) : 0 < powerOfTen n := Nat.pow_pos (by decide)

/-- A power of ten as it is computed on naturals. -/
theorem ten_zpow (k : ℤ) :
    (10 : ℚ) ^ k = (powerOfTen k.toNat : ℚ) / (powerOfTen (-k).toNat : ℚ) := by
  simp only [powerOfTen, Nat.pow_eq]
  exact_mod_cast zpow_eq_div 10 k

theorem ofDigits_append (s t : List Char) :
    ofDigits (s ++ t) = ofDigits s * 10 ^ t.length + ofDigits t := by
  simp only [ofDigits, Nat.ofDigitChars_append]
  rw [Nat.ofDigitChars_eq_ofDigitChars_zero, Nat.mul_comm]

theorem ofDigits_zeros (n : ℕ) : ofDigits (List.replicate n '0') = 0 := by
  simp [ofDigits, Nat.ofDigitChars_replicate_zero]

theorem isDigit_of_mem_zeros {n : ℕ} {c : Char} (h : c ∈ List.replicate n '0') :
    c.isDigit = true := by
  rw [List.eq_of_mem_replicate h]
  rfl

theorem lt_pow_length_digits (n : ℕ) : n < 10 ^ (digits n).length :=
  (Nat.length_toDigits_le_iff (by decide) Nat.length_toDigits_pos).mp le_rfl

theorem pow_length_digits_le {n : ℕ} (h : 0 < n) : 10 ^ ((digits n).length - 1) ≤ n := by
  have hpos : 0 < (digits n).length := Nat.length_toDigits_pos
  rcases Nat.eq_zero_or_pos ((digits n).length - 1) with h1 | h1
  · rwa [h1, pow_zero]
  · by_contra hlt
    have := (Nat.length_toDigits_le_iff (by decide) h1).mpr (Nat.lt_of_not_le hlt)
    change (digits n).length ≤ _ at this
    omega

namespace Decimal

/-- The number without its sign. -/
def absolute (d : Decimal) : ℚ := d.coefficient * 10 ^ d.exponent

/-- Positional notation: digits, a point and digits. -/
theorem positional_eq (n : ℕ) (e : ℤ) :
    ∃ whole fraction, positional n e = whole ++ '.' :: fraction ∧ whole ≠ [] ∧ fraction ≠ [] ∧
      (∀ c ∈ whole, c.isDigit = true) ∧ (∀ c ∈ fraction, c.isDigit = true) ∧
      (ofDigits (whole ++ fraction) : ℚ) * 10 ^ (-fraction.length : ℤ) = n * 10 ^ e := by
  have hdigit {c : Char} {l : List Char} (hl : l ⊆ digits n) (hc : c ∈ l) : c.isDigit = true :=
    isDigit_of_mem_digits (hl hc)
  have hne := digits_ne_nil n
  unfold positional
  dsimp only
  split
  · next he =>
    refine ⟨digits n ++ List.replicate e.toNat '0', ['0'], rfl, by simp [hne], by simp, ?_,
      by simp, ?_⟩
    · intro c hc
      rcases List.mem_append.mp hc with hc | hc
      · exact isDigit_of_mem_digits hc
      · exact isDigit_of_mem_zeros hc
    · have hz : ofDigits ['0'] = 0 := ofDigits_zeros 1
      have hcast : (e.toNat : ℤ) = e := Int.toNat_of_nonneg he
      rw [ofDigits_append, ofDigits_append, ofDigits_zeros, ofDigits_digits, hz]
      rw [← hcast, Int.toNat_natCast, zpow_natCast]
      simp
  · next he =>
    have hplaces : ((-e).toNat : ℤ) = -e := Int.toNat_of_nonneg (by omega)
    split
    · next hlt =>
      refine ⟨(digits n).take ((digits n).length - (-e).toNat),
        (digits n).drop ((digits n).length - (-e).toNat), rfl, ?_, ?_,
        fun c => hdigit (List.take_subset _ _), fun c => hdigit (List.drop_subset _ _), ?_⟩
      · refine List.ne_nil_of_length_pos ?_
        rw [List.length_take]
        omega
      · refine List.ne_nil_of_length_pos ?_
        rw [List.length_drop]
        omega
      · have hlen : ((digits n).drop ((digits n).length - (-e).toNat)).length = (-e).toNat := by
          rw [List.length_drop]
          omega
        rw [List.take_append_drop, ofDigits_digits, hlen, hplaces, neg_neg]
    · next hge =>
      refine ⟨['0'], List.replicate ((-e).toNat - (digits n).length) '0' ++ digits n, rfl,
        by simp, by simp [hne], by simp, ?_, ?_⟩
      · intro c hc
        rcases List.mem_append.mp hc with hc | hc
        · exact isDigit_of_mem_zeros hc
        · exact isDigit_of_mem_digits hc
      · have hlen : (List.replicate ((-e).toNat - (digits n).length) '0' ++ digits n).length =
            (-e).toNat := by
          rw [List.length_append, List.length_replicate]
          omega
        have hz : ofDigits ['0'] = 0 := ofDigits_zeros 1
        rw [hlen, hplaces, neg_neg, ofDigits_append, ofDigits_append, hz, ofDigits_zeros,
          ofDigits_digits, Nat.zero_mul, Nat.zero_mul, Nat.zero_add, Nat.zero_add]

/-- A sign for negatives, and digits on both sides of a point. -/
theorem plain_eq (d : Decimal) : ∃ whole fraction,
    d.plain = (if d.negative then ['-'] else []) ++ (whole ++ '.' :: fraction) ∧
      isNumeral whole = true ∧ isNumeral fraction = true ∧
      absolute ⟨d.negative, ofDigits (whole ++ fraction), -fraction.length⟩ = d.absolute := by
  obtain ⟨whole, fraction, hpos, hw, hf, hwd, hfd, hvalue⟩ :=
    positional_eq d.coefficient d.exponent
  refine ⟨whole, fraction, ?_, isNumeral_iff.mpr ⟨hw, hwd⟩, isNumeral_iff.mpr ⟨hf, hfd⟩, hvalue⟩
  unfold plain
  rw [hpos]
  cases d.negative with
  | true => rfl
  | false => rfl

theorem spells_plain {whole fraction : List Char} (b : Bool) (hw : isNumeral whole = true)
    (hf : isNumeral fraction = true) :
    SpellsDecimal ((if b then ['-'] else []) ++ (whole ++ '.' :: fraction))
      ⟨b, ofDigits (whole ++ fraction), -fraction.length⟩ := by
  have hsign : Sign (if b then ['-'] else []) b := by
    cases b with
    | true => exact .minus
    | false => exact .none
  have hdigits : isNumeral (whole ++ fraction) = true := by
    obtain ⟨hne, hw⟩ := isNumeral_iff.mp hw
    refine isNumeral_iff.mpr ⟨by simp [hne], fun c hc => ?_⟩
    exact (List.mem_append.mp hc).elim (hw c) ((isNumeral_iff.mp hf).2 c)
  simpa using SpellsDecimal.mk hsign .point hdigits .none

/-- What is read back has the same sign and size. -/
theorem read?_plain (d : Decimal) :
    ∃ d', read? d.plain = some d' ∧ d'.negative = d.negative ∧ d'.absolute = d.absolute := by
  obtain ⟨whole, fraction, hplain, hw, hf, hvalue⟩ := plain_eq d
  refine ⟨⟨d.negative, ofDigits (whole ++ fraction), -fraction.length⟩, ?_, rfl, hvalue⟩
  rw [hplain, read?_eq_some_iff]
  exact spells_plain d.negative hw hf

/-- The size as the fraction that is rounded. -/
theorem absolute_eq_div (d : Decimal) :
    d.absolute = ((d.coefficient * powerOfTen d.exponent.toNat : ℕ) : ℚ) /
      (powerOfTen (-d.exponent).toNat : ℕ) := by
  rw [absolute, ten_zpow]
  push_cast
  ring

theorem absolute_nonneg (d : Decimal) : 0 ≤ d.absolute :=
  mul_nonneg (Nat.cast_nonneg _) (zpow_pos (by norm_num) _).le

theorem absolute_lt (d : Decimal) :
    d.absolute < 10 ^ (((digits d.coefficient).length : ℤ) + d.exponent) := by
  rw [zpow_add₀ (by norm_num), zpow_natCast]
  exact mul_lt_mul_of_pos_right (by exact_mod_cast lt_pow_length_digits _)
    (zpow_pos (by norm_num) _)

theorem le_absolute {d : Decimal} (h : d.coefficient ≠ 0) :
    (10 : ℚ) ^ (((digits d.coefficient).length : ℤ) - 1 + d.exponent) ≤ d.absolute := by
  have hlen : 1 ≤ (digits d.coefficient).length := Nat.length_toDigits_pos
  have hcast : ((digits d.coefficient).length : ℤ) - 1 =
      ((digits d.coefficient).length - 1 : ℕ) := by omega
  rw [zpow_add₀ (by norm_num), hcast, zpow_natCast]
  exact mul_le_mul_of_nonneg_right
    (by exact_mod_cast pow_length_digits_le (Nat.pos_of_ne_zero h)) (zpow_pos (by norm_num) _).le

end Decimal
end InputGuard.Number
