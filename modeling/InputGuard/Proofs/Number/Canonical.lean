import InputGuard.Proofs.Number.Integer
import InputGuard.Proofs.Text.Blank
import Mathlib.Data.List.Basic
import Mathlib.Data.List.Induction

/-! # Which texts are integers

A text is read as an integer exactly if it is an optional sign and digits between
blanks (`readInteger?_eq_some_iff`), and the text that is written for an integer is
the only canonical one (`canonical_iff`). -/

namespace InputGuard.Number

variable {s text : List Char} {n : Int} {v : Int64}

/-! ## Digits -/

theorem isNumeral_iff : isNumeral s = true ↔ s ≠ [] ∧ ∀ c ∈ s, c.isDigit = true := by
  simp [isNumeral]

theorem digit_of_isDigit {c : Char} (h : c.isDigit = true) :
    ∃ d < 10, c.toNat - '0'.toNat = d ∧ c = d.digitChar := by
  obtain ⟨hlow, hhigh⟩ := Char.isDigit_iff_toNat.mp h
  have hzero : '0'.toNat = 48 := rfl
  have hnine : '9'.toNat = 57 := rfl
  refine ⟨c.toNat - 48, by omega, rfl, ?_⟩
  apply Char.toNat_inj.mp
  rw [Nat.toNat_digitChar_of_lt_ten (by omega)]
  omega

theorem ofDigits_pos (hs : isNumeral s = true) (hlead : s.head? ≠ some '0') : 0 < ofDigits s := by
  cases s with
  | nil => cases hs
  | cons c r =>
    obtain ⟨d, -, hvalue, hc⟩ := digit_of_isDigit ((isNumeral_iff.mp hs).2 c List.mem_cons_self)
    have hd : d ≠ 0 := by
      rintro rfl
      exact hlead (congrArg some hc)
    rw [ofDigits, Nat.ofDigitChars_cons, hvalue, Nat.ofDigitChars_eq_ofDigitChars_zero]
    exact Nat.add_pos_left (Nat.mul_pos (Nat.pow_pos (by decide)) (by omega)) _

theorem ofDigits_concat (s : List Char) (c : Char) :
    ofDigits (s ++ [c]) = 10 * ofDigits s + (c.toNat - '0'.toNat) := by
  rw [ofDigits, Nat.ofDigitChars_append, Nat.ofDigitChars_cons, Nat.ofDigitChars_nil, ofDigits]

theorem digits_concat {m d : Nat} (hm : 0 < m) (hd : d < 10) :
    digits (10 * m + d) = digits m ++ [d.digitChar] := by
  rw [digits, ← Nat.toDigits_append_toDigits (by decide) hm hd, Nat.toDigits_of_lt_base hd, digits]

theorem head?_digits {m : Nat} (h : 0 < m) : (digits m).head? ≠ some '0' := by
  induction m using Nat.strongRecOn with
  | ind m ih =>
    by_cases hm : m < 10
    · rw [digits, Nat.toDigits_of_lt_base hm, List.head?_cons, ne_eq, Option.some.injEq]
      intro hzero
      have hchar := congrArg Char.toNat hzero
      rw [Nat.toNat_digitChar_of_lt_ten hm, show '0'.toNat = 48 from rfl] at hchar
      omega
    · have hquot : 0 < m / 10 := by omega
      rw [← Nat.div_add_mod m 10, digits_concat hquot (Nat.mod_lt m (by decide)),
        List.head?_append_of_ne_nil _ (digits_ne_nil _)]
      exact ih (m / 10) (by omega) hquot

/-- Digits without a leading zero are those of the number they make. -/
theorem digits_ofDigits (hs : isNumeral s = true) (hlead : s.head? ≠ some '0') :
    digits (ofDigits s) = s := by
  induction s using List.reverseRecOn with
  | nil => cases hs
  | append_singleton s c ih =>
    obtain ⟨-, hdigit⟩ := isNumeral_iff.mp hs
    obtain ⟨d, hd, hvalue, rfl⟩ := digit_of_isDigit (hdigit c (by simp))
    rw [ofDigits_concat, hvalue]
    by_cases hnil : s = []
    · subst hnil
      simp [ofDigits, digits, Nat.toDigits_of_lt_base hd]
    · rw [List.head?_append_of_ne_nil _ hnil] at hlead
      have hs : isNumeral s = true :=
        isNumeral_iff.mpr ⟨hnil, fun c hc => hdigit c (List.mem_append_left _ hc)⟩
      rw [digits_concat (ofDigits_pos hs hlead) hd, ih hs hlead]

/-! ## Reading -/

/-- An optional sign and one digit or more, with the number they make. -/
inductive SpellsInteger : List Char → Int → Prop where
  | unsigned {s : List Char} (digits : isNumeral s = true) : SpellsInteger s (ofDigits s)
  | plus {s : List Char} (digits : isNumeral s = true) : SpellsInteger ('+' :: s) (ofDigits s)
  | minus {s : List Char} (digits : isNumeral s = true) :
    SpellsInteger ('-' :: s) (-(ofDigits s : Int))

theorem spellsInteger_iff : SpellsInteger s n ↔
    isNumeral (splitSign s).2 = true ∧ signed (splitSign s).1 (ofDigits (splitSign s).2) = n := by
  constructor
  · intro h
    cases h with
    | unsigned hs =>
      rw [splitSign_of_isDigit (isNumeral_iff.mp hs).2]
      exact ⟨hs, rfl⟩
    | plus hs => exact ⟨hs, rfl⟩
    | minus hs => exact ⟨hs, rfl⟩
  · rintro ⟨hs, rfl⟩
    unfold splitSign at hs ⊢
    split at hs
    · exact .minus hs
    · exact .plus hs
    · exact .unsigned hs

theorem SpellsInteger.unique {m : Int} (h : SpellsInteger s n) (h' : SpellsInteger s m) :
    n = m := by
  rw [spellsInteger_iff] at h h'
  exact h.2.symm.trans h'.2

theorem readInteger?_eq_some_iff :
    readInteger? text = some v ↔ SpellsInteger (Text.trim text) v.toInt := by
  rw [spellsInteger_iff]
  simp only [readInteger?]
  constructor
  · intro h
    split at h
    · next hif =>
      obtain ⟨hnumeral, hlow, hhigh⟩ := hif
      cases h
      exact ⟨hnumeral, (Int64.toInt_ofInt_of_le hlow (Int.lt_add_one_iff.mpr hhigh)).symm⟩
    · cases h
  · rintro ⟨hnumeral, hvalue⟩
    rw [hvalue, if_pos ⟨hnumeral, inRange_toInt v⟩, Int64.ofInt_toInt]

/-- A text that spells an integer, with blanks around. -/
def Spelled (text : List Char) (n : Int) : Prop := ∃ s, Text.Framed text s ∧ SpellsInteger s n

theorem SpellsInteger.isBlank (h : SpellsInteger s n) : ∀ c ∈ s, Text.isBlank c = false := by
  have hdigits {s : List Char} (hs : isNumeral s = true) : ∀ c ∈ s, Text.isBlank c = false :=
    fun c hc => Text.isBlank_of_isDigit ((isNumeral_iff.mp hs).2 c hc)
  cases h with
  | unsigned hs => exact hdigits hs
  | plus hs => exact List.forall_mem_cons.mpr ⟨rfl, hdigits hs⟩
  | minus hs => exact List.forall_mem_cons.mpr ⟨rfl, hdigits hs⟩

theorem spelled_iff : Spelled text n ↔ SpellsInteger (Text.trim text) n := by
  constructor
  · rintro ⟨s, hframed, h⟩
    rwa [hframed.trim_eq h.isBlank]
  · exact fun h => ⟨_, Text.framed_trim text, h⟩

/-! ## Writing -/

/-- Digits without a leading zero, with a minus for a negative number. -/
inductive Canonical : List Char → Int → Prop where
  | zero : Canonical ['0'] 0
  | positive {s : List Char} (digits : isNumeral s = true) (lead : s.head? ≠ some '0') :
    Canonical s (ofDigits s)
  | negative {s : List Char} (digits : isNumeral s = true) (lead : s.head? ≠ some '0') :
    Canonical ('-' :: s) (-(ofDigits s : Int))

theorem canonical_writeInteger (v : Int64) : Canonical (writeInteger v) v.toInt := by
  have hvalue : v.toInt = 0 ∨ 0 < v.toInt ∨ v.toInt < 0 := by omega
  have hcanonical {m : Nat} (hm : 0 < m) := And.intro (isNumeral_digits m) (head?_digits hm)
  unfold writeInteger
  rcases hvalue with h | h | h
  · rw [h]
    exact .zero
  · obtain ⟨hdigits, hlead⟩ := hcanonical (by omega : 0 < v.toInt.natAbs)
    have hpositive := Canonical.positive hdigits hlead
    rw [ofDigits_digits, Int.natAbs_of_nonneg (Int.le_of_lt h)] at hpositive
    rwa [if_neg (by omega)]
  · obtain ⟨hdigits, hlead⟩ := hcanonical (by omega : 0 < v.toInt.natAbs)
    have hnegative := Canonical.negative hdigits hlead
    rw [ofDigits_digits, Int.ofNat_natAbs_of_nonpos (Int.le_of_lt h), Int.neg_neg] at hnegative
    rwa [if_pos h]

theorem canonical_iff : Canonical s v.toInt ↔ s = writeInteger v := by
  constructor
  · intro h
    unfold writeInteger
    generalize v.toInt = n at h
    cases h with
    | zero => rfl
    | positive hs hlead =>
      rw [if_neg (by omega), Int.natAbs_natCast, digits_ofDigits hs hlead]
    | negative hs hlead =>
      have hpos := ofDigits_pos hs hlead
      rw [if_pos (by omega), Int.natAbs_neg, Int.natAbs_natCast, digits_ofDigits hs hlead]
  · rintro rfl
    exact canonical_writeInteger v

end InputGuard.Number
