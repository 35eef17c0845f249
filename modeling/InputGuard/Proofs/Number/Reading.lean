import InputGuard.Proofs.Number.Nearest

/-! # Which texts are floats

A text is read as a float exactly if, between blanks, it is the notation of a decimal
that rounds to that float (`readFloat?_eq_some_iff`). A decimal that is too large, and
the words for infinity and for no number, read as floats that are not finite and are
refused (`SpelledFloat.readFloat?`). -/

namespace InputGuard.Number

variable {s text : List Char} {c : Char} {d : Decimal} {x y : Binary64}

/-! ## Decimals -/

namespace Decimal

/-- The sign of the decimal, and the number that is nearest to its size. -/
structure RoundsTo (d : Decimal) (x : Binary64) : Prop where
  sign : x.negative = d.negative
  nearest : x.Nearest d.absolute

theorem RoundsTo.unique (hx : d.RoundsTo x) (hy : d.RoundsTo y) : x = y := by
  rw [← x.ofMagnitude_magnitude, ← y.ofMagnitude_magnitude, hx.sign, hy.sign,
    hx.nearest.unique hy.nearest]

/-- A decimal overflows from half way between the largest finite number and `2 ^ 1024` on. -/
theorem RoundsTo.isFinite_iff (h : d.RoundsTo x) :
    x.isFinite = true ↔ d.absolute < 2 ^ (1024 : ℤ) - 2 ^ (970 : ℤ) := by
  have hlimit := h.nearest.magnitude_eq_limit_iff
  have hbounded := h.nearest.bounded
  rw [← not_le, ← hlimit, Binary64.isFinite, decide_eq_true_eq]
  omega

theorem roundsTo_ofMagnitude {m : ℕ} (hm : m ≤ Binary64.limit)
    (h : ∀ x : Binary64, x.magnitude = m → x.Nearest d.absolute) :
    ∃ x, d.RoundsTo x ∧ (if m < Binary64.limit then some (Binary64.ofMagnitude d.negative m)
      else none) = if x.isFinite then some x else none := by
  have hsign : m < Binary64.signBit := hm.trans_lt (by decide)
  refine ⟨.ofMagnitude d.negative m, ⟨Binary64.negative_ofMagnitude hsign, ?_⟩, ?_⟩
  · exact h _ (Binary64.magnitude_ofMagnitude hsign)
  · simp only [Binary64.isFinite_ofMagnitude hsign, decide_eq_true_eq]

/-- Also where the answer is known from the width of a decimal it is the nearest number. -/
theorem toBinary64?_spec (d : Decimal) :
    ∃ x, d.RoundsTo x ∧ d.toBinary64? = if x.isFinite then some x else none := by
  unfold toBinary64?
  dsimp only
  split
  · next hsmall =>
    have hlt : d.absolute < 2 ^ (-1075 : ℤ) := by
      rcases hsmall with h0 | hwidth
      · rw [absolute, h0, Nat.cast_zero, zero_mul]
        exact two_zpow_pos _
      · exact d.absolute_lt.trans_le
          ((zpow_le_zpow_right₀ (by norm_num) (by omega)).trans finest_lt.le)
    exact roundsTo_ofMagnitude (Nat.zero_le _) fun x hx =>
      Binary64.nearest_zero hx d.absolute_nonneg hlt
  · next hsmall =>
    rw [not_or] at hsmall
    split
    · next hlarge =>
      have hle : (2 : ℚ) ^ (1024 : ℤ) ≤ d.absolute :=
        largest_lt.le.trans ((zpow_le_zpow_right₀ (by norm_num) (by omega)).trans
          (le_absolute hsmall.1))
      exact roundsTo_ofMagnitude le_rfl fun x hx => Binary64.nearest_limit hx hle
    · generalize hm : nearestMagnitude (d.coefficient * powerOfTen d.exponent.toNat)
        (powerOfTen (-d.exponent).toNat) = m
      obtain ⟨x, hx, heq⟩ := roundsTo_ofMagnitude (Nat.min_le_right m Binary64.limit)
        fun x hx => d.absolute_eq_div ▸ nearest_nearestMagnitude (powerOfTen_pos _) (hm ▸ hx)
      refine ⟨x, hx, ?_⟩
      rw [← heq]
      split
      · next hlt => rw [Nat.min_eq_left hlt.le, if_pos hlt]
      · next hge => rw [Nat.min_eq_right (Nat.le_of_not_lt hge), if_neg (Nat.lt_irrefl _)]

theorem RoundsTo.toBinary64? (h : d.RoundsTo x) :
    d.toBinary64? = if x.isFinite then some x else none := by
  obtain ⟨y, hy, heq⟩ := d.toBinary64?_spec
  rw [heq, h.unique hy]

theorem toBinary64?_eq_some_iff :
    d.toBinary64? = some x ↔ d.RoundsTo x ∧ x.isFinite = true := by
  constructor
  · intro h
    obtain ⟨y, hy, heq⟩ := d.toBinary64?_spec
    rw [heq] at h
    split at h
    · next hfinite =>
      cases h
      exact ⟨hy, hfinite⟩
    · cases h
  · rintro ⟨h, hfinite⟩
    rw [h.toBinary64?, if_pos hfinite]

end Decimal

/-! ## Texts -/

/-- A word in any case. -/
def SpellsWord (word : String) (s : List Char) : Prop := s.map Char.toLower = word.toList

/-- The float that a text reads as, which need not be finite: the one that a decimal
rounds to, an infinity, or one that stands for no number. -/
inductive ReadsAsFloat : List Char → Binary64 → Prop where
  | number {s : List Char} {d : Decimal} {x : Binary64} (spells : SpellsDecimal s d)
      (rounds : d.RoundsTo x) : ReadsAsFloat s x
  | infinity {s w : List Char} {b : Bool} (sign : Sign s b)
      (word : SpellsWord "inf" w ∨ SpellsWord "infinity" w) :
    ReadsAsFloat (s ++ w) (.ofMagnitude b Binary64.limit)
  | nan {s w : List Char} {b : Bool} {x : Binary64} (sign : Sign s b) (word : SpellsWord "nan" w)
      (above : Binary64.limit < x.magnitude) : ReadsAsFloat (s ++ w) x

/-- A text that reads as a float, with blanks around. -/
def SpelledFloat (text : List Char) (x : Binary64) : Prop :=
  ∃ s, Text.Framed text s ∧ ReadsAsFloat s x

theorem eq_or_of_toLower {l : Char} (h : c.toLower = l) :
    c = l ∨ 65 ≤ c.toNat ∧ c.toNat ≤ 90 ∧ c.toNat + 32 = l.toNat := by
  unfold Char.toLower at h
  split at h
  · next hupper =>
    have hlow : 65 ≤ c.toNat := UInt32.le_iff_toNat_le.mp hupper.1
    have hhigh : c.toNat ≤ 90 := UInt32.le_iff_toNat_le.mp hupper.2
    subst h
    refine .inr ⟨hlow, hhigh, ?_⟩
    change c.toNat + 32 = (c.val + 32).toNat
    rw [UInt32.toNat_add]
    change c.toNat + 32 = (c.toNat + 32) % 2 ^ 32
    omega
  · exact .inl h

/-- The letters of the words that are no number, of which each word has an `n`. -/
structure Wordy (w : List Char) : Prop where
  letters : ∀ c ∈ w, 65 ≤ c.toNat ∧ c.toNat ≤ 122
  some : ∃ c ∈ w, c = 'n' ∨ c = 'N'

theorem SpellsWord.wordy {word : String} {w : List Char} (h : SpellsWord word w)
    (letters : ∀ l ∈ word.toList, 97 ≤ l.toNat ∧ l.toNat ≤ 122) (some : 'n' ∈ word.toList) :
    Wordy w := by
  constructor
  case letters =>
    intro c hc
    have hl := letters c.toLower (h ▸ List.mem_map_of_mem hc)
    rcases eq_or_of_toLower (c := c) rfl with heq | hupper
    · rw [← heq] at hl
      omega
    · omega
  case some =>
    rw [← h, List.mem_map] at some
    obtain ⟨c, hc, hn⟩ := some
    refine ⟨c, hc, (eq_or_of_toLower hn).imp id fun hupper => ?_⟩
    apply Char.toNat_inj.mp
    change c.toNat = 78
    have hn : 'n'.toNat = 110 := rfl
    omega

theorem ReadsAsFloat.number_or_wordy (h : ReadsAsFloat s x) :
    (∃ d, SpellsDecimal s d ∧ d.RoundsTo x) ∨
      x.isFinite = false ∧ ∃ b sign w, s = sign ++ w ∧ Sign sign b ∧ Wordy w := by
  cases h with
  | number spells rounds => exact .inl ⟨_, spells, rounds⟩
  | infinity sign word =>
    refine .inr ⟨?_, _, _, _, rfl, sign, ?_⟩
    · rw [Binary64.isFinite_ofMagnitude (by decide)]
      decide
    · rcases word with word | word
      · exact word.wordy (by simp) (by decide)
      · exact word.wordy (by simp) (by decide)
  | nan sign word above =>
    refine .inr ⟨?_, _, _, _, rfl, sign, word.wordy (by simp) (by decide)⟩
    exact decide_eq_false (by omega)

theorem SpellsDecimal.isBlank (h : SpellsDecimal s d) : ∀ c ∈ s, Text.isBlank c = false := by
  intro c hc
  rcases h.mem hc with hdigit | hmark
  · exact Text.isBlank_of_isDigit hdigit
  · simp only [List.mem_cons, List.not_mem_nil, or_false] at hmark
    rcases hmark with rfl | rfl | rfl | rfl | rfl <;> rfl

theorem Wordy.isBlank {w : List Char} (h : Wordy w) : ∀ c ∈ w, Text.isBlank c = false := by
  intro c hc
  have hletter := h.letters c hc
  simp only [Text.isBlank, Bool.or_eq_false_iff, Bool.and_eq_false_iff, beq_eq_false_iff_ne,
    decide_eq_false_iff_not]
  omega

theorem ReadsAsFloat.isBlank (h : ReadsAsFloat s x) : ∀ c ∈ s, Text.isBlank c = false := by
  rcases h.number_or_wordy with ⟨d, spells, -⟩ | ⟨-, b, sign, w, rfl, hsign, hwordy⟩
  · exact spells.isBlank
  · intro c hc
    rcases List.mem_append.mp hc with hc | hc
    · cases hsign with
      | none => cases hc
      | plus | minus =>
        rw [List.mem_singleton.mp hc]
        rfl
    · exact hwordy.isBlank c hc

theorem Wordy.not_spellsDecimal {w : List Char} (h : Wordy w) (sign : List Char) :
    ¬SpellsDecimal (sign ++ w) d := by
  intro spells
  obtain ⟨c, hc, hn⟩ := h.some
  have hmem := spells.mem (List.mem_append_right sign hc)
  rcases hn with rfl | rfl <;> revert hmem <;> decide

/-- A text that reads as a float is accepted if that float is finite. -/
theorem SpelledFloat.readFloat? (h : SpelledFloat text x) :
    readFloat? text = if x.isFinite then some x else none := by
  obtain ⟨s, hframed, h⟩ := h
  rw [Number.readFloat?, hframed.trim_eq h.isBlank]
  rcases h.number_or_wordy with ⟨d, spells, rounds⟩ | ⟨hinfinite, b, sign, w, rfl, -, hwordy⟩
  · rw [Decimal.read?_eq_some_iff.mpr spells]
    exact rounds.toBinary64?
  · have hnone : Decimal.read? (sign ++ w) = none := by
      rw [Option.eq_none_iff_forall_ne_some]
      exact fun d hd => hwordy.not_spellsDecimal sign (Decimal.read?_eq_some_iff.mp hd)
    rw [hnone, hinfinite]
    rfl

/-- Nothing else is accepted. -/
theorem readFloat?_eq_some_iff :
    readFloat? text = some x ↔ SpelledFloat text x ∧ x.isFinite = true := by
  constructor
  · intro h
    obtain ⟨d, hread, hd⟩ := Option.bind_eq_some_iff.mp h
    obtain ⟨rounds, hfinite⟩ := Decimal.toBinary64?_eq_some_iff.mp hd
    exact ⟨⟨_, Text.framed_trim text, .number (Decimal.read?_eq_some_iff.mp hread) rounds⟩, hfinite⟩
  · rintro ⟨h, hfinite⟩
    rw [h.readFloat?, if_pos hfinite]

/-- The border of overflow lies between two neighbours of twenty-one digits. -/
example : readFloat? "179769313486231580793e288".toList = some ⟨0x7FEFFFFFFFFFFFFF⟩ ∧
    readFloat? "179769313486231580794e288".toList = none := by
  decide +kernel

end InputGuard.Number
