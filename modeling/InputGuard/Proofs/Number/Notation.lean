import InputGuard.Number.Decimal
import InputGuard.Proofs.Number.Canonical
import Mathlib.Data.List.TakeWhile

/-! # Decimal notation

The texts that are read as a decimal are an optional sign, digits with at most one
point among them, and an optional power of ten (`Decimal.read?_eq_some_iff`). -/

namespace InputGuard.Number

variable {s whole fraction : List Char} {b : Bool} {n : Int} {c : Char} {d : Decimal}

/-- An optional sign, and whether it is a minus. -/
inductive Sign : List Char → Bool → Prop where
  | none : Sign [] false
  | plus : Sign ['+'] false
  | minus : Sign ['-'] true

/-- The digits before and after a point, which need not be there. -/
inductive Mantissa : List Char → List Char → List Char → Prop where
  | plain {whole : List Char} : Mantissa whole whole []
  | point {whole fraction : List Char} : Mantissa (whole ++ '.' :: fraction) whole fraction

/-- An optional power of ten. -/
inductive Power : List Char → Int → Prop where
  | none : Power [] 0
  | mark {c : Char} {s : List Char} {n : Int} (mark : c = 'e' ∨ c = 'E')
      (spells : SpellsInteger s n) : Power (c :: s) n

/-- The notation of a decimal number: one digit or more, on either side of the point. -/
inductive SpellsDecimal : List Char → Decimal → Prop where
  | mk {s m p whole fraction : List Char} {b : Bool} {n : Int} (sign : Sign s b)
      (mantissa : Mantissa m whole fraction) (digits : isNumeral (whole ++ fraction) = true)
      (power : Power p n) :
    SpellsDecimal (s ++ (m ++ p)) ⟨b, ofDigits (whole ++ fraction), n - fraction.length⟩

/-! ## Signs -/

theorem exists_sign (s : List Char) :
    ∃ sign, Sign sign (splitSign s).1 ∧ s = sign ++ (splitSign s).2 := by
  unfold splitSign
  split
  · exact ⟨_, .minus, rfl⟩
  · exact ⟨_, .plus, rfl⟩
  · exact ⟨_, .none, rfl⟩

theorem Sign.splitSign_append {sign : List Char} (h : Sign sign b)
    (hs : ∀ c, s.head? = some c → c ≠ '-' ∧ c ≠ '+') : splitSign (sign ++ s) = (b, s) := by
  cases h with
  | plus => rfl
  | minus => rfl
  | none =>
    rw [List.nil_append]
    unfold splitSign
    split
    · exact absurd rfl (hs _ rfl).1
    · exact absurd rfl (hs _ rfl).2
    · rfl

/-! ## Digits and a point -/

section Characters

variable {m : List Char}

theorem Mantissa.mem (h : Mantissa m whole fraction) (digits : isNumeral (whole ++ fraction) = true)
    (hc : c ∈ m) : c.isDigit = true ∨ c = '.' := by
  have hdigit := (isNumeral_iff.mp digits).2
  cases h with
  | plain => exact .inl (hdigit c (List.mem_append_left _ hc))
  | point =>
    rcases List.mem_append.mp hc with hc | hc
    · exact .inl (hdigit c (List.mem_append_left _ hc))
    · rcases List.mem_cons.mp hc with rfl | hc
      · exact .inr rfl
      · exact .inl (hdigit c (List.mem_append_right _ hc))

theorem Mantissa.ne_nil (h : Mantissa m whole fraction)
    (digits : isNumeral (whole ++ fraction) = true) : m ≠ [] := by
  cases h with
  | plain => simpa using (isNumeral_iff.mp digits).1
  | point => simp

/-- No sign stands in front of the digits. -/
theorem Mantissa.append_ne_sign (h : Mantissa m whole fraction)
    (digits : isNumeral (whole ++ fraction) = true) (p : List Char) :
    ∀ c, (m ++ p).head? = some c → c ≠ '-' ∧ c ≠ '+' := by
  intro c hc
  rw [List.head?_append_of_ne_nil _ (h.ne_nil digits)] at hc
  have hdigit := h.mem digits (List.mem_of_mem_head? hc)
  constructor <;> rintro rfl <;> simp at hdigit

theorem Mantissa.not_isExponentMark (h : Mantissa m whole fraction)
    (digits : isNumeral (whole ++ fraction) = true) :
    ∀ c ∈ m, (!Decimal.isExponentMark c) = true := by
  intro c hc
  have hdigit := h.mem digits hc
  rw [Bool.not_eq_true', Decimal.isExponentMark, Bool.or_eq_false_iff, beq_eq_false_iff_ne,
    beq_eq_false_iff_ne]
  constructor <;> rintro rfl <;> simp at hdigit

theorem Power.isExponentMark (h : Power s n) :
    ∀ c, s.head? = some c → Decimal.isExponentMark c = true := by
  intro c hc
  cases h with
  | none => cases hc
  | mark mark =>
    cases hc
    simpa [Decimal.isExponentMark] using mark

end Characters

namespace Decimal

theorem splitPoint?_eq_some_iff : splitPoint? s = some (whole, fraction) ↔
    Mantissa s whole fraction ∧ isNumeral (whole ++ fraction) = true := by
  have hpoint : ('.' : Char).isDigit ≠ true := by decide
  constructor
  · intro h
    have hsplit := List.takeWhile_append_dropWhile (p := Char.isDigit) (l := s)
    have hwhole : ∀ c ∈ s.takeWhile Char.isDigit, c.isDigit = true :=
      fun c hc => List.mem_takeWhile_imp hc
    unfold splitPoint? at h
    dsimp only at h
    split at h
    · next hrest =>
      rw [hrest, List.append_nil] at hsplit
      split at h
      · cases h
      · next hne =>
        cases h
        rw [List.isEmpty_iff, hsplit] at hne
        rw [hsplit] at hwhole ⊢
        exact ⟨.plain, isNumeral_iff.mpr (by simpa using ⟨hne, hwhole⟩)⟩
    · next hrest =>
      split at h
      · next hif =>
        cases h
        rw [hrest] at hsplit
        simp only [Bool.and_eq_true, List.all_eq_true, Bool.not_eq_true', Bool.and_eq_false_iff,
          List.isEmpty_eq_false_iff] at hif
        generalize s.takeWhile Char.isDigit = whole at *
        subst hsplit
        refine ⟨.point, isNumeral_iff.mpr ⟨?_, ?_⟩⟩
        · simpa [or_iff_not_imp_left] using hif.2
        · simpa [or_imp, forall_and] using ⟨hwhole, hif.1⟩
      · cases h
    · cases h
  · rintro ⟨hmantissa, hdigits⟩
    obtain ⟨hne, hdigits⟩ := isNumeral_iff.mp hdigits
    simp only [List.mem_append, or_imp, forall_and] at hdigits
    obtain ⟨hwhole, hfraction⟩ := hdigits
    unfold splitPoint?
    cases hmantissa with
    | plain =>
      have hne : s ≠ [] := by simpa using hne
      rw [List.takeWhile_eq_self_iff.mpr hwhole, List.dropWhile_eq_nil_iff.mpr hwhole]
      simp [hne]
    | point =>
      rw [List.takeWhile_append_of_pos hwhole, List.dropWhile_append_of_pos hwhole,
        List.takeWhile_cons_of_neg hpoint, List.dropWhile_cons_of_neg hpoint, List.append_nil]
      have hall := List.all_eq_true.mpr hfraction
      have hsome : (whole.isEmpty && fraction.isEmpty) = false := by
        simpa [or_iff_not_imp_left] using hne
      simp [hall, hsome]

/-! ## Powers of ten -/

theorem isExponentMark_iff : isExponentMark c = true ↔ c = 'e' ∨ c = 'E' := by
  simp [isExponentMark]

/-- What follows the digits of a number, if anything does. -/
def readPower? : List Char → Option Int
  | [] => some 0
  | _ :: s => readExponent? s

theorem readPower?_eq_some_iff (hs : ∀ c, s.head? = some c → isExponentMark c = true) :
    readPower? s = some n ↔ Power s n := by
  cases s with
  | nil =>
    rw [readPower?, Option.some.injEq]
    refine ⟨fun h => h ▸ .none, fun h => ?_⟩
    cases h
    rfl
  | cons c s =>
    have hmark := isExponentMark_iff.mp (hs c rfl)
    have hread : readPower? (c :: s) = some n ↔ SpellsInteger s n := by
      rw [spellsInteger_iff]
      simp [readPower?, readExponent?]
    refine hread.trans ⟨.mark hmark, fun h => ?_⟩
    cases h with
    | mark _ spells => exact spells

theorem read?_eq_bind (s : List Char) : read? s =
    (readPower? ((splitSign s).2.dropWhile (!isExponentMark ·))).bind fun n =>
      (splitPoint? ((splitSign s).2.takeWhile (!isExponentMark ·))).bind fun p =>
        some ⟨(splitSign s).1, ofDigits (p.1 ++ p.2), n - p.2.length⟩ := by
  unfold read?
  dsimp only
  split
  · next hrest =>
    rw [hrest]
    rfl
  · next hrest =>
    rw [hrest]
    rfl

/-! ## The whole notation -/

theorem read?_eq_some_iff : read? s = some d ↔ SpellsDecimal s d := by
  constructor
  · intro h
    obtain ⟨sign, hsign, hs⟩ := exists_sign s
    rw [read?_eq_bind] at h
    simp only [Option.bind_eq_some_iff, Option.some.injEq] at h
    obtain ⟨n, hpower, ⟨whole, fraction⟩, hpoint, rfl⟩ := h
    obtain ⟨hmantissa, hdigits⟩ := splitPoint?_eq_some_iff.mp hpoint
    have hmark : ∀ c, ((splitSign s).2.dropWhile (!isExponentMark ·)).head? = some c →
        isExponentMark c = true := by
      intro c hc
      have hhead := List.head?_dropWhile_not (!isExponentMark ·) (splitSign s).2
      rw [hc] at hhead
      simpa using hhead
    have hspells := SpellsDecimal.mk hsign hmantissa hdigits
      ((readPower?_eq_some_iff hmark).mp hpower)
    rwa [List.takeWhile_append_dropWhile, ← hs] at hspells
  · intro h
    cases h with
    | @mk _ m p whole fraction b n sign mantissa digits power =>
      have hsign := sign.splitSign_append (mantissa.append_ne_sign digits p)
      have hmark : ∀ c, p.head? = some c → isExponentMark c = true := power.isExponentMark
      have htake : (m ++ p).takeWhile (!isExponentMark ·) = m := by
        rw [List.takeWhile_append_of_pos (mantissa.not_isExponentMark digits)]
        cases p with
        | nil => simp
        | cons c p => simp [hmark c rfl]
      have hdrop : (m ++ p).dropWhile (!isExponentMark ·) = p := by
        rw [List.dropWhile_append_of_pos (mantissa.not_isExponentMark digits)]
        cases p with
        | nil => simp
        | cons c p => simp [hmark c rfl]
      rw [read?_eq_bind, hsign]
      simp only [htake, hdrop, (readPower?_eq_some_iff hmark).mpr power,
        splitPoint?_eq_some_iff.mpr ⟨mantissa, digits⟩, Option.bind_some]

end Decimal

theorem SpellsDecimal.unique {d' : Decimal} (h : SpellsDecimal s d) (h' : SpellsDecimal s d') :
    d = d' := by
  rw [← Decimal.read?_eq_some_iff] at h h'
  exact Option.some.inj (h.symm.trans h')

theorem SpellsInteger.mem (h : SpellsInteger s n) (hc : c ∈ s) :
    c.isDigit = true ∨ c = '-' ∨ c = '+' := by
  cases h with
  | unsigned digits => exact .inl ((isNumeral_iff.mp digits).2 c hc)
  | plus digits =>
    exact (List.mem_cons.mp hc).elim (.inr ∘ .inr) (.inl ∘ (isNumeral_iff.mp digits).2 c)
  | minus digits =>
    exact (List.mem_cons.mp hc).elim (.inr ∘ .inl) (.inl ∘ (isNumeral_iff.mp digits).2 c)

/-- The characters of a number. -/
theorem SpellsDecimal.mem (h : SpellsDecimal s d) (hc : c ∈ s) :
    c.isDigit = true ∨ c ∈ ['.', '-', '+', 'e', 'E'] := by
  have hone {c : Char} (h : c.isDigit = true ∨ c = '-' ∨ c = '+') :
      c.isDigit = true ∨ c ∈ ['.', '-', '+', 'e', 'E'] := by
    rcases h with h | rfl | rfl <;> simp [*]
  cases h with
  | mk sign mantissa digits power =>
    rcases List.mem_append.mp hc with hc | hc
    · cases sign with
      | none => cases hc
      | plus | minus => simp_all
    · rcases List.mem_append.mp hc with hc | hc
      · rcases mantissa.mem digits hc with h | rfl <;> simp [*]
      · cases power with
        | none => cases hc
        | mark mark spells =>
          rcases List.mem_cons.mp hc with rfl | hc
          · rcases mark with rfl | rfl <;> simp
          · exact hone (spells.mem hc)

end InputGuard.Number
