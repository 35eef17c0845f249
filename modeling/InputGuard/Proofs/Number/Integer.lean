import InputGuard.Number.Integer

/-! # Written integers read back -/

namespace InputGuard.Number

theorem trim_writeInteger (v : Int64) : Text.trim (writeInteger v) = writeInteger v := by
  refine Text.trim_eq_self fun c hc => ?_
  rcases mem_writeInteger hc with rfl | hd
  · rfl
  · exact Text.isBlank_of_isDigit hd

theorem splitSign_of_isDigit {s : List Char} (h : ∀ c ∈ s, c.isDigit = true) :
    splitSign s = (false, s) := by
  unfold splitSign
  split
  · cases h _ List.mem_cons_self
  · cases h _ List.mem_cons_self
  · rfl

theorem splitSign_digits (n : Nat) : splitSign (digits n) = (false, digits n) :=
  splitSign_of_isDigit fun _ => isDigit_of_mem_digits

theorem splitSign_writeInteger (v : Int64) :
    splitSign (writeInteger v) = (decide (v.toInt < 0), digits v.toInt.natAbs) := by
  unfold writeInteger
  split
  · next h => simp [splitSign, h]
  · next h => simp [splitSign_digits, h]

/-- Reading what was written gives the same integer. -/
theorem readInteger?_writeInteger (v : Int64) : readInteger? (writeInteger v) = some v := by
  have hsigned : signed (decide (v.toInt < 0)) v.toInt.natAbs = v.toInt := by
    unfold signed
    split
    · next h =>
      have := of_decide_eq_true h
      omega
    · next h =>
      have : ¬v.toInt < 0 := fun hlt => h (decide_eq_true hlt)
      omega
  simp only [readInteger?, trim_writeInteger, splitSign_writeInteger, ofDigits_digits, hsigned]
  rw [if_pos ⟨isNumeral_digits _, inRange_toInt v⟩, Int64.ofInt_toInt]

theorem writeInteger_injective {v w : Int64} (h : writeInteger v = writeInteger w) : v = w := by
  have hread := readInteger?_writeInteger v
  rw [h, readInteger?_writeInteger w] at hread
  exact (Option.some.inj hread).symm

end InputGuard.Number
