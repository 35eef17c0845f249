import InputGuard.Text.Blank
import InputGuard.Text.Identifier
import Mathlib.Data.List.TakeWhile

/-! # Trimming

A text is its trimmed form with blanks on both sides, and more blanks on either
side do not change that form. -/

namespace InputGuard.Text

variable {s b : List Char} {c : Char}

theorem trimStart_blanks (hb : ∀ c ∈ b, isBlank c = true) (s : List Char) :
    trimStart (b ++ s) = trimStart s :=
  List.dropWhile_append_of_pos hb

theorem trimEnd_blanks (s : List Char) (hb : ∀ c ∈ b, isBlank c = true) :
    trimEnd (s ++ b) = trimEnd s := by
  have hreverse : ∀ c ∈ b.reverse, isBlank c = true := fun c hc => hb c (List.mem_reverse.mp hc)
  rw [trimEnd, List.reverse_append, List.dropWhile_append_of_pos hreverse, trimEnd]

theorem trimStart_eq_nil_iff : trimStart s = [] ↔ ∀ c ∈ s, isBlank c = true :=
  List.dropWhile_eq_nil_iff

theorem trimStart_append (h : trimStart s ≠ []) (r : List Char) :
    trimStart (s ++ r) = trimStart s ++ r := by
  have hne : ¬(s.dropWhile isBlank).isEmpty = true := by simpa [trimStart] using h
  rw [trimStart, List.dropWhile_append, if_neg hne, trimStart]

theorem trim_blanks (hb : ∀ c ∈ b, isBlank c = true) (s : List Char) : trim (b ++ s) = trim s := by
  rw [trim, trimStart_blanks hb, trim]

theorem trim_append_blanks (s : List Char) (hb : ∀ c ∈ b, isBlank c = true) :
    trim (s ++ b) = trim s := by
  by_cases h : trimStart s = []
  · have hs := trimStart_eq_nil_iff.mp h
    have hboth : trimStart (s ++ b) = [] := by
      rw [trimStart_blanks hs, trimStart_eq_nil_iff]
      exact hb
    rw [trim, trim, hboth, h]
  · rw [trim, trimStart_append h, trimEnd_blanks _ hb, trim]

/-- Blanks inside of a text that does not end with one are kept. -/
theorem trim_concat (s : List Char) (hc : isBlank c = false) :
    trim (s ++ [c]) = trimStart s ++ [c] := by
  have hend (r : List Char) : trimEnd (r ++ [c]) = r ++ [c] := by
    rw [trimEnd, List.reverse_append, List.reverse_singleton, List.singleton_append,
      List.dropWhile_cons_of_neg (by simp [hc]), List.reverse_cons, List.reverse_reverse]
  by_cases h : trimStart s = []
  · have hs := trimStart_eq_nil_iff.mp h
    have hlast : trimStart [c] = [c] := List.dropWhile_cons_of_neg (by simp [hc])
    rw [trim, trimStart_blanks hs, h, hlast]
    exact hend []
  · rw [trim, trimStart_append h, hend]

theorem exists_trimStart (s : List Char) :
    ∃ b, (∀ c ∈ b, isBlank c = true) ∧ s = b ++ trimStart s :=
  ⟨s.takeWhile isBlank, fun _ hc => List.mem_takeWhile_imp hc, List.takeWhile_append_dropWhile.symm⟩

theorem trim_trimStart (s : List Char) : trim (trimStart s) = trim s := by
  obtain ⟨b, hb, hs⟩ := exists_trimStart s
  calc trim (trimStart s) = trim (b ++ trimStart s) := (trim_blanks hb _).symm
    _ = trim s := by rw [← hs]

theorem exists_trim (s : List Char) : ∃ b e, (∀ c ∈ b, isBlank c = true) ∧
    (∀ c ∈ e, isBlank c = true) ∧ s = b ++ trim s ++ e := by
  obtain ⟨b, hb, hs⟩ := exists_trimStart s
  obtain ⟨e, he, hreverse⟩ := exists_trimStart (trimStart s).reverse
  refine ⟨b, e.reverse, hb, fun c hc => he c (List.mem_reverse.mp hc), ?_⟩
  have hend : trimStart s = trim s ++ e.reverse := by
    rw [trim, trimEnd, ← List.reverse_append]
    exact List.reverse_eq_iff.mp hreverse
  rw [List.append_assoc, ← hend]
  exact hs

theorem isBlank_of_isFollowing (h : isFollowing c = true) : isBlank c = false := by
  have hrange : c.toNat = 95 ∨ 48 ≤ c.toNat ∧ c.toNat ≤ 57 ∨ 65 ≤ c.toNat ∧ c.toNat ≤ 90 ∨
      97 ≤ c.toNat ∧ c.toNat ≤ 122 := by
    change (c == '_' || ((decide (c.val ≥ 65 ∧ c.val ≤ 90) ||
      decide (c.val ≥ 97) && decide (c.val ≤ 122)) ||
        decide (c.val ≥ 48) && decide (c.val ≤ 57))) = true at h
    simp only [Bool.or_eq_true, Bool.and_eq_true, beq_iff_eq, decide_eq_true_eq, ge_iff_le,
      UInt32.le_iff_toNat_le] at h
    rcases h with rfl | (h | h) | h
    · exact .inl rfl
    · exact .inr (.inr (.inl h))
    · exact .inr (.inr (.inr h))
    · exact .inr (.inl h)
  simp only [isBlank, Bool.or_eq_false_iff, Bool.and_eq_false_iff, beq_eq_false_iff_ne,
    decide_eq_false_iff_not]
  omega

/-! ## Texts that are trimmed already -/

/-- No white space stands at either end of a text. -/
def Trimmed (s : List Char) : Prop :=
  ∀ c, s.head? = some c ∨ s.getLast? = some c → isBlank c = false

theorem trimStart_eq_self (h : ∀ c, s.head? = some c → isBlank c = false) : trimStart s = s := by
  cases s with
  | nil => rfl
  | cons c s => exact List.dropWhile_cons_of_neg (by simp [h c rfl])

theorem Trimmed.trim_eq (h : Trimmed s) : trim s = s := by
  have hend : ∀ c, s.reverse.head? = some c → isBlank c = false := by
    intro c hc
    rw [List.head?_reverse] at hc
    exact h c (.inr hc)
  have hreverse := trimStart_eq_self hend
  rw [trim, trimStart_eq_self fun c hc => h c (.inl hc), trimEnd, ← trimStart, hreverse,
    List.reverse_reverse]

/-- A text is another one with blanks around it. -/
def Framed (text s : List Char) : Prop :=
  ∃ before after, text = before ++ s ++ after ∧ (∀ c ∈ before, isBlank c = true) ∧
    ∀ c ∈ after, isBlank c = true

theorem framed_trim (text : List Char) : Framed text (trim text) := by
  obtain ⟨before, after, hbefore, hafter, htext⟩ := exists_trim text
  exact ⟨before, after, htext, hbefore, hafter⟩

theorem Framed.trim_eq {text : List Char} (h : Framed text s)
    (hs : ∀ c ∈ s, isBlank c = false) : trim text = s := by
  obtain ⟨before, after, rfl, hbefore, hafter⟩ := h
  rw [trim_append_blanks _ hafter, trim_blanks hbefore, trim_eq_self hs]

end InputGuard.Text
