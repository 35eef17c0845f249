import InputGuard.Text.Placeholder
import Mathlib.Data.List.Infix

/-! # The parts of a template

A template is cut at its placeholders into parts that hold none (`exists_parts`), and
filling it puts the name between the parts (`fill_intercalate`). With two parts or
more, the name can be told from the filled text by its length
(`intercalate_injective`). -/

namespace InputGuard.Text

variable {name name' p r t : List Char} {parts : List (List Char)}

/-- No placeholder stands in the text. -/
def Plain (t : List Char) : Prop := ¬placeholder <:+: t

theorem hasPlaceholder_iff : hasPlaceholder t = true ↔ placeholder <:+: t := by
  fun_induction hasPlaceholder t with
  | case1 => simp [placeholder]
  | case2 r => exact iff_of_true rfl (List.prefix_append placeholder r).isInfix
  | case3 c r hne ih =>
    have hfirst : ¬placeholder <+: c :: r := by
      rintro ⟨s, hs⟩
      obtain ⟨rfl, rfl⟩ := List.cons.inj hs
      exact hne s rfl rfl
    rw [ih, List.infix_cons_iff, or_iff_right hfirst]

theorem Plain.tail {c : Char} (h : Plain (c :: p)) : Plain p :=
  fun hp => h (List.infix_cons_iff.mpr (.inr hp))

theorem fill_cons {c : Char} (h : ¬placeholder <+: c :: r) :
    fill name (c :: r) = c :: fill name r := by
  rw [fill]
  rintro s rfl rfl
  exact h (List.prefix_append placeholder s)

/-- The brace that opens a placeholder does not come back in it, so the end of a part
and the placeholder behind it never give another one. -/
theorem prefix_of_prefix_append (hp : p ≠ []) (h : placeholder <+: p ++ (placeholder ++ r)) :
    placeholder <+: p := by
  match p with
  | [] => exact absurd rfl hp
  | [_] | [_, _] | [_, _, _] | [_, _, _, _] | [_, _, _, _, _] =>
    simp [placeholder] at h
  | _ :: _ :: _ :: _ :: _ :: _ :: _ =>
    simpa [placeholder] using h

theorem fill_plain (h : Plain p) : fill name p = p :=
  fill_of_not_hasPlaceholder name p
    (Bool.eq_false_iff.mpr fun hp => h (hasPlaceholder_iff.mp hp))

theorem fill_append_placeholder (h : Plain p) :
    fill name (p ++ (placeholder ++ r)) = p ++ (name ++ fill name r) := by
  induction p with
  | nil => rfl
  | cons c p ih =>
    have hfirst : ¬placeholder <+: c :: (p ++ (placeholder ++ r)) := fun hfirst =>
      h (prefix_of_prefix_append (List.cons_ne_nil c p) hfirst).isInfix
    rw [List.cons_append, fill_cons hfirst, ih h.tail, List.cons_append]

theorem fill_intercalate (h : ∀ p ∈ parts, Plain p) :
    fill name (placeholder.intercalate parts) = name.intercalate parts := by
  induction parts with
  | nil => rfl
  | cons p parts ih =>
    obtain ⟨hp, hparts⟩ := List.forall_mem_cons.mp h
    cases parts with
    | nil => rw [List.intercalate_singleton, List.intercalate_singleton, fill_plain hp]
    | cons q parts =>
      rw [List.intercalate_cons_cons, List.intercalate_cons_cons, List.append_assoc,
        fill_append_placeholder hp, ih hparts, List.append_assoc]

theorem prefix_intercalate (name p : List Char) (parts : List (List Char)) :
    p <+: name.intercalate (p :: parts) := by
  cases parts with
  | nil => rw [List.intercalate_singleton]
  | cons q parts =>
    rw [List.intercalate_cons_cons, List.append_assoc]
    exact List.prefix_append p _

theorem intercalate_cons_first (name p : List Char) (c : Char) (parts : List (List Char)) :
    name.intercalate ((c :: p) :: parts) = c :: name.intercalate (p :: parts) := by
  cases parts with
  | nil => rw [List.intercalate_singleton, List.intercalate_singleton]
  | cons q parts => rw [List.intercalate_cons_cons, List.intercalate_cons_cons]; rfl

theorem exists_parts (t : List Char) :
    ∃ p parts, (∀ q ∈ p :: parts, Plain q) ∧ t = placeholder.intercalate (p :: parts) := by
  have hnil : Plain [] := by simp [Plain, placeholder]
  fun_induction fill placeholder t with
  | case1 => exact ⟨[], [], by simpa using hnil, rfl⟩
  | case2 r ih =>
    obtain ⟨p, parts, hparts, rfl⟩ := ih
    exact ⟨[], p :: parts, List.forall_mem_cons.mpr ⟨hnil, hparts⟩, rfl⟩
  | case3 c r hne ih =>
    obtain ⟨p, parts, hparts, hr⟩ := ih
    obtain ⟨hp, hparts⟩ := List.forall_mem_cons.mp hparts
    refine ⟨c :: p, parts, List.forall_mem_cons.mpr ⟨?_, hparts⟩, ?_⟩
    · rw [Plain, List.infix_cons_iff]
      rintro (hbegin | hinside)
      · -- a placeholder at the beginning of the part is one at the beginning of the template
        have hpart := hbegin.trans (prefix_intercalate placeholder (c :: p) parts)
        rw [intercalate_cons_first, ← hr] at hpart
        obtain ⟨s, hs⟩ := hpart
        obtain ⟨rfl, rfl⟩ := List.cons.inj hs
        exact hne s rfl rfl
      · exact hp hinside
    · rw [intercalate_cons_first, ← hr]

/-- Every part but the first one has the name in front of it. -/
theorem length_intercalate (name p : List Char) (parts : List (List Char)) :
    (name.intercalate (p :: parts)).length =
      parts.length * name.length + (p :: parts).flatten.length := by
  induction parts generalizing p with
  | nil => simp
  | cons q parts ih =>
    rw [List.intercalate_cons_cons, List.length_append, ih]
    simp only [List.flatten_cons, List.length_append, List.length_cons, Nat.succ_mul]
    omega

theorem intercalate_injective (hparts : 2 ≤ parts.length)
    (h : name.intercalate parts = name'.intercalate parts) : name = name' := by
  match parts with
  | [] | [_] => simp at hparts
  | p :: q :: parts =>
    have hlength := congrArg List.length h
    rw [length_intercalate, length_intercalate, Nat.add_right_cancel_iff] at hlength
    have hname : name.length = name'.length := Nat.eq_of_mul_eq_mul_left (Nat.succ_pos _) hlength
    rw [List.intercalate_cons_cons, List.intercalate_cons_cons, List.append_assoc,
      List.append_assoc] at h
    exact (List.append_inj (List.append_cancel_left h) hname).1

/-- A template with a placeholder has a part on either side of it. -/
theorem two_le_length (h : hasPlaceholder (placeholder.intercalate parts) = true)
    (hparts : ∀ p ∈ parts, Plain p) : 2 ≤ parts.length := by
  match parts with
  | [] => cases h
  | [p] =>
    rw [List.intercalate_singleton, hasPlaceholder_iff] at h
    exact absurd h (hparts p List.mem_cons_self)
  | _ :: _ :: _ => simp

end InputGuard.Text
