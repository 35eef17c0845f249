import Mathlib.Data.List.Basic
import Mathlib.Data.List.Induction

/-! # Occurrences of a pattern in a list

A pattern occurs in a list at every place where the list can be cut into what
stands before it, the pattern, and what stands after it. An element that the
pattern does not have, except at its end, closes all occurrences that were begun
before it, so they can be counted on its two sides (`occurrences_close`). -/

namespace InputGuard.Vtl

variable {α : Type} [DecidableEq α]

/-- How often a pattern occurs in a list. -/
def occurrences (p : List α) : List α → Nat
  | [] => 0
  | a :: l => (if p <+: a :: l then 1 else 0) + occurrences p l

variable {p q u v l before after : List α} {s x : α}

omit [DecidableEq α] in
theorem prefix_close_iff (hs : s ∉ p.dropLast) : p <+: u ++ s :: v ↔ p <+: u ++ [s] := by
  have hshort : u ++ [s] <+: u ++ s :: v := ⟨v, by simp⟩
  constructor
  · intro h
    rcases List.prefix_or_prefix_of_prefix h hshort with hp | ⟨t, rfl⟩
    · exact hp
    · cases t using List.reverseRecOn with
      | nil => simp
      | append_singleton t y =>
        rw [← List.append_assoc, List.dropLast_concat] at hs
        exact absurd (by simp) hs
  · intro h
    exact h.trans hshort

theorem occurrences_close (hs : s ∉ p.dropLast) :
    occurrences p (u ++ s :: v) = occurrences p (u ++ [s]) + occurrences p v := by
  induction u with
  | nil =>
    have hp := prefix_close_iff (u := []) (v := v) hs
    simp only [List.nil_append] at hp
    simp [occurrences, hp]
  | cons a u ih =>
    have hp := prefix_close_iff (u := a :: u) (v := v) hs
    simp only [List.cons_append] at hp
    simp only [List.cons_append, occurrences, hp, ih, Nat.add_assoc]

theorem occurrences_of_notMem (hx : x ∈ p) (hl : x ∉ l) : occurrences p l = 0 := by
  induction l with
  | nil => rfl
  | cons a l ih =>
    have hp : ¬p <+: a :: l := fun h => hl (h.subset hx)
    simp only [List.mem_cons, not_or] at hl
    rw [occurrences, if_neg hp, ih hl.2]

theorem occurrences_concat_of_notMem (hp : p ≠ []) (hs : s ∉ p) :
    occurrences p (u ++ [s]) = occurrences p u := by
  induction u with
  | nil =>
    have hshort : ¬p <+: [s] := by
      intro h
      rw [← List.nil_append [s], List.prefix_concat_iff, List.prefix_nil] at h
      rcases h with rfl | h
      · exact hs (by simp)
      · exact hp h
    simp [occurrences, hshort]
  | cons a u ih =>
    have hstarts : p <+: a :: (u ++ [s]) ↔ p <+: a :: u := by
      rw [← List.cons_append, List.prefix_concat_iff, or_iff_right]
      rintro rfl
      exact hs (by simp)
    simp only [List.cons_append, occurrences, hstarts, ih]

/-- A pattern ends with the list if the list does so before its last element. -/
theorem occurrences_concat (q l : List α) (x : α) :
    occurrences (q ++ [x]) (l ++ [x]) =
      occurrences (q ++ [x]) l + if q <:+ l then 1 else 0 := by
  induction l with
  | nil =>
    have hp : q ++ [x] <+: [x] ↔ q <:+ [] := by
      rw [List.suffix_nil, ← List.nil_append [x], List.prefix_concat_iff]
      simp
    simp [occurrences, hp]
  | cons a l ih =>
    have hstarts : q ++ [x] <+: a :: (l ++ [x]) ↔ q = a :: l ∨ q ++ [x] <+: a :: l := by
      rw [← List.cons_append, List.prefix_concat_iff, List.append_left_inj]
    have hsuffix : q <:+ a :: l ↔ q = a :: l ∨ q <:+ l := List.suffix_cons_iff
    rw [List.cons_append, occurrences, occurrences, ih]
    simp only [hstarts, hsuffix]
    by_cases hq : q = a :: l
    · -- the pattern is as long as the list, so it ends nowhere else
      have hlen : q.length = l.length + 1 := by simp [hq]
      have hlong : ¬q ++ [x] <+: a :: l := by
        intro h
        have := h.length_le
        simp only [List.length_append, List.length_cons, List.length_nil] at this
        omega
      have hlong' : ¬q <:+ l := by
        intro h
        have := h.length_le
        omega
      rw [if_pos (.inl hq), if_neg hlong, if_neg hlong', if_pos (.inl hq)]
      omega
    · simp only [hq, false_or]
      omega

theorem occurrences_pos (p before after : List α) (hp : p ≠ []) :
    0 < occurrences p (before ++ p ++ after) := by
  induction before with
  | nil =>
    obtain ⟨a, p, rfl⟩ := List.exists_cons_of_ne_nil hp
    have h : a :: p <+: a :: (p ++ after) := ⟨after, by simp⟩
    simp only [List.nil_append, List.cons_append, occurrences, if_pos h]
    omega
  | cons b before ih =>
    simp only [List.cons_append, occurrences]
    omega

omit [DecidableEq α] in
/-- An occurrence lies on one side of an element that closes it. -/
theorem split_close (hs : s ∉ p.dropLast) (h : u ++ s :: v = before ++ p ++ after) :
    (∃ after', u ++ [s] = before ++ p ++ after' ∧ after = after' ++ v) ∨
      ∃ before', v = before' ++ p ++ after ∧ before = u ++ s :: before' := by
  have hcut : u ++ [s] ++ v = before ++ p ++ after := by simpa using h
  rcases List.append_eq_append_iff.mp hcut with ⟨xs, hxs, hv⟩ | ⟨xs, hxs, ha⟩
  · rcases List.append_eq_append_iff.mp hxs with ⟨ys, hys, rfl⟩ | ⟨ys, rfl, rfl⟩
    · -- the closing element is inside the pattern, so at its end
      cases xs using List.reverseRecOn with
      | nil => exact .inl ⟨[], by simpa using hys, by simpa using hv.symm⟩
      | append_singleton xs y =>
        cases ys using List.reverseRecOn with
        | nil => exact .inr ⟨[], by simpa using hv, by simpa using hys.symm⟩
        | append_singleton ys z =>
          rw [← List.append_assoc, List.dropLast_concat] at hs
          rw [← List.append_assoc] at hys
          have hz : s = z := by simpa using congrArg List.getLast? hys
          exact absurd (by simp [hz]) hs
    · exact .inr ⟨ys, hv, by simp⟩
  · exact .inl ⟨xs, hxs, ha⟩

theorem occurrences_eq_zero (h : ∀ before after, l ≠ before ++ p ++ after) :
    occurrences p l = 0 := by
  induction l with
  | nil => rfl
  | cons a l ih =>
    have hstarts : ¬p <+: a :: l := fun ⟨after, hafter⟩ => h [] after hafter.symm
    have hl : ∀ before after, l ≠ before ++ p ++ after := by
      intro before after hl
      exact h (a :: before) after (by simp [hl])
    rw [occurrences, if_neg hstarts, ih hl]

theorem occurrences_eq_one (hp : p ≠ [])
    (h : ∀ before after, u ++ p ++ v = before ++ p ++ after → before = u) :
    occurrences p (u ++ p ++ v) = 1 := by
  induction u with
  | nil =>
    obtain ⟨a, p, rfl⟩ := List.exists_cons_of_ne_nil hp
    have hfirst : a :: p <+: a :: (p ++ v) := ⟨v, by simp⟩
    have hlater : occurrences (a :: p) (p ++ v) = 0 := by
      refine occurrences_eq_zero fun before after hl => ?_
      cases h (a :: before) after (by simp [hl])
    rw [List.nil_append, List.cons_append, occurrences, if_pos hfirst, hlater]
  | cons a u ih =>
    have hfirst : ¬p <+: a :: (u ++ p ++ v) := by
      rintro ⟨after, hafter⟩
      cases h [] after (by simpa using hafter.symm)
    have hu : ∀ before after, u ++ p ++ v = before ++ p ++ after → before = u := by
      intro before after hl
      exact (List.cons.inj (h (a :: before) after (by simp [hl]))).2
    rw [List.cons_append, List.cons_append, occurrences, if_neg hfirst, ih hu]

/-! ## What stands beside the occurrences -/

/-- The pattern occurs this often, each time between these two lists. -/
structure Stands (left p right : List α) (n : Nat) (l : List α) : Prop where
  count : occurrences p l = n
  beside : ∀ before after, l = before ++ p ++ after → left <:+ before ∧ right <+: after

namespace Stands

variable {left right : List α} {m n : Nat}

theorem none (hp : p ≠ []) (h : occurrences p l = 0) : Stands left p right 0 l where
  count := h
  beside := by
    intro before after hl
    have hpos := occurrences_pos p before after hp
    rw [← hl, h] at hpos
    omega

/-- An element of the pattern that is nowhere else in the list marks its place. -/
theorem unique {q r : List α} (hp : p = q ++ x :: r) (hu : x ∉ u ++ q) (hv : x ∉ r ++ v)
    (hleft : left <:+ u) (hright : right <+: v) : Stands left p right 1 (u ++ p ++ v) := by
  have hcut : ∀ before after, u ++ p ++ v = before ++ p ++ after →
      before = u ∧ after = v := by
    subst hp
    intro before after h
    simp only [List.append_assoc, List.cons_append] at h
    rw [← List.append_assoc, ← List.append_assoc before,
      List.append_cons_inj_of_notMem hu hv] at h
    obtain ⟨hbefore, -, hafter⟩ := h
    exact ⟨(List.append_cancel_right hbefore).symm, (List.append_cancel_left hafter).symm⟩
  refine ⟨occurrences_eq_one (by simp [hp]) fun before after h => (hcut before after h).1, ?_⟩
  intro before after h
  obtain ⟨rfl, rfl⟩ := hcut before after h
  exact ⟨hleft, hright⟩

theorem close (hs : s ∉ p.dropLast) (hu : Stands left p right m (u ++ [s]))
    (hv : Stands left p right n v) : Stands left p right (m + n) (u ++ s :: v) where
  count := by rw [occurrences_close hs, hu.count, hv.count]
  beside := by
    intro before after h
    rcases split_close hs h with ⟨after', hu', rfl⟩ | ⟨before', hv', rfl⟩
    · obtain ⟨hl, hr⟩ := hu.beside _ _ hu'
      exact ⟨hl, hr.trans (List.prefix_append _ _)⟩
    · obtain ⟨hl, hr⟩ := hv.beside _ _ hv'
      exact ⟨hl.trans ⟨u ++ [s], by simp⟩, hr⟩

theorem concat (hp : p ≠ []) (hs : s ∉ p) (hu : Stands left p right n u) :
    Stands left p right n (u ++ [s]) where
  count := by rw [occurrences_concat_of_notMem hp hs, hu.count]
  beside := by
    intro before after h
    cases after using List.reverseRecOn with
    | nil =>
      obtain ⟨q, x, rfl⟩ : ∃ q x, p = q ++ [x] :=
        ⟨p.dropLast, p.getLast hp, (List.dropLast_concat_getLast hp).symm⟩
      have hx : s = x := by simpa [← List.append_assoc] using congrArg List.getLast? h
      exact absurd (by simp [hx]) hs
    | append_singleton after y =>
      rw [← List.append_assoc] at h
      obtain ⟨hl, hr⟩ := hu.beside before after (List.append_inj_left' h rfl)
      exact ⟨hl, hr.trans (List.prefix_append _ _)⟩

/-- An element that the pattern does not have stands apart. -/
theorem apart (hp : p ≠ []) (hs : s ∉ p) (hu : Stands left p right m u)
    (hv : Stands left p right n v) : Stands left p right (m + n) (u ++ s :: v) :=
  close (fun h => hs (List.dropLast_subset p h)) (hu.concat hp hs) hv

end Stands
end InputGuard.Vtl
