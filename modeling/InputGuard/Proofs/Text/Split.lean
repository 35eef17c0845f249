import InputGuard.Text.Split

/-! # Cutting at separators and joining again

Cutting is that of lists in general (`splitOn_eq`). Joining the pieces of a text gives
the text back (`intercalate_splitOn`), and cutting a joined text gives back the pieces,
provided they hold no separator (`splitOn_intercalate`). -/

namespace InputGuard.Text

theorem splitOn_eq (sep : Char) (s : List Char) : splitOn sep s = s.splitOn sep := by
  induction s with
  | nil => rfl
  | cons c r ih =>
    rw [List.splitOn, List.splitOnP_cons_eq_if_modifyHead, ← List.splitOn, ← ih, splitOn]
    by_cases hc : c = sep
    · simp [hc]
    · obtain ⟨p, ps, hr⟩ := List.exists_cons_of_ne_nil (splitOn_ne_nil sep r)
      simp [hc, hr]

/-- Pieces are cut at a separator in the middle as they are cut on either side. -/
theorem splitOn_append_cons (sep : Char) (s r : List Char) :
    splitOn sep (s ++ sep :: r) = splitOn sep s ++ splitOn sep r := by
  simp only [splitOn_eq, List.splitOn]
  exact List.splitOnP_append_cons s r (beq_self_eq_true sep)

theorem splitOn_intercalate {sep : Char} {p : List Char} {ps : List (List Char)}
    (h : ∀ q ∈ p :: ps, sep ∉ q) : splitOn sep ([sep].intercalate (p :: ps)) = p :: ps := by
  rw [splitOn_eq, List.splitOn_intercalate sep h (List.cons_ne_nil p ps)]

theorem intercalate_splitOn (sep : Char) (s : List Char) :
    [sep].intercalate (splitOn sep s) = s := by
  rw [splitOn_eq, List.intercalate_splitOn]

end InputGuard.Text
