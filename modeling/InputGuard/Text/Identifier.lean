/-! Identifiers: an ASCII letter or underscore followed by ASCII letters, digits
and underscores. Field names, type names, error types and the segments of a
reference are all of this form, so each of them can stand in generated code. -/

namespace InputGuard.Text

def isInitial (c : Char) : Bool := c == '_' || c.isAlpha

def isFollowing (c : Char) : Bool := c == '_' || c.isAlphanum

def isIdentifier : List Char → Bool
  | [] => false
  | c :: r => isInitial c && r.all isFollowing

theorem isFollowing_of_isInitial {c : Char} (h : isInitial c = true) : isFollowing c = true := by
  simp only [isInitial, isFollowing, Char.isAlphanum, Bool.or_eq_true] at *
  exact h.imp_right Or.inl

theorem isFollowing_of_mem {s : List Char} (h : isIdentifier s = true) {c : Char} (hc : c ∈ s) :
    isFollowing c = true := by
  cases s with
  | nil => cases hc
  | cons a r =>
    simp only [isIdentifier, Bool.and_eq_true, List.all_eq_true] at h
    rcases List.mem_cons.mp hc with rfl | hr
    · exact isFollowing_of_isInitial h.1
    · exact h.2 c hr

end InputGuard.Text
