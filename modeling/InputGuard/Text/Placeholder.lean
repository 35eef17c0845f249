/-! Templates with the placeholder `{type}`. Filling replaces each
occurrence, from left to right and without overlap; an inserted name is never
read again, even when it spells the placeholder itself. -/

namespace InputGuard.Text

def placeholder : List Char := ['\x7b', 't', 'y', 'p', 'e', '\x7d']

def fill (name : List Char) : List Char → List Char
  | [] => []
  | '\x7b' :: 't' :: 'y' :: 'p' :: 'e' :: '\x7d' :: r => name ++ fill name r
  | c :: r => c :: fill name r

def hasPlaceholder : List Char → Bool
  | [] => false
  | '\x7b' :: 't' :: 'y' :: 'p' :: 'e' :: '\x7d' :: _ => true
  | _ :: r => hasPlaceholder r

@[simp] theorem fill_placeholder (name r : List Char) :
    fill name (placeholder ++ r) = name ++ fill name r := rfl

/-- Filling in the placeholder's own text leaves a template as it is. -/
theorem fill_self (t : List Char) : fill placeholder t = t := by
  fun_induction fill placeholder t with
  | case1 => rfl
  | case2 r ih => exact congrArg (placeholder ++ ·) ih
  | case3 c r _ ih => rw [ih]

theorem fill_of_not_hasPlaceholder (name t : List Char) (h : hasPlaceholder t = false) :
    fill name t = t := by
  fun_induction hasPlaceholder t with
  | case1 => rfl
  | case2 => simp at h
  | case3 c r hne ih =>
    rw [fill, ih h]
    exact hne

end InputGuard.Text
