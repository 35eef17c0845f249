/-! Taking a text apart at a separator. `splitOn` cuts at every separator, so
the pieces are one more than the separators; `cut` cuts at the first one only. -/

namespace InputGuard.Text

def splitOn (sep : Char) : List Char → List (List Char)
  | [] => [[]]
  | c :: r =>
    if c = sep then [] :: splitOn sep r
    else match splitOn sep r with
      | [] => [[c]]
      | p :: ps => (c :: p) :: ps

theorem splitOn_ne_nil (sep : Char) (s : List Char) : splitOn sep s ≠ [] := by
  cases s with
  | nil => simp [splitOn]
  | cons c r =>
    simp only [splitOn]
    split
    · simp
    · split <;> simp

theorem splitOn_of_not_mem (sep : Char) (p : List Char) (hp : sep ∉ p) : splitOn sep p = [p] := by
  induction p with
  | nil => rfl
  | cons c p ih =>
    simp only [List.mem_cons, not_or] at hp
    simp [splitOn, Ne.symm hp.1, ih hp.2]

/-- Nothing but separators is lost between the pieces. -/
theorem mem_splitOn (sep : Char) {s : List Char} {x : Char} (hx : x ∈ s) :
    x = sep ∨ ∃ p ∈ splitOn sep s, x ∈ p := by
  fun_induction splitOn sep s with
  | case1 => cases hx
  | case2 r ih =>
    rcases List.mem_cons.mp hx with rfl | hr
    · exact .inl rfl
    · exact (ih hr).imp id fun ⟨p, hp, hxp⟩ => ⟨p, List.mem_cons_of_mem _ hp, hxp⟩
  | case3 c r _ hn => exact absurd hn (splitOn_ne_nil sep r)
  | case4 c r _ p ps hs ih =>
    rcases List.mem_cons.mp hx with rfl | hr
    · exact .inr ⟨x :: p, List.mem_cons_self, List.mem_cons_self⟩
    · refine (ih hr).imp id ?_
      rintro ⟨q, hq, hxq⟩
      rw [hs] at hq
      rcases List.mem_cons.mp hq with rfl | hq
      · exact ⟨c :: q, List.mem_cons_self, List.mem_cons_of_mem c hxq⟩
      · exact ⟨q, List.mem_cons_of_mem _ hq, hxq⟩

def cut (sep : Char) : List Char → Option (List Char × List Char)
  | [] => none
  | c :: r => if c = sep then some ([], r) else (cut sep r).map fun (p, q) => (c :: p, q)

theorem cut_append (sep : Char) (p : List Char) (hp : sep ∉ p) (r : List Char) :
    cut sep (p ++ sep :: r) = some (p, r) := by
  induction p with
  | nil => simp [cut]
  | cons c p ih =>
    simp only [List.mem_cons, not_or] at hp
    simp [cut, Ne.symm hp.1, ih hp.2]

/-- The text between an opening and a closing delimiter; the two must be
different characters of the text, even when the delimiters are equal. -/
def between? (opening closing : Char) : List Char → Option (List Char)
  | [] => none
  | c :: r => if c = opening ∧ r.getLast? = some closing then some r.dropLast else none

theorem between?_append (opening closing : Char) (s : List Char) :
    between? opening closing (opening :: (s ++ [closing])) = some s := by
  simp [between?]

end InputGuard.Text
