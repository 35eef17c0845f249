import InputGuard.Text.Placeholder

/-! # When two templates are filled alike

A template is a row of placeholders and characters, and filling it puts the name in
place of each placeholder (`fill_eq_flatMap`). Different templates can be filled
alike: `{type}a` and `a{type}` are, with a name of `a`s only. They are if and only if
their rows meet, read side by side with the name written out where it stands over
characters (`meets_iff`). Rows that meet have filled texts of one length, they differ,
from the left and from the right, where one has a placeholder and the other a text
that the name repeats (`clash_of_fill_eq`), and they meet for one name of each length
only (`eq_of_clashes`). -/

namespace InputGuard.Text

/-- A template taken apart, with `none` for each placeholder. -/
def holes : List Char → List (Option Char)
  | [] => []
  | '\x7b' :: 't' :: 'y' :: 'p' :: 'e' :: '\x7d' :: r => none :: holes r
  | c :: r => some c :: holes r

/-- A part of a template when it is filled. -/
def plug (name : List Char) : Option Char → List Char
  | none => name
  | some c => [c]

/-- Two rows meet for a name if they agree from left to right, and end together. A
placeholder over a character of the other row is written out with the name first. -/
inductive Meets (name : List Char) : List (Option Char) → List (Option Char) → Prop where
  | nil : Meets name [] []
  | cons (x : Option Char) {row row' : List (Option Char)} (rest : Meets name row row') :
      Meets name (x :: row) (x :: row')
  | left {c : Char} {row row' : List (Option Char)}
      (written : Meets name (name.map some ++ row) (some c :: row')) :
      Meets name (none :: row) (some c :: row')
  | right {c : Char} {row row' : List (Option Char)}
      (written : Meets name (some c :: row) (name.map some ++ row')) :
      Meets name (some c :: row) (none :: row')

/-- How long a row is when it is filled with a name of a length. -/
def width (length : Nat) (row : List (Option Char)) : Nat :=
  row.count none * length + row.countP Option.isSome

/-- The text of a row up to its first placeholder or its end. -/
def opening : List (Option Char) → List Char
  | some c :: row => c :: opening row
  | _ => []

/-- Whether a name begins with a text and goes on with it, as often as it goes. -/
def repeats (name text : List Char) : Bool := name.isPrefixOf (text ++ name)

/-- Two rows clash for a name if they differ first where one has a placeholder and
the other a text that the name repeats. -/
def clashes (name : List Char) : List (Option Char) → List (Option Char) → Bool
  | none :: _, some c :: row => repeats name (c :: opening row)
  | some c :: row, none :: _ => repeats name (c :: opening row)
  | x :: row, y :: row' => x == y && clashes name row row'
  | _, _ => false

/-- Two templates clash if they do so from the left and from the right. -/
def clash (name s t : List Char) : Bool :=
  clashes name (holes s) (holes t) &&
    clashes name.reverse (holes s).reverse (holes t).reverse

theorem fill_eq_flatMap (name t : List Char) : fill name t = (holes t).flatMap (plug name) := by
  fun_induction fill name t with
  | case1 => rfl
  | case2 r ih => rw [holes, List.flatMap_cons, ih, plug]
  | case3 c r hne ih =>
    rw [holes, List.flatMap_cons, ih]
    · rfl
    · exact hne

theorem holes_injective {s t : List Char} (h : holes s = holes t) : s = t := by
  rw [← fill_self s, ← fill_self t, fill_eq_flatMap, fill_eq_flatMap, h]

theorem plug_ne_nil {name : List Char} (hname : name ≠ []) (x : Option Char) :
    plug name x ≠ [] := by
  cases x with
  | none => exact hname
  | some c => exact List.cons_ne_nil c []

@[simp] theorem flatMap_plug_map_some (name text : List Char) :
    (text.map some).flatMap (plug name) = text := by
  induction text with
  | nil => rfl
  | cons c text ih => rw [List.map_cons, List.flatMap_cons, ih, plug, List.singleton_append]

@[simp] theorem count_none_map_some (text : List Char) : (text.map some).count none = 0 :=
  List.count_eq_zero.mpr (by simp)

theorem length_flatMap_plug (name : List Char) (row : List (Option Char)) :
    (row.flatMap (plug name)).length = width name.length row := by
  induction row with
  | nil => simp [width]
  | cons x row ih =>
    rw [List.flatMap_cons, List.length_append, ih]
    cases x with
    | none =>
      simp [plug, width, Nat.add_mul]
      omega
    | some c =>
      simp [plug, width]
      omega

theorem flatMap_plug_eq_of_meets {name : List Char} {row row' : List (Option Char)}
    (h : Meets name row row') : row.flatMap (plug name) = row'.flatMap (plug name) := by
  induction h with
  | nil => rfl
  | cons x _ ih => rw [List.flatMap_cons, ih, List.flatMap_cons]
  | left _ ih => rwa [List.flatMap_append, flatMap_plug_map_some] at ih
  | right _ ih => rwa [List.flatMap_append, flatMap_plug_map_some] at ih

/-- Each step of the reading takes a character or a placeholder off the rows, so the
induction is on the filled text and the placeholders that are left. -/
theorem meets_of_flatMap_plug_eq {name : List Char} (hname : name ≠ [])
    {row row' : List (Option Char)} (h : row.flatMap (plug name) = row'.flatMap (plug name)) :
    Meets name row row' := by
  generalize hn : (row.flatMap (plug name)).length + row.count none + row'.count none = n
  induction n using Nat.strongRecOn generalizing row row' with
  | _ n ih =>
    subst hn
    cases row with
    | nil =>
      cases row' with
      | nil => exact .nil
      | cons y row' => exact absurd (List.append_eq_nil_iff.mp h.symm).1 (plug_ne_nil hname y)
    | cons x row =>
      cases row' with
      | nil => exact absurd (List.append_eq_nil_iff.mp h).1 (plug_ne_nil hname x)
      | cons y row' =>
        cases x with
        | none =>
          cases y with
          | none => exact .cons none (ih _ (by simp; omega) (List.append_cancel_left h) rfl)
          | some d => exact .left (ih _ (by simp [plug]) (by simpa [plug] using h) rfl)
        | some c =>
          cases y with
          | none => exact .right (ih _ (by simp [plug]) (by simpa [plug] using h) rfl)
          | some d =>
            obtain ⟨rfl, hrest⟩ := List.cons.inj h
            exact .cons (some c) (ih _ (by simp [plug]) hrest rfl)

theorem meets_iff {name : List Char} (hname : name ≠ []) {s t : List Char} :
    Meets name (holes s) (holes t) ↔ fill name s = fill name t := by
  rw [fill_eq_flatMap, fill_eq_flatMap]
  exact ⟨flatMap_plug_eq_of_meets, meets_of_flatMap_plug_eq hname⟩

/-- Behind the opening of a filled row is its end or the name. -/
theorem flatMap_plug_eq (name : List Char) (row : List (Option Char)) :
    ∃ rest, row.flatMap (plug name) = opening row ++ rest ∧ (rest = [] ∨ name <+: rest) := by
  induction row with
  | nil => exact ⟨[], rfl, .inl rfl⟩
  | cons x row ih =>
    cases x with
    | none => exact ⟨_, rfl, .inr (List.prefix_append _ _)⟩
    | some c =>
      obtain ⟨rest, hrow, hrest⟩ := ih
      exact ⟨rest, by rw [List.flatMap_cons, hrow, opening, plug]; rfl, hrest⟩

/-- A name over a text and what is behind it repeats the text: if it is longer than
the text, it stands over its own beginning. -/
theorem repeats_of_append_eq {name u text rest : List Char} (hrest : rest = [] ∨ name <+: rest)
    (h : name ++ u = text ++ rest) : repeats name text = true := by
  rw [repeats, List.isPrefixOf_iff_prefix]
  have hu : name <+: text ++ rest := ⟨u, h⟩
  rcases hrest with rfl | ⟨v, rfl⟩
  · rw [List.append_nil] at hu
    exact hu.trans (List.prefix_append text name)
  · rw [← List.append_assoc] at hu
    exact List.prefix_of_prefix_length_le hu (List.prefix_append _ _) (by simp)

theorem repeats_of_flatMap_eq {name u : List Char} {c : Char} {row : List (Option Char)}
    (h : name ++ u = c :: row.flatMap (plug name)) : repeats name (c :: opening row) = true := by
  obtain ⟨rest, hrow, hrest⟩ := flatMap_plug_eq name row
  exact repeats_of_append_eq hrest (by rw [h, hrow, List.cons_append])

theorem clashes_of_flatMap_eq {name : List Char} (hname : name ≠ []) {row row' : List (Option Char)}
    (h : row.flatMap (plug name) = row'.flatMap (plug name)) :
    row = row' ∨ clashes name row row' = true := by
  fun_induction clashes name row row' with
  | case1 ss c ts => exact .inr (repeats_of_flatMap_eq h)
  | case2 c ss ts => exact .inr (repeats_of_flatMap_eq h.symm)
  | case3 x ss y ts hleft hright ih =>
    rw [List.flatMap_cons, List.flatMap_cons] at h
    have hxy : x = y := by
      cases x with
      | none =>
        cases y with
        | none => rfl
        | some d => exact (hleft d rfl rfl).elim
      | some c =>
        cases y with
        | none => exact (hright c rfl rfl).elim
        | some d => exact congrArg some (List.cons.inj h).1
    subst hxy
    simpa using ih (List.append_cancel_left h)
  | case4 row row' _ _ hcons =>
    cases row with
    | nil =>
      cases row' with
      | nil => exact .inl rfl
      | cons y row' => exact absurd (List.append_eq_nil_iff.mp h.symm).1 (plug_ne_nil hname y)
    | cons x row =>
      cases row' with
      | nil => exact absurd (List.append_eq_nil_iff.mp h).1 (plug_ne_nil hname x)
      | cons y row' => exact (hcons x row y row' rfl rfl).elim

/-- A name that repeats a text is the text again and again, up to its own length. -/
theorem eq_of_repeats {name name' text : List Char} (htext : text ≠ [])
    (hlength : name.length = name'.length) (h : repeats name text = true)
    (h' : repeats name' text = true) : name = name' := by
  rw [repeats, List.isPrefixOf_iff_prefix] at h h'
  apply List.ext_getElem hlength
  intro i
  induction i using Nat.strongRecOn with
  | _ i ih =>
    intro hi hi'
    rw [h.getElem hi, h'.getElem hi', List.getElem_append, List.getElem_append]
    split
    · rfl
    · have hpos := List.length_pos_iff.mpr htext
      exact ih (i - text.length) (by omega) (by omega) (by omega)

/-- Where two rows differ first does not depend on the name. -/
theorem eq_of_clashes {name name' : List Char} {row row' : List (Option Char)}
    (hlength : name.length = name'.length) (h : clashes name row row' = true)
    (h' : clashes name' row row' = true) : name = name' := by
  fun_induction clashes name row row' with
  | case1 => exact eq_of_repeats (List.cons_ne_nil _ _) hlength h h'
  | case2 => exact eq_of_repeats (List.cons_ne_nil _ _) hlength h h'
  | case3 x ss y ts hleft hright ih =>
    rw [clashes] at h'
    · exact ih (Bool.and_eq_true_iff.mp h).2 (Bool.and_eq_true_iff.mp h').2
    · exact hleft
    · exact hright
  | case4 => exact absurd h Bool.false_ne_true

theorem reverse_flatMap_plug (name : List Char) (row : List (Option Char)) :
    (row.flatMap (plug name)).reverse = row.reverse.flatMap (plug name.reverse) := by
  rw [List.reverse_flatMap]
  congr 1
  funext x
  cases x <;> rfl

theorem clash_of_fill_eq {name s t : List Char} (hname : name ≠ [])
    (h : fill name s = fill name t) : s = t ∨ clash name s t = true := by
  rw [fill_eq_flatMap, fill_eq_flatMap] at h
  have hback : (holes s).reverse.flatMap (plug name.reverse) =
      (holes t).reverse.flatMap (plug name.reverse) := by
    rw [← reverse_flatMap_plug, ← reverse_flatMap_plug, h]
  rcases clashes_of_flatMap_eq hname h with heq | hleft
  · exact .inl (holes_injective heq)
  · rcases clashes_of_flatMap_eq (List.reverse_ne_nil_iff.mpr hname) hback with heq | hright
    · exact .inl (holes_injective (List.reverse_inj.mp heq))
    · exact .inr (Bool.and_eq_true_iff.mpr ⟨hleft, hright⟩)

end InputGuard.Text
