import InputGuard.Proofs.Vtl.Piece

/-! # String literals alone

A literal is found again in front of any text that does not begin with a single
quote (`takeString?_quote`). The reader of whole literals gives back what was
quoted, and besides it accepts one spelling only: single quotes around a text that
does not need them (`unquote?_eq_some_iff`). -/

namespace InputGuard

/-- The text between delimiters is what has to be put between them. -/
theorem Text.between?_eq_some_iff {opening closing : Char} {s body : List Char} :
    between? opening closing s = some body ↔ s = opening :: (body ++ [closing]) := by
  constructor
  · intro h
    cases s with
    | nil => cases h
    | cons c r =>
      rw [between?] at h
      split at h
      · next hends =>
        obtain ⟨rfl, hlast⟩ := hends
        obtain ⟨inner, rfl⟩ := List.getLast?_eq_some_iff.mp hlast
        rw [List.dropLast_concat, Option.some.injEq] at h
        rw [h]
      · cases h
  · rintro rfl
    exact between?_append opening closing body

namespace Vtl

/-- A text in single quotes, with those that it has doubled. -/
def singleQuoted (t : List Char) : List Char := '\'' :: (t.flatMap doubled ++ ['\''])

def doubleQuoted (t : List Char) : List Char := '"' :: (t ++ ['"'])

theorem isSpecial_iff {c : Char} : isSpecial c = true ↔ c ∈ ['"', '$', '#', '\\'] := by
  simp [isSpecial, or_assoc]

theorem quote_of_special {t : List Char} (h : t.any isSpecial = true) :
    quote t = singleQuoted t := if_pos h

theorem quote_of_plain {t : List Char} (h : t.any isSpecial = false) :
    quote t = doubleQuoted t := if_neg (by simp [h])

/-! ## One literal in front of a text -/

/-- Doubled quotes are taken in pairs, so the first lone one is the closing one. -/
theorem takeSingle?_doubled (t : List Char) {r : List Char} (h : r.head? ≠ some '\'') :
    takeSingle? (t.flatMap doubled ++ '\'' :: r) = some (t, r) := by
  induction t with
  | nil =>
    cases r with
    | nil => rfl
    | cons c r =>
      have hc : c ≠ '\'' := by simpa using h
      simp [takeSingle?, hc]
  | cons c t ih =>
    by_cases hc : c = '\''
    · simp [doubled, hc, takeSingle?, ih]
    · simp [doubled, hc, takeSingle?, ih]

theorem takeString?_quote (t : List Char) {r : List Char} (h : r.head? ≠ some '\'') :
    takeString? (quote t ++ r) = some (t, r) := by
  cases ht : t.any isSpecial with
  | true =>
    have hquote : quote t ++ r = '\'' :: (t.flatMap doubled ++ '\'' :: r) := by
      simp [quote_of_special ht, singleQuoted]
    rw [hquote, takeString?, takeSingle?_doubled t h]
  | false =>
    have hquote : quote t ++ r = '"' :: (t ++ '"' :: r) := by
      simp [quote_of_plain ht, doubleQuoted]
    have hmem : '"' ∉ t := fun hm => List.any_eq_false.mp ht '"' hm rfl
    rw [hquote, takeString?, Text.cut_append '"' t hmem]

/-! ## The reader of templates takes the same literal -/

theorem read_double_of_cut {s t r : List Char} (h : Text.cut '"' s = some (t, r))
    (acc : List Char) : read (.double acc) s = .double (acc.reverse ++ t) :: read .code r := by
  induction s generalizing t acc with
  | nil => cases h
  | cons c s ih =>
    rw [Text.cut] at h
    split at h
    · next hc =>
      cases h
      simp [hc, read]
    · next hc =>
      obtain ⟨⟨u, q⟩, hu, hq⟩ := Option.map_eq_some_iff.mp h
      cases hq
      have hstep : read (.double acc) (c :: s) = read (.double (c :: acc)) s := by simp [read]
      rw [hstep, ih hu]
      simp

theorem read_single_of_takeSingle? {s t r : List Char} (h : takeSingle? s = some (t, r))
    (acc : List Char) : read (.single acc) s = .single (acc.reverse ++ t) :: read .code r := by
  fun_induction takeSingle? s generalizing t acc with
  | case1 => cases h
  | case2 s ih =>
    obtain ⟨⟨u, q⟩, hu, hq⟩ := Option.map_eq_some_iff.mp h
    cases hq
    rw [read, ih hu]
    simp
  | case3 s hlone =>
    cases h
    rw [read, List.append_nil]
    exact hlone
  | case4 c s hdouble hsingle ih =>
    obtain ⟨⟨u, q⟩, hu, hq⟩ := Option.map_eq_some_iff.mp h
    cases hq
    -- neither a pair of quotes nor a lone one
    rw [read, ih hu]
    · simp
    · exact hdouble
    · exact hsingle

/-- What is taken as a literal is the first lexeme of the template. -/
theorem lexemes_of_takeString? {s t r : List Char} (h : takeString? s = some (t, r)) :
    ∃ l : Lexeme, l.literal? = some t ∧ lexemes s = l :: lexemes r := by
  unfold takeString? at h
  split at h
  · exact ⟨.double t, rfl, read_double_of_cut h []⟩
  · exact ⟨.single t, rfl, read_single_of_takeSingle? h []⟩
  · cases h

/-! ## Whole literals -/

theorem undouble?_eq_some_iff {s t : List Char} : undouble? s = some t ↔ s = t.flatMap doubled := by
  constructor
  · intro h
    fun_induction undouble? s generalizing t with
    | case1 =>
      cases h
      rfl
    | case2 s ih =>
      obtain ⟨u, hu, rfl⟩ := Option.map_eq_some_iff.mp h
      rw [ih hu]
      rfl
    | case3 => cases h
    | case4 c s _ hc ih =>
      obtain ⟨u, hu, rfl⟩ := Option.map_eq_some_iff.mp h
      rw [List.flatMap_cons, ← ih hu, doubled, if_neg hc]
      rfl
  · rintro rfl
    exact undouble?_doubled t

theorem unquote?_doubleQuoted {t : List Char} (h : t.any isSpecial = false) :
    unquote? (doubleQuoted t) = some t := by
  rw [unquote?, doubleQuoted, Text.between?_append]
  simp [h]

theorem unquote?_singleQuoted (t : List Char) : unquote? (singleQuoted t) = some t := by
  have hdouble : Text.between? '"' '"' (singleQuoted t) = none := rfl
  have hsingle : Text.between? '\'' '\'' (singleQuoted t) = some (t.flatMap doubled) :=
    Text.between?_append '\'' '\'' _
  rw [unquote?, hdouble, hsingle]
  exact undouble?_doubled t

theorem unquote?_quote (t : List Char) : unquote? (quote t) = some t := by
  cases h : t.any isSpecial with
  | true => rw [quote_of_special h, unquote?_singleQuoted]
  | false => rw [quote_of_plain h, unquote?_doubleQuoted h]

/-- The two spellings that the reader knows; in double quotes nothing is special. -/
theorem spelling_of_unquote? {l t : List Char} (h : unquote? l = some t) :
    t.any isSpecial = false ∧ l = doubleQuoted t ∨ l = singleQuoted t := by
  unfold unquote? at h
  split at h
  · next body hbody =>
    split at h
    · cases h
    · next hplain =>
      cases h
      exact .inl ⟨Bool.eq_false_iff.mpr hplain, Text.between?_eq_some_iff.mp hbody⟩
  · obtain ⟨body, hbody, hundouble⟩ := Option.bind_eq_some_iff.mp h
    rw [undouble?_eq_some_iff] at hundouble
    subst hundouble
    exact .inr (Text.between?_eq_some_iff.mp hbody)

theorem unquote?_eq_some_iff {l t : List Char} :
    unquote? l = some t ↔
      l = quote t ∨ (∀ c ∈ t, c ∉ ['"', '$', '#', '\\']) ∧ l = singleQuoted t := by
  constructor
  · intro h
    cases ht : t.any isSpecial with
    | true =>
      rcases spelling_of_unquote? h with ⟨hplain, -⟩ | hl
      · rw [ht] at hplain
        cases hplain
      · exact .inl (by rw [quote_of_special ht, hl])
    | false =>
      rcases spelling_of_unquote? h with ⟨-, hl⟩ | hl
      · exact .inl (by rw [quote_of_plain ht, hl])
      · exact .inr ⟨fun c hc hs => List.any_eq_false.mp ht c hc (isSpecial_iff.mpr hs), hl⟩
  · rintro (rfl | ⟨-, rfl⟩)
    · exact unquote?_quote t
    · exact unquote?_singleQuoted t

/-- What is known of the literals of a text. -/
structure QuotesExactly (t : List Char) : Prop where
  /-- unless a single quote follows, one literal is taken, the whole one -/
  taken : ∀ r : List Char, r.head? ≠ some '\'' → takeString? (quote t ++ r) = some (t, r)
  /-- in a template it is taken the same way -/
  lexeme : ∀ s r : List Char, takeString? s = some (t, r) →
    ∃ l : Lexeme, l.literal? = some t ∧ lexemes s = l :: lexemes r
  /-- the reader of whole literals undoes the quoting -/
  read : unquote? (quote t) = some t
  /-- all that it reads as the text is the literal, or single quotes that the text could
  do without -/
  accepted : ∀ l : List Char, unquote? l = some t ↔
    l = quote t ∨ (∀ c ∈ t, c ∉ ['"', '$', '#', '\\']) ∧ l = singleQuoted t

theorem literals_exact (t : List Char) : QuotesExactly t where
  taken _ h := takeString?_quote t h
  lexeme _ _ h := lexemes_of_takeString? h
  read := unquote?_quote t
  accepted _ := unquote?_eq_some_iff

/-- Single quotes at both ends of a text that needs them around it. -/
example : quote "'$''".toList = "'''$'''''".toList ∧
    takeString? ("'''$'''''".toList ++ [',']) = some ("'$''".toList, [',']) := by
  decide

end Vtl
end InputGuard
