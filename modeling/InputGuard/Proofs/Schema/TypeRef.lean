import InputGuard.Proofs.Text.Blank
import InputGuard.Schema.TypeRef

/-! # Reading type references

The reader accepts the texts that spell a reference, and takes each for the
reference that it spells (`parse_iff_spells`). Writing that reference again deletes
the blanks of the text and nothing else (`filter_of_spells`), so reading undoes
writing, and writing undoes reading but for blanks (`reading_undoes_writing`). -/

namespace InputGuard.Schema.TypeRef

open Text (isBlank trim trimStart)

/-! ## The reader accepts what spells a reference -/

/-- Only the trimmed text is read. -/
theorem parse_of_trim_eq {s s' : List Char} (h : trim s = trim s') : parse s = parse s' := by
  rw [parse.eq_def s, parse.eq_def s', h]

section Cases

variable {s : List Char}

theorem parse_bang (h : (trim s).getLast? = some '!') :
    parse s = parse (trim s).dropLast >>= ofNonNull (trim s) := by
  rw [parse, dif_pos h]

theorem parse_bracket (hlast : (trim s).getLast? ≠ some '!') (h : (trim s).head? = some '[') :
    parse s = if (trim s).tail.getLast? = some ']' then
      TypeRef.list <$> parse (trim s).tail.dropLast
    else .error (.unbalancedList (String.ofList (trim s))) := by
  rw [parse, dif_neg hlast, dif_pos h]

theorem parse_other (hlast : (trim s).getLast? ≠ some '!') (h : (trim s).head? ≠ some '[') :
    parse s = ofName (trim s) := by
  rw [parse, dif_neg hlast, dif_neg h]

end Cases

theorem parse_identifier {s : List Char} (h : Text.isIdentifier s = true) :
    parse s = .ok (.named (String.ofList s)) := by
  have htrim : trim s = s :=
    Text.trim_eq_self fun c hc => Text.isBlank_of_isFollowing (Text.isFollowing_of_mem h hc)
  have hlast : s.getLast? ≠ some '!' := by
    intro hl
    cases Text.isFollowing_of_mem h (List.mem_of_getLast? hl)
  have hhead : s.head? ≠ some '[' := by
    intro hh
    cases Text.isFollowing_of_mem h (List.mem_of_head? hh)
  rw [parse_other (by rwa [htrim]) (by rwa [htrim]), htrim, ofName, if_pos h]

theorem parse_list {s : List Char} {t : TypeRef} (h : parse s = .ok t) :
    parse ('[' :: (s ++ [']'])) = .ok (.list t) := by
  have htrim : trim ('[' :: (s ++ [']'])) = '[' :: (s ++ [']']) := by
    have hopen : trimStart ('[' :: s) = '[' :: s := rfl
    have hconcat := Text.trim_concat ('[' :: s) (c := ']') rfl
    rwa [hopen] at hconcat
  have hclose : (s ++ [']']).getLast? = some ']' := List.getLast?_concat
  have hlast : (trim ('[' :: (s ++ [']']))).getLast? ≠ some '!' := by
    rw [htrim, ← List.cons_append, List.getLast?_concat]
    decide
  have hhead : (trim ('[' :: (s ++ [']']))).head? = some '[' := by rw [htrim, List.head?_cons]
  rw [parse_bracket hlast hhead, htrim, List.tail_cons, if_pos hclose, List.dropLast_concat, h]
  rfl

theorem parse_nonNull {s : List Char} {t : TypeRef} (h : parse s = .ok t)
    (ht : t.isNonNull = false) : parse (s ++ ['!']) = .ok (.nonNull t) := by
  have hinner : parse (trimStart s) = .ok t := by
    rw [parse_of_trim_eq (Text.trim_trimStart s), h]
  have htrim : trim (s ++ ['!']) = trimStart s ++ ['!'] := Text.trim_concat s rfl
  rw [parse_bang (by simp [htrim]), htrim, List.dropLast_concat, hinner]
  simp [bind, Except.bind, ofNonNull, ht]

theorem parse_of_spells {s : List Char} {t : TypeRef} (h : Spells s t) : parse s = .ok t := by
  induction h with
  | named identifier => exact parse_identifier identifier
  | list _ ih => exact parse_list ih
  | nonNull _ nullable ih => exact parse_nonNull ih nullable
  | blanks _ leading trailing ih =>
    rw [List.all_eq_true] at leading trailing
    rw [← ih]
    apply parse_of_trim_eq
    rw [Text.trim_append_blanks _ trailing, Text.trim_blanks leading]

theorem parse_chars {t : TypeRef} (h : t.WellFormed) : parse t.chars = .ok t :=
  parse_of_spells (spells_chars h)

/-! ## What the reader accepts spells a reference -/

theorem Spells.of_trim {s : List Char} {t : TypeRef} (h : Spells (trim s) t) : Spells s t := by
  obtain ⟨b, e, hb, he, hs⟩ := Text.exists_trim s
  rw [hs]
  exact .blanks h (List.all_eq_true.mpr hb) (List.all_eq_true.mpr he)

theorem spells_of_parse {s : List Char} {t : TypeRef} (h : parse s = .ok t) : Spells s t := by
  apply Spells.of_trim
  fun_induction parse s generalizing t with
  | case1 s u hlast =>
    rename_i ih
    obtain ⟨v, hv⟩ := List.getLast?_eq_some_iff.mp hlast
    have hspelled : u = trim s := rfl
    rw [← hspelled, hv]
    rw [hv, List.dropLast_concat] at h ih
    cases hinner : parse v with
    | error e =>
      rw [hinner] at h
      cases h
    | ok inner =>
      simp only [hinner, bind, Except.bind, ofNonNull] at h
      split at h
      · cases h
      · next hnullable =>
        cases h
        exact .nonNull (.of_trim (ih hinner)) (by simpa using hnullable)
  | case2 s u hlast hhead hclose =>
    rename_i ih
    obtain ⟨v, hv⟩ := List.head?_eq_some_iff.mp hhead
    have hspelled : u = trim s := rfl
    rw [← hspelled, hv]
    rw [hv, List.tail_cons] at hclose h ih
    obtain ⟨w, rfl⟩ := List.getLast?_eq_some_iff.mp hclose
    rw [List.dropLast_concat] at h ih
    cases hinner : parse w with
    | error e =>
      rw [hinner] at h
      cases h
    | ok inner =>
      rw [hinner] at h
      cases h
      exact .list (.of_trim (ih hinner))
  | case3 => cases h
  | case4 =>
    unfold ofName at h
    split at h
    · next hname =>
      cases h
      exact .named hname
    · cases h

theorem parse_iff_spells {s : List Char} {t : TypeRef} : parse s = .ok t ↔ Spells s t :=
  ⟨spells_of_parse, parse_of_spells⟩

theorem wellFormed_of_parse {s : List Char} {t : TypeRef} (h : parse s = .ok t) : t.WellFormed :=
  (spells_of_parse h).wellFormed

/-! ## The written form -/

/-- What spells a reference is its written form with blanks put in. -/
theorem filter_of_spells {s : List Char} {t : TypeRef} (h : Spells s t) :
    s.filter (!isBlank ·) = t.chars := by
  induction h with
  | @named s identifier =>
    rw [chars, String.toList_ofList, List.filter_eq_self]
    intro c hc
    simp [Text.isBlank_of_isFollowing (Text.isFollowing_of_mem identifier hc)]
  | list _ ih =>
    have hopen : isBlank '[' = false := rfl
    have hclose : isBlank ']' = false := rfl
    simp [List.filter_append, hopen, hclose, ih, chars]
  | nonNull _ _ ih =>
    have hbang : isBlank '!' = false := rfl
    simp [List.filter_append, hbang, ih, chars]
  | @blanks s before after t _ leading trailing ih =>
    have hbefore : before.filter (!isBlank ·) = [] := by simpa [List.filter_eq_nil_iff] using leading
    have hafter : after.filter (!isBlank ·) = [] := by simpa [List.filter_eq_nil_iff] using trailing
    rw [List.filter_append, List.filter_append, hbefore, hafter, ih, List.nil_append,
      List.append_nil]

/-- How reading a text and writing a reference belong together. -/
structure ReadingUndoesWriting (s : String) (t : TypeRef) : Prop where
  /-- exactly what spells a reference is read as it -/
  grammar : parse s.toList = .ok t ↔ Spells s.toList t
  /-- every well-formed reference is read back -/
  readBack : t.WellFormed → parse t.print.toList = .ok t
  /-- only well-formed references are read -/
  wellFormed : parse s.toList = .ok t → t.WellFormed
  /-- what was read is written as its text without the blanks -/
  written : parse s.toList = .ok t → t.print = String.ofList (s.toList.filter (!isBlank ·))
  /-- so it has one form without blanks, and that form is read as the same reference -/
  canonical : parse s.toList = .ok t →
    (∀ c ∈ t.print.toList, isBlank c = false) ∧ parse t.print.toList = .ok t

theorem reading_undoes_writing (s : String) (t : TypeRef) : ReadingUndoesWriting s t := by
  have hreadBack : t.WellFormed → parse t.print.toList = .ok t := by
    intro h
    rw [print, String.toList_ofList]
    exact parse_chars h
  have hwritten : parse s.toList = .ok t →
      t.print = String.ofList (s.toList.filter (!isBlank ·)) := by
    intro h
    rw [print, filter_of_spells (spells_of_parse h)]
  constructor
  case grammar => exact parse_iff_spells
  case readBack => exact hreadBack
  case wellFormed => exact wellFormed_of_parse
  case written => exact hwritten
  case canonical =>
    intro h
    refine ⟨fun c hc => ?_, hreadBack (wellFormed_of_parse h)⟩
    rw [hwritten h, String.toList_ofList] at hc
    simpa using (List.mem_filter.mp hc).2

end InputGuard.Schema.TypeRef
