import InputGuard.Proofs.Number.Integer
import InputGuard.Proofs.Rule.Resolve
import InputGuard.Proofs.Snippet.Template
import InputGuard.Proofs.Vtl.View

/-! # Values in snippets

Values of different types, and different values of one type, are read differently
(`lexemes_value_injective`), and none of them holds a character that ends a value,
so a row of values can be told from what is read (`intercalate_injective`). -/

namespace InputGuard

/-! ## Delimited rows -/

section Delimited

variable {α : Type} {ends : α → Bool} {xs ys r s : List α} {d e : α}

/-- What stands in front of the first delimiter is determined, and so is the
delimiter. -/
theorem append_cons_inj (hx : ∀ a ∈ xs, ends a = false) (hy : ∀ a ∈ ys, ends a = false)
    (hd : ends d = true) (he : ends e = true) (h : xs ++ d :: r = ys ++ e :: s) :
    xs = ys ∧ d = e ∧ r = s := by
  induction xs generalizing ys with
  | nil =>
    cases ys with
    | nil => exact ⟨rfl, List.cons.inj h⟩
    | cons y ys =>
      have hy := hy y List.mem_cons_self
      rw [← (List.cons.inj h).1, hd] at hy
      cases hy
  | cons x xs ih =>
    have hx' := hx x List.mem_cons_self
    cases ys with
    | nil =>
      rw [(List.cons.inj h).1, he] at hx'
      cases hx'
    | cons y ys =>
      obtain ⟨rfl, htail⟩ := List.cons.inj h
      obtain ⟨rfl, hrest⟩ := ih (fun a ha => hx a (List.mem_cons_of_mem _ ha))
        (fun a ha => hy a (List.mem_cons_of_mem _ ha)) htail
      exact ⟨rfl, hrest⟩

/-- The first item of a row ends at the delimiter of the row or at a separator. -/
theorem intercalate_cons_append (sep x : List α) (xss : List (List α)) :
    (xss = [] ∧ (d :: sep).intercalate (x :: xss) ++ e :: r = x ++ e :: r) ∨
      (xss ≠ [] ∧ (d :: sep).intercalate (x :: xss) ++ e :: r =
        x ++ d :: (sep ++ ((d :: sep).intercalate xss ++ e :: r))) := by
  cases xss with
  | nil => exact .inl ⟨rfl, by rw [List.intercalate_singleton]⟩
  | cons y xss =>
    refine .inr ⟨List.cons_ne_nil _ _, ?_⟩
    simp only [List.intercalate_cons_cons, List.append_assoc, List.cons_append]

/-- Items with a separator between them and a delimiter behind the last one; an item
is not empty and holds no delimiter. -/
theorem intercalate_injective {sep : List α} {xss yss : List (List α)}
    (hxs : ∀ x ∈ xss, x ≠ [] ∧ ∀ a ∈ x, ends a = false)
    (hys : ∀ y ∈ yss, y ≠ [] ∧ ∀ a ∈ y, ends a = false)
    (hd : ends d = true) (he : ends e = true) (hne : d ≠ e)
    (h : (d :: sep).intercalate xss ++ e :: r = (d :: sep).intercalate yss ++ e :: s) :
    xss = yss := by
  -- an item cannot start with the delimiter of the row
  have hstart {y rest t : List α} (hy : y ≠ [] ∧ ∀ a ∈ y, ends a = false)
      (h : e :: t = y ++ rest) : False := by
    cases y with
    | nil => exact hy.1 rfl
    | cons a y =>
      have ha := hy.2 a List.mem_cons_self
      rw [← (List.cons.inj h).1, he] at ha
      cases ha
  induction xss generalizing yss with
  | nil =>
    cases yss with
    | nil => rfl
    | cons y yss =>
      have hy := hys y List.mem_cons_self
      rcases intercalate_cons_append sep y yss with ⟨-, hrow⟩ | ⟨-, hrow⟩
      · exact (hstart hy (h.trans hrow)).elim
      · exact (hstart hy (h.trans hrow)).elim
  | cons x xss ih =>
    obtain ⟨hx, hxtail⟩ := List.forall_mem_cons.mp hxs
    cases yss with
    | nil =>
      rcases intercalate_cons_append sep x xss with ⟨-, hrow⟩ | ⟨-, hrow⟩
      · exact (hstart hx (h.symm.trans hrow)).elim
      · exact (hstart hx (h.symm.trans hrow)).elim
    | cons y yss =>
      obtain ⟨hy, hytail⟩ := List.forall_mem_cons.mp hys
      -- the delimiter behind the first item says whether another one follows
      rcases intercalate_cons_append sep x xss with ⟨hxn, hrow⟩ | ⟨hxn, hrow⟩ <;>
        rcases intercalate_cons_append sep y yss with ⟨hyn, hrow'⟩ | ⟨hyn, hrow'⟩ <;>
        rw [hrow, hrow'] at h
      · rw [(append_cons_inj hx.2 hy.2 he he h).1, hxn, hyn]
      · exact absurd (append_cons_inj hx.2 hy.2 he hd h).2.1 hne.symm
      · exact absurd (append_cons_inj hx.2 hy.2 hd he h).2.1 hne
      · obtain ⟨rfl, -, htail⟩ := append_cons_inj hx.2 hy.2 hd hd h
        rw [ih hxtail hytail (List.append_cancel_left htail)]

end Delimited

namespace Snippet

open Rule (Default Members)
open Vtl (Lexeme Piece Template)

/-! ## What a value is read as -/

/-- Code that ends a value. -/
def endsValue : Lexeme → Bool
  | .code c => c == ',' || c == ']' || c == ')'
  | _ => false

/-- Members are known from their values, but for the type of none at all. -/
theorem members_eq_of_values {ms ms' : Members} (h : ms.values = ms'.values) :
    ms = ms' ∨ ms.values = [] ∧ ms'.values = [] := by
  cases hms : ms.values with
  | nil => exact .inr ⟨rfl, h ▸ hms⟩
  | cons v vs =>
    refine .inl ?_
    cases ms with
    | strings l =>
      cases ms' with
      | strings l' =>
        exact congrArg Members.strings
          (List.map_injective_iff.mpr (fun _ _ => Default.string.inj) h)
      | integers l' | floats l' =>
        cases l with
        | nil => cases hms
        | cons a l => cases l' <;> cases h
    | integers l =>
      cases ms' with
      | integers l' =>
        exact congrArg Members.integers
          (List.map_injective_iff.mpr (fun _ _ => Default.integer.inj) h)
      | strings l' | floats l' =>
        cases l with
        | nil => cases hms
        | cons a l => cases l' <;> cases h
    | floats l =>
      cases ms' with
      | floats l' =>
        exact congrArg Members.floats (List.map_injective_iff.mpr (fun _ _ => Default.float.inj) h)
      | strings l' | integers l' =>
        cases l with
        | nil => cases hms
        | cons a l => cases l' <;> cases h

theorem memberPieces_eq (members : Members) :
    memberPieces members = members.values.map defaultPiece := by
  cases members <;> simp [memberPieces, Members.values, defaultPiece, Function.comp_def]

theorem memberLiterals_eq (members : Members) :
    memberLiterals members = members.values.map defaultLiteral := by
  cases members <;> simp [memberLiterals, Members.values, defaultLiteral, Function.comp_def]

theorem mem_lexemes_code {s : List Char} {l : Lexeme} :
    l ∈ (Piece.code (String.ofList s)).lexemes ↔ ∃ c ∈ s, Lexeme.code c = l := by
  simp [Piece.lexemes]

theorem lexemes_code_injective {s t : List Char}
    (h : (Piece.code (String.ofList s)).lexemes = (Piece.code (String.ofList t)).lexemes) :
    s = t := by
  have hcode : Function.Injective Lexeme.code := fun _ _ h => Lexeme.code.inj h
  simp only [Piece.lexemes, String.toList_ofList] at h
  exact List.map_injective_iff.mpr hcode h

theorem ofText_ne_code (t : List Char) (c : Char) : Lexeme.ofText t ≠ .code c := by
  unfold Lexeme.ofText
  split <;> exact nofun

theorem mem_lexemes_integer {n : Int64} {l : Lexeme}
    (h : l ∈ (defaultPiece (.integer n)).lexemes) :
    ∃ c, l = .code c ∧ (c = '-' ∨ c.isDigit = true) := by
  obtain ⟨c, hc, rfl⟩ := mem_lexemes_code.mp h
  exact ⟨c, rfl, Number.mem_writeInteger hc⟩

theorem mem_lexemes_float {x : Number.Binary64} {l : Lexeme}
    (h : l ∈ (defaultPiece (.float x)).lexemes) :
    ∃ c, l = .code c ∧ (c = '-' ∨ c = '.' ∨ c.isDigit = true) := by
  obtain ⟨c, hc, rfl⟩ := mem_lexemes_code.mp h
  exact ⟨c, rfl, Number.Decimal.mem_plain hc⟩

theorem endsValue_of_isDigit {c : Char} (h : c.isDigit = true) : endsValue (.code c) = false := by
  simp only [endsValue, Bool.or_eq_false_iff, beq_eq_false_iff_ne, ne_eq]
  refine ⟨⟨?_, ?_⟩, ?_⟩ <;> rintro rfl <;> cases h

theorem point_mem_writeFloat (x : Number.Binary64) : '.' ∈ Number.writeFloat x := by
  obtain ⟨whole, fraction, hp, -⟩ :=
    Number.Decimal.positional_eq (Number.shortest x).coefficient (Number.shortest x).exponent
  unfold Number.writeFloat Number.Decimal.plain
  split <;> simp [hp]

/-- A value is not empty and goes on up to the code that ends it. -/
theorem lexemes_value (v : Default) :
    (defaultPiece v).lexemes ≠ [] ∧ ∀ l ∈ (defaultPiece v).lexemes, endsValue l = false := by
  cases v with
  | string text =>
    refine ⟨List.cons_ne_nil _ _, fun l hl => ?_⟩
    rw [List.mem_singleton.mp hl]
    unfold Lexeme.ofText
    split <;> rfl
  | integer n =>
    refine ⟨?_, fun l hl => ?_⟩
    · simp only [defaultPiece, Vtl.int, Piece.lexemes, String.toList_ofList, ne_eq,
        List.map_eq_nil_iff]
      unfold Number.writeInteger
      split
      · exact List.cons_ne_nil _ _
      · exact Number.digits_ne_nil _
    · obtain ⟨c, rfl, rfl | hd⟩ := mem_lexemes_integer hl
      · rfl
      · exact endsValue_of_isDigit hd
  | float x =>
    refine ⟨?_, fun l hl => ?_⟩
    · exact List.ne_nil_of_mem (mem_lexemes_code.mpr ⟨_, point_mem_writeFloat x, rfl⟩)
    · obtain ⟨c, rfl, rfl | rfl | hd⟩ := mem_lexemes_float hl
      · rfl
      · rfl
      · exact endsValue_of_isDigit hd
  | boolean b => cases b <;> decide

/-! Which type a value has can be seen from its lexemes: a text is no code, only a
float has a point, and only a truth value has the letter that both names share. -/

theorem ofText_mem_value {v : Default} :
    (∃ t, Lexeme.ofText t ∈ (defaultPiece v).lexemes) ↔ ∃ text, v = .string text := by
  have hcode {s : String} {t : List Char} : Lexeme.ofText t ∉ (Piece.code s).lexemes := by
    intro h
    obtain ⟨c, -, hc⟩ := List.mem_map.mp h
    exact ofText_ne_code t c hc.symm
  cases v with
  | string text => exact ⟨fun _ => ⟨text, rfl⟩, fun _ => ⟨_, List.mem_singleton_self _⟩⟩
  | integer | float | boolean => exact ⟨fun ⟨_, h⟩ => (hcode h).elim, nofun⟩

theorem point_mem_value {v : Default} :
    Lexeme.code '.' ∈ (defaultPiece v).lexemes ↔ ∃ x, v = .float x := by
  cases v with
  | string text =>
    exact ⟨fun h => (ofText_ne_code _ _ (List.mem_singleton.mp h).symm).elim, nofun⟩
  | integer n =>
    refine ⟨fun h => ?_, nofun⟩
    obtain ⟨c, hcode, hc⟩ := mem_lexemes_integer h
    cases hcode
    rcases hc with hc | hc <;> cases hc
  | float x =>
    exact ⟨fun _ => ⟨x, rfl⟩, fun _ => mem_lexemes_code.mpr ⟨_, point_mem_writeFloat x, rfl⟩⟩
  | boolean b =>
    refine ⟨fun h => ?_, nofun⟩
    cases b <;> exact absurd h (by decide)

theorem letter_mem_value {v : Default} :
    Lexeme.code 'e' ∈ (defaultPiece v).lexemes ↔ ∃ b, v = .boolean b := by
  cases v with
  | string text =>
    exact ⟨fun h => (ofText_ne_code _ _ (List.mem_singleton.mp h).symm).elim, nofun⟩
  | integer n =>
    refine ⟨fun h => ?_, nofun⟩
    obtain ⟨c, hcode, hc⟩ := mem_lexemes_integer h
    cases hcode
    rcases hc with hc | hc <;> cases hc
  | float x =>
    refine ⟨fun h => ?_, nofun⟩
    obtain ⟨c, hcode, hc⟩ := mem_lexemes_float h
    cases hcode
    rcases hc with hc | hc | hc <;> cases hc
  | boolean b =>
    refine ⟨fun _ => ⟨b, rfl⟩, fun _ => ?_⟩
    cases b <;> decide

/-- Finite values that are read alike are equal, type included. -/
theorem lexemes_value_injective {v w : Default} (hv : v.isFinite = true) (hw : w.isFinite = true)
    (h : (defaultPiece v).lexemes = (defaultPiece w).lexemes) : v = w := by
  have htext := ofText_mem_value (v := v)
  have hpoint := point_mem_value (v := v)
  have hletter := letter_mem_value (v := v)
  rw [h, ofText_mem_value] at htext
  rw [h, point_mem_value] at hpoint
  rw [h, letter_mem_value] at hletter
  cases v with
  | string text =>
    obtain ⟨text', rfl⟩ := htext.mpr ⟨text, rfl⟩
    have htexts := Lexeme.ofText_injective (List.singleton_inj.mp h)
    rw [String.toList_inj.mp htexts]
  | float x =>
    obtain ⟨y, rfl⟩ := hpoint.mpr ⟨x, rfl⟩
    rw [Number.writeFloat_injective hv hw (lexemes_code_injective h)]
  | boolean b =>
    obtain ⟨b', rfl⟩ := hletter.mpr ⟨b, rfl⟩
    cases b <;> cases b' <;> first | rfl | exact absurd h (by decide)
  | integer n =>
    cases w with
    | string text => cases (htext.mp ⟨text, rfl⟩).choose_spec
    | float x => cases (hpoint.mp ⟨x, rfl⟩).choose_spec
    | boolean b => cases (hletter.mp ⟨b, rfl⟩).choose_spec
    | integer m => rw [Number.writeInteger_injective (lexemes_code_injective h)]

theorem map_lexemes_value_injective {vs ws : List Default}
    (hv : ∀ v ∈ vs, v.isFinite = true) (hw : ∀ w ∈ ws, w.isFinite = true)
    (h : vs.map (fun v => (defaultPiece v).lexemes) = ws.map fun w => (defaultPiece w).lexemes) :
    vs = ws := by
  induction vs generalizing ws with
  | nil => exact (List.map_eq_nil_iff.mp h.symm).symm
  | cons v vs ih =>
    cases ws with
    | nil => cases h
    | cons w ws =>
      obtain ⟨hfirst, hrest⟩ := List.cons.inj h
      obtain ⟨hv1, hvs⟩ := List.forall_mem_cons.mp hv
      obtain ⟨hw1, hws⟩ := List.forall_mem_cons.mp hw
      rw [lexemes_value_injective hv1 hw1 hfirst, ih hvs hws hrest]

/-- Rows of values that are read alike up to the bracket behind them are equal. -/
theorem lexemes_values_injective {vs ws : List Default} {r s : List Lexeme}
    (hv : ∀ v ∈ vs, v.isFinite = true) (hw : ∀ w ∈ ws, w.isFinite = true)
    (h : Template.lexemes ((vs.map defaultPiece).intersperse (.code ", ")) ++ .code ']' :: r =
      Template.lexemes ((ws.map defaultPiece).intersperse (.code ", ")) ++ .code ']' :: s) :
    vs = ws := by
  have hitems (us : List Default) : ∀ x ∈ (us.map defaultPiece).map Piece.lexemes,
      x ≠ [] ∧ ∀ l ∈ x, endsValue l = false := by
    intro x hx
    rw [List.map_map] at hx
    obtain ⟨v, -, rfl⟩ := List.mem_map.mp hx
    exact lexemes_value v
  rw [Template.lexemes_intersperse, Template.lexemes_intersperse] at h
  have hrows := intercalate_injective (hitems vs) (hitems ws) rfl rfl (by decide) h
  rw [List.map_map, List.map_map] at hrows
  exact map_lexemes_value_injective hv hw hrows

end Snippet
end InputGuard
