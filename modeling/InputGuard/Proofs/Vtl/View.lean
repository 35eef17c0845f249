import InputGuard.Proofs.Vtl.Statement

/-! # Views of a reading

What a reading says about a template: the literals in it with their texts, what
stands between two texts of code, and its outline, which is what is left when
the texts of literals are taken out. For a template of pieces each view is a view
of the pieces. -/

namespace InputGuard.Vtl

/-- A text of code, as it is read. -/
def codes (text : String) : List Lexeme := text.toList.map .code

/-- The texts of all finished literals, from left to right. -/
def literals (ls : List Lexeme) : List (List Char) := ls.filterMap Lexeme.literal?

/-- The lexemes stand somewhere in the reading, right between two texts of code. -/
def Between (before after : String) (inner ls : List Lexeme) : Prop :=
  ∃ xs ys, ls = xs ++ codes before ++ inner ++ codes after ++ ys

/-- A lexeme without the text and the quotes of a literal. -/
def Lexeme.blank : Lexeme → Lexeme
  | .double _ | .single _ => .double []
  | l => l

def outline (ls : List Lexeme) : List Lexeme := ls.map Lexeme.blank

@[simp] theorem Lexeme.blank_ofText (text : List Char) :
    (Lexeme.ofText text).blank = .double [] := by
  unfold Lexeme.ofText
  split <;> rfl

namespace Piece

def literal? : Piece → Option (List Char)
  | .literal t => some t.toList
  | _ => none

def blank : Piece → Piece
  | .literal _ => .literal ""
  | p => p

theorem literals_lexemes (p : Piece) : literals p.lexemes = p.literal?.toList := by
  cases p with
  | code t => simp [literals, lexemes, literal?, Lexeme.literal?]
  | literal t => simp [literals, lexemes, literal?]
  | comment t => rfl

theorem outline_lexemes (p : Piece) : outline p.lexemes = p.blank.lexemes := by
  cases p with
  | code t => simp [outline, lexemes, blank, Lexeme.blank]
  | literal t =>
    simp [outline, lexemes, blank]
    rfl
  | comment t => rfl

end Piece

namespace Template

theorem literals_lexemes (t : Template) :
    literals t.lexemes = t.filterMap Piece.literal? := by
  induction t with
  | nil => rfl
  | cons p t ih =>
    have hp := Piece.literals_lexemes p
    simp only [literals] at hp ih
    rw [lexemes_cons, literals, List.filterMap_append, hp, ih, List.filterMap_cons]
    cases p.literal? <;> rfl

theorem outline_lexemes (t : Template) : outline t.lexemes = lexemes (t.map Piece.blank) := by
  induction t with
  | nil => rfl
  | cons p t ih =>
    have hp := Piece.outline_lexemes p
    simp only [outline] at hp ih
    rw [lexemes_cons, outline, List.map_append, hp, ih, List.map_cons, lexemes_cons]

/-- Members of a list are read one by one with a comma and a blank in between. -/
theorem lexemes_intersperse (members : List Piece) :
    lexemes (members.intersperse (.code ", ")) =
      (codes ", ").intercalate (members.map Piece.lexemes) :=
  flatMap_intersperse Piece.lexemes (.code ", ") members

end Template

theorem filterMap_intersperse {α β : Type} {f : α → Option β} {sep : α} (h : f sep = none)
    (l : List α) : (l.intersperse sep).filterMap f = l.filterMap f := by
  induction l with
  | nil => rfl
  | cons a l ih =>
    cases l with
    | nil => rfl
    | cons b l =>
      have hstep : (sep :: (b :: l).intersperse sep).filterMap f = (b :: l).filterMap f := by
        rw [List.filterMap_cons, h]
        exact ih
      rw [List.intersperse_cons_cons]
      cases ha : f a with
      | none => rw [List.filterMap_cons_none ha, List.filterMap_cons_none ha, hstep]
      | some c => rw [List.filterMap_cons_some ha, List.filterMap_cons_some ha, hstep]

end InputGuard.Vtl
