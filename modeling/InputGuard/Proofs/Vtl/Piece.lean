import InputGuard.Vtl.Reader

/-! # Templates made of pieces

A generated template is a row of pieces: code, string literals and comments.
Pieces that stand well beside each other are read one by one, each as its own
lexemes (`read_chars`): the reader is back in code after every piece, whatever
text the literals hold. -/

namespace InputGuard.Vtl

/-- The lexeme that a text is read as in the quotes that `quote` gives it. -/
def Lexeme.ofText (text : List Char) : Lexeme :=
  if text.any isSpecial then .single text else .double text

@[simp] theorem Lexeme.literal?_ofText (text : List Char) :
    (Lexeme.ofText text).literal? = some text := by
  unfold Lexeme.ofText
  split <;> rfl

/-- Text in double quotes has no character with a meaning there. -/
theorem Lexeme.isSpecial_of_double {s t : List Char} (h : Lexeme.double t = Lexeme.ofText s)
    {c : Char} (hc : c ∈ t) : isSpecial c = false := by
  unfold Lexeme.ofText at h
  split at h
  · cases h
  · next hs =>
    cases h
    have hall : ∀ x ∈ s, isSpecial x = false := by simpa using hs
    exact hall c hc

theorem Lexeme.ofText_injective {s t : List Char} (h : Lexeme.ofText s = Lexeme.ofText t) :
    s = t := by
  have hl := congrArg Lexeme.literal? h
  simpa using hl

/-- Code holds no quote, and a hash in it stands in front of a character that is
no hash. -/
def isCode : List Char → Bool
  | [] => true
  | c :: r => (if c = '#' then r.head?.any (· != '#') else c != '"' && c != '\'') && isCode r

/-- Characters that are code wherever they stand. -/
def isPlain (c : Char) : Bool := c != '"' && c != '\'' && c != '#'

theorem isCode_of_isPlain {s : List Char} (h : ∀ c ∈ s, isPlain c = true) : isCode s = true := by
  induction s with
  | nil => rfl
  | cons c r ih =>
    have hc := h c List.mem_cons_self
    simp only [isPlain, Bool.and_eq_true, bne_iff_ne, ne_eq] at hc
    obtain ⟨⟨hd, hs⟩, hh⟩ := hc
    have hr := ih fun x hx => h x (List.mem_cons_of_mem c hx)
    simp [isCode, hd, hs, hh, hr]

theorem isCode_append {a b : List Char} (ha : isCode a = true) (hb : isCode b = true) :
    isCode (a ++ b) = true := by
  induction a with
  | nil => exact hb
  | cons c r ih =>
    simp only [isCode, Bool.and_eq_true] at ha
    obtain ⟨hc, hr⟩ := ha
    simp only [List.cons_append, isCode, Bool.and_eq_true]
    refine ⟨?_, ih hr⟩
    split at hc
    · next e =>
      rw [if_pos e]
      cases r with
      | nil => cases hc
      | cons c' r => exact hc
    · next e => rw [if_neg e, hc]

/-! ## What the reader does with each kind of text -/

theorem read_code {s : List Char} (h : isCode s = true) (r : List Char) :
    read .code (s ++ r) = s.map .code ++ read .code r := by
  induction s with
  | nil => rfl
  | cons c s ih =>
    simp only [isCode, Bool.and_eq_true] at h
    obtain ⟨hc, hs⟩ := h
    have hstep : read .code (c :: s ++ r) = .code c :: read .code (s ++ r) := by
      split at hc
      · next e =>
        subst e
        cases s with
        | nil => cases hc
        | cons c' s =>
          have hc' : c' ≠ '#' := by simpa using hc
          simp [read, hc']
      · next hh =>
        simp only [Bool.and_eq_true, bne_iff_ne, ne_eq] at hc
        obtain ⟨_, _⟩ := hc
        simp [read, hh]
    rw [hstep, ih hs]
    rfl

theorem read_double {t : List Char} (h : '"' ∉ t) (acc r : List Char) :
    read (.double acc) (t ++ '"' :: r) = .double (acc.reverse ++ t) :: read .code r := by
  induction t generalizing acc with
  | nil => simp [read]
  | cons c t ih =>
    simp only [List.mem_cons, not_or] at h
    obtain ⟨hc, ht⟩ := h
    have hstep : read (.double acc) (c :: t ++ '"' :: r) =
        read (.double (c :: acc)) (t ++ '"' :: r) := by
      simp [read, Ne.symm hc]
    rw [hstep, ih ht]
    simp

/-- The closing quote of a single-quoted literal is told from a doubled one by
what follows it. -/
theorem read_single (t acc : List Char) {r : List Char} (h : r.head? ≠ some '\'') :
    read (.single acc) (t.flatMap doubled ++ '\'' :: r) =
      .single (acc.reverse ++ t) :: read .code r := by
  induction t generalizing acc with
  | nil =>
    cases r with
    | nil => simp [read]
    | cons c r =>
      have hc : c ≠ '\'' := by simpa using h
      simp [read, hc]
  | cons c t ih =>
    have hstep : read (.single acc) ((c :: t).flatMap doubled ++ '\'' :: r) =
        read (.single (c :: acc)) (t.flatMap doubled ++ '\'' :: r) := by
      by_cases hc : c = '\''
      · simp [doubled, hc, read]
      · simp [doubled, hc, read]
    rw [hstep, ih]
    simp

theorem read_quote (t : List Char) {r : List Char} (h : r.head? ≠ some '\'') :
    read .code (quote t ++ r) = .ofText t :: read .code r := by
  unfold quote Lexeme.ofText
  split
  · have hs := read_single t [] h
    simpa [read] using hs
  · next hn =>
    have hq : '"' ∉ t := fun hm => hn (List.any_eq_true.mpr ⟨'"', hm, rfl⟩)
    have hd := read_double hq [] r
    simpa [read] using hd

theorem read_comment {t : List Char} (h : '\n' ∉ t) (acc : List Char) {r : List Char}
    (hr : r = [] ∨ r.head? = some '\n') :
    read (.comment acc) (t ++ r) = .comment (acc.reverse ++ t) :: read .code r := by
  induction t generalizing acc with
  | nil =>
    rcases hr with rfl | hr
    · simp [read]
    · obtain ⟨r', rfl⟩ : ∃ r', r = '\n' :: r' := by
        cases r with
        | nil => simp at hr
        | cons c r' => exact ⟨r', by simpa using hr⟩
      simp [read]
  | cons c t ih =>
    simp only [List.mem_cons, not_or] at h
    obtain ⟨hc, ht⟩ := h
    have hstep : read (.comment acc) (c :: t ++ r) = read (.comment (c :: acc)) (t ++ r) := by
      simp [read, Ne.symm hc]
    rw [hstep, ih ht]
    simp

/-! ## Pieces and templates -/

/-- A part of a template; literals and comments are given by their text. -/
inductive Piece where
  | code (text : String)
  | literal (text : String)
  | comment (text : String)

abbrev Template := List Piece

namespace Piece

def chars : Piece → List Char
  | .code t => t.toList
  | .literal t => quote t.toList
  | .comment t => '#' :: '#' :: t.toList

def lexemes : Piece → List Lexeme
  | .code t => t.toList.map .code
  | .literal t => [.ofText t.toList]
  | .comment t => [.comment t.toList]

/-- Whether a piece ends where it should in front of a character, or at the end. -/
def Fits : Piece → Option Char → Prop
  | .code t, _ => isCode t.toList = true
  | .literal _, next => next ≠ some '\''
  | .comment t, next => '\n' ∉ t.toList ∧ (next = none ∨ next = some '\n')

/-- A piece that fits in front of a text is read as its lexemes, and the rest of
the text is read as it would be alone. -/
theorem read_chars {p : Piece} {r : List Char} (h : p.Fits r.head?) :
    read .code (p.chars ++ r) = p.lexemes ++ read .code r := by
  cases p with
  | code t => exact read_code h r
  | literal t => exact read_quote t.toList h
  | comment t =>
    obtain ⟨ht, hr⟩ := h
    rw [List.head?_eq_none_iff] at hr
    have hc := read_comment ht [] hr
    simpa [chars, lexemes, read] using hc

end Piece

namespace Template

def chars (t : Template) : List Char := t.flatMap Piece.chars

def lexemes (t : Template) : List Lexeme := t.flatMap Piece.lexemes

/-- The first character of a template in front of another one. -/
def first (t : Template) (next : Option Char) : Option Char := t.chars.head?.or next

/-- Every piece fits in front of the pieces after it. -/
def Fits : Template → Option Char → Prop
  | [], _ => True
  | p :: ps, next => p.Fits (first ps next) ∧ Fits ps next

@[simp] theorem chars_nil : chars [] = [] := rfl

@[simp] theorem chars_cons (p : Piece) (t : Template) : chars (p :: t) = p.chars ++ chars t :=
  List.flatMap_cons

@[simp] theorem chars_append (s t : Template) : chars (s ++ t) = chars s ++ chars t :=
  List.flatMap_append

@[simp] theorem lexemes_nil : lexemes [] = [] := rfl

@[simp] theorem lexemes_cons (p : Piece) (t : Template) :
    lexemes (p :: t) = p.lexemes ++ lexemes t :=
  List.flatMap_cons

@[simp] theorem lexemes_append (s t : Template) : lexemes (s ++ t) = lexemes s ++ lexemes t :=
  List.flatMap_append

theorem first_append (s t : Template) (next : Option Char) :
    first (s ++ t) next = first s (first t next) := by
  simp [first, List.head?_append, Option.or_assoc]

theorem fits_append {s t : Template} {next : Option Char} :
    Fits (s ++ t) next ↔ Fits s (first t next) ∧ Fits t next := by
  induction s with
  | nil => simp [Fits]
  | cons p s ih => simp only [List.cons_append, Fits, first_append, ih, and_assoc]

/-- Reading a template gives the lexemes of its pieces, then the reading of what
follows it. -/
theorem read_chars {t : Template} {r : List Char} (h : t.Fits r.head?) :
    read .code (t.chars ++ r) = t.lexemes ++ read .code r := by
  induction t with
  | nil => rfl
  | cons p t ih =>
    obtain ⟨hp, ht⟩ := h
    have hp' : p.Fits (chars t ++ r).head? := by
      rw [List.head?_append]
      exact hp
    rw [chars_cons, List.append_assoc, Piece.read_chars hp', ih ht, lexemes_cons,
      List.append_assoc]

theorem lexemes_chars {t : Template} (h : t.Fits none) : Vtl.lexemes t.chars = t.lexemes := by
  have hr := read_chars (r := []) h
  simpa [Vtl.lexemes, read] using hr

/-- Every lexeme of a template is a character of code, a comment or a finished
literal. -/
theorem mem_lexemes {t : Template} {l : Lexeme} (h : l ∈ t.lexemes) :
    (∃ c, l = .code c) ∨ (∃ s, l = .comment s) ∨ ∃ s, l = .ofText s := by
  obtain ⟨p, -, hl⟩ := List.mem_flatMap.mp h
  cases p with
  | code s =>
    obtain ⟨c, -, rfl⟩ := List.mem_map.mp hl
    exact .inl ⟨c, rfl⟩
  | literal s => exact .inr (.inr ⟨s.toList, List.mem_singleton.mp hl⟩)
  | comment s => exact .inr (.inl ⟨s.toList, List.mem_singleton.mp hl⟩)

theorem unterminated_notMem_lexemes (t : Template) (quote : Char) (text : List Char) :
    .unterminated quote text ∉ t.lexemes := by
  intro hm
  rcases mem_lexemes hm with ⟨c, hc⟩ | ⟨s, hs⟩ | ⟨s, hs⟩
  · cases hc
  · cases hs
  · unfold Lexeme.ofText at hs
    split at hs <;> cases hs

theorem isSpecial_of_double_mem {t : Template} {text : List Char} (h : .double text ∈ t.lexemes)
    {c : Char} (hc : c ∈ text) : isSpecial c = false := by
  rcases mem_lexemes h with ⟨c, hl⟩ | ⟨s, hl⟩ | ⟨s, hl⟩
  · cases hl
  · cases hl
  · exact Lexeme.isSpecial_of_double hl hc

end Template
end InputGuard.Vtl
