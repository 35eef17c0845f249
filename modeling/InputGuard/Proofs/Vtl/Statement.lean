import InputGuard.Proofs.Vtl.Piece
import InputGuard.Vtl.Statement

/-! # Statements as pieces

Each statement of the template language with its text taken apart into code,
literals and comments. A statement spells its text when its parts do
(`spells_block`, `spells_when`, ...), so that the reading of a generated text
follows its construction. -/

namespace InputGuard.Vtl.Template

/-- The template has this text, and all its pieces fit in front of `next`. -/
structure Spells (t : Template) (text : String) (next : Option Char) : Prop where
  chars : t.chars = text.toList
  fits : t.Fits next

/-- Code of one piece. -/
def ofCode (text : String) : Template := [.code text]

theorem spells_ofCode {text : String} (h : isCode text.toList = true) (next : Option Char) :
    Spells (ofCode text) text next :=
  ⟨by simp [ofCode, Piece.chars], h, trivial⟩

theorem Spells.append {s t : Template} {a b : String} {next : Option Char}
    (hs : Spells s a (first t next)) (ht : Spells t b next) : Spells (s ++ t) (a ++ b) next :=
  ⟨by rw [chars_append, hs.chars, ht.chars, String.toList_append],
    fits_append.mpr ⟨hs.fits, ht.fits⟩⟩

theorem isCode_concat {a b : String} (ha : isCode a.toList = true) (hb : isCode b.toList = true) :
    isCode (a ++ b).toList = true := by
  rw [String.toList_append]
  exact isCode_append ha hb

def block (title : String) (body : Template) : Template :=
  .comment (" [Start] " ++ title ++ ". **") :: .code "\n" ::
    (body ++ [.code "\n", .comment (" [End] " ++ title ++ ". **")])

/-- The end comment runs up to the end of its line. -/
theorem spells_block {title b : String} {body : Template} {next : Option Char}
    (ht : '\n' ∉ title.toList) (hb : Spells body b (some '\n'))
    (hn : next = none ∨ next = some '\n') : Spells (block title body) (Vtl.block title b) next := by
  obtain ⟨hc, hf⟩ := hb
  constructor
  · -- the equation of a text that long is slow to derive
    delta Vtl.block
    simp [block, Piece.chars, hc]
  · simp [block, Fits, fits_append, Piece.Fits, first, Piece.chars, ht, hf, hn]
    decide

def when (condition body : Template) : Template :=
  .code "#if( " :: (condition ++ .code " )\n  " :: (body ++ [.code "\n#end"]))

theorem spells_when {c b : String} {condition body : Template} (next : Option Char)
    (hc : Spells condition c (some ' ')) (hb : Spells body b (some '\n')) :
    Spells (when condition body) (Vtl.when c b) next := by
  constructor
  · simp [when, Vtl.when, Vtl.indent, Piece.chars, hc.chars, hb.chars]
  · simp [when, Fits, fits_append, Piece.Fits, first, Piece.chars, hc.fits, hb.fits]
    decide

def choose (condition body otherwise : Template) : Template :=
  .code "#if( " :: (condition ++ .code " )\n  " ::
    (body ++ .code "\n#else\n  " :: (otherwise ++ [.code "\n#end"])))

theorem spells_choose {c b o : String} {condition body otherwise : Template}
    (next : Option Char) (hc : Spells condition c (some ' ')) (hb : Spells body b (some '\n'))
    (ho : Spells otherwise o (some '\n')) :
    Spells (choose condition body otherwise) (Vtl.choose c b o) next := by
  constructor
  · simp [choose, Vtl.choose, Vtl.indent, Piece.chars, hc.chars, hb.chars, ho.chars]
  · simp [choose, Fits, fits_append, Piece.Fits, first, Piece.chars, hc.fits, hb.fits, ho.fits]
    decide

def assign (name : String) (value : Template) : Template :=
  .code "#set( " :: .code name :: .code " = " :: (value ++ [.code " )"])

theorem spells_assign {name v : String} {value : Template} (next : Option Char)
    (hn : isCode name.toList = true) (hv : Spells value v (some ' ')) :
    Spells (assign name value) (Vtl.assign name v) next := by
  constructor
  · simp [assign, Vtl.assign, Piece.chars, hv.chars]
  · simp [assign, Fits, fits_append, Piece.Fits, first, Piece.chars, hn, hv.fits]
    decide

def quietly (expression : Template) : Template :=
  .code "$util.qr(" :: (expression ++ [.code ")"])

theorem spells_quietly {e : String} {expression : Template} (next : Option Char)
    (he : Spells expression e (some ')')) :
    Spells (quietly expression) (Vtl.quietly e) next := by
  constructor
  · simp [quietly, Vtl.quietly, Piece.chars, he.chars]
  · simp [quietly, Fits, fits_append, Piece.Fits, first, Piece.chars, he.fits]
    decide

def raise (message errorType : String) : Template :=
  [.code "$util.error(", .literal message, .code ", ", .literal errorType, .code ")"]

theorem spells_raise (message errorType : String) (next : Option Char) :
    Spells (raise message errorType) (Vtl.raise message errorType) next := by
  constructor
  · delta Vtl.raise
    simp [raise, Vtl.string, Piece.chars]
  · simp [raise, Fits, Piece.Fits, first, Piece.chars]
    decide

def put (input field : String) (value : Template) : Template :=
  .code input :: .code ".put(" :: .literal field :: .code ", " :: (value ++ [.code ")"])

theorem spells_put {input v : String} {value : Template} (field : String) (next : Option Char)
    (hi : isCode input.toList = true) (hv : Spells value v (some ')')) :
    Spells (put input field value) (Vtl.put input field v) next := by
  constructor
  · simp [put, Vtl.put, Vtl.string, Piece.chars, hv.chars]
  · simp [put, Fits, fits_append, Piece.Fits, first, Piece.chars, hi, hv.fits]
    decide

def list (members : List Piece) : Template :=
  .code "[" :: (members.intersperse (.code ", ") ++ [.code "]"])

theorem map_intersperse {α β : Type} (f : α → β) (sep : α) (l : List α) :
    (l.intersperse sep).map f = (l.map f).intersperse (f sep) := by
  induction l with
  | nil => rfl
  | cons a l ih =>
    cases l with
    | nil => rfl
    | cons b l =>
      rw [List.intersperse_cons_cons, List.map_cons, List.map_cons, ih]
      rfl

theorem flatMap_intersperse {α β : Type} (f : α → List β) (sep : α) (l : List α) :
    (l.intersperse sep).flatMap f = (f sep).intercalate (l.map f) := by
  rw [List.flatMap_def, map_intersperse]
  rfl

theorem fits_intersperse {members : List Piece}
    (h : ∀ p ∈ members, ∀ c, c ≠ '\'' → p.Fits (some c)) :
    Fits (members.intersperse (.code ", ")) (some ']') := by
  induction members with
  | nil => trivial
  | cons p ps ih =>
    have hp := h p List.mem_cons_self
    have hps := ih fun q hq => h q (List.mem_cons_of_mem p hq)
    cases ps with
    | nil => exact ⟨hp ']' (by decide), trivial⟩
    | cons q ps => exact ⟨hp ',' (by decide), rfl, hps⟩

/-- A member is code or a literal; the separator or the bracket ends it. -/
theorem spells_list {members : List Piece} {texts : List String} (next : Option Char)
    (ht : members.map Piece.chars = texts.map String.toList)
    (h : ∀ p ∈ members, ∀ c, c ≠ '\'' → p.Fits (some c)) :
    Spells (list members) (Vtl.list texts) next := by
  have hchars : Template.chars (members.intersperse (.code ", ")) =
      (", ".intercalate texts).toList := by
    rw [Template.chars, flatMap_intersperse, ht, String.toList_intercalate]
    rfl
  constructor
  · simp [list, Vtl.list, Piece.chars, hchars]
  · simp [list, Fits, fits_append, Piece.Fits, first, Piece.chars, fits_intersperse h]
    decide

end InputGuard.Vtl.Template
