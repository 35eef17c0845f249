import InputGuard.Proofs.Vtl.Occurrence
import InputGuard.Proofs.Vtl.View
import Mathlib.Data.Nat.Cast.Basic

/-! # What the code of a template does

Code raises an error, puts a value into an object or assigns a variable where it
has the mark of one of them. A statement does what its parts do, and `raise`,
`put` and `assign` do one thing more. This is counted with the literals and
comments in place, and also with them cut out, so that no mark is made up of code
that a literal kept apart. -/

namespace InputGuard.Vtl

inductive Effect where
  | raise
  | put
  | assign
deriving DecidableEq

namespace Effect

def mark : Effect → String
  | .raise => "$util.error("
  | .put => ".put("
  | .assign => "#set"

theorem mark_ne_nil (e : Effect) : codes e.mark ≠ [] := by
  cases e <;> decide

/-- A mark has a parenthesis at its end only. -/
theorem paren_notMem (e : Effect) : .code '(' ∉ (codes e.mark).dropLast := by
  cases e <;> decide

/-- Characters that stand apart from every mark. -/
def isGap (c : Char) : Bool := c == ' ' || c == '\n' || c == ')'

theorem gap_notMem (e : Effect) {c : Char} (h : isGap c = true) : .code c ∉ codes e.mark := by
  simp only [isGap, Bool.or_eq_true, beq_iff_eq] at h
  rcases h with (rfl | rfl) | rfl <;> cases e <;> decide

/-- The counts of an effect that happens once. -/
def once (e : Effect) : Effect → Nat := fun e' => if e' = e then 1 else 0

end Effect

@[simp] theorem codes_append (s t : String) : codes (s ++ t) = codes s ++ codes t := by
  simp [codes]

/-- A lexeme as far as it is looked at: literals and comments may be cut out. -/
def Lexeme.seen (keep : Bool) : Lexeme → List Lexeme
  | .code c => [.code c]
  | l => if keep then [l] else []

/-- A piece, with or without the text of a literal or comment. -/
def Piece.seen (keep : Bool) (p : Piece) : List Lexeme := p.lexemes.flatMap (Lexeme.seen keep)

/-- The characters of the code, literals and comments cut out. -/
def code (ls : List Lexeme) : List Char := ls.filterMap Lexeme.code?

theorem flatMap_seen_true (ls : List Lexeme) : ls.flatMap (Lexeme.seen true) = ls := by
  induction ls with
  | nil => rfl
  | cons l ls ih => cases l <;> simp [Lexeme.seen, ih]

theorem flatMap_seen_false (ls : List Lexeme) :
    ls.flatMap (Lexeme.seen false) = (code ls).map .code := by
  induction ls with
  | nil => rfl
  | cons l ls ih =>
    rw [List.flatMap_cons, ih, code, code, List.filterMap_cons]
    cases l <;> rfl

theorem occurrences_map_code (p l : List Char) :
    occurrences (p.map Lexeme.code) (l.map Lexeme.code) = occurrences p l := by
  induction l with
  | nil => rfl
  | cons c l ih =>
    have hstarts : p.map Lexeme.code <+: (c :: l).map Lexeme.code ↔ p <+: c :: l :=
      List.prefix_map_iff_of_injective fun _ _ h => Lexeme.code.inj h
    rw [List.map_cons, occurrences, occurrences, ih, ← List.map_cons]
    simp only [hstarts]

/-- The mark of an effect occurs this often in the code of a text, where literals
and comments are cut out, and also where they stand in between. -/
structure Happens (e : Effect) (n : Nat) (s : String) : Prop where
  code : occurrences e.mark.toList (code (lexemes s.toList)) = n
  apart : occurrences (codes e.mark) (lexemes s.toList) = n

/-! ## Code without an effect -/

/-- No effect happens. -/
def Quiet (ls : List Lexeme) : Prop := ∀ e : Effect, occurrences (codes e.mark) ls = 0

/-- Nothing that every mark has one of. -/
structure Silent (ls : List Lexeme) : Prop where
  paren : .code '(' ∉ ls
  hash : .code '#' ∉ ls

/-- Characters of code that is silent. -/
def isSilent (c : Char) : Bool := c != '(' && c != '#'

def isSilentText (text : String) : Bool := text.toList.all isSilent

@[simp] theorem isSilentText_append (s t : String) :
    isSilentText (s ++ t) = (isSilentText s && isSilentText t) := by
  simp [isSilentText]

theorem Silent.append {u v : List Lexeme} (hu : Silent u) (hv : Silent v) : Silent (u ++ v) :=
  ⟨by simp [hu.paren, hv.paren], by simp [hu.hash, hv.hash]⟩

theorem Silent.of_codes {text : String} (h : isSilentText text = true) : Silent (codes text) := by
  constructor <;>
  · intro hm
    obtain ⟨c, hc, hcode⟩ := List.mem_map.mp hm
    cases hcode
    cases List.all_eq_true.mp h _ hc

theorem Silent.quiet {ls : List Lexeme} (h : Silent ls) : Quiet ls := by
  intro e
  cases e with
  | raise => exact occurrences_of_notMem (by decide) h.paren
  | put => exact occurrences_of_notMem (by decide) h.paren
  | assign => exact occurrences_of_notMem (by decide) h.hash

/-- Whether a given text of code is quiet. -/
def isQuiet (text : String) : Bool :=
  [Effect.raise, .put, .assign].all fun e => occurrences (codes e.mark) (codes text) == 0

theorem Quiet.of_codes {text : String} (h : isQuiet text = true) : Quiet (codes text) := by
  intro e
  have hall := List.all_eq_true.mp h
  cases e <;> simpa using hall _ (by simp)

theorem quiet_opening {text : String} (h : isQuiet (text ++ "(") = true) :
    Quiet (codes text ++ [.code '(']) := by
  have hopen : codes (text ++ "(") = codes text ++ [.code '('] := codes_append text "("
  rw [← hopen]
  exact .of_codes h

theorem occurrences_paren (e : Effect) (u v : List Lexeme) :
    occurrences (codes e.mark) (u ++ .code '(' :: v) =
      occurrences (codes e.mark) (u ++ [.code '(']) + occurrences (codes e.mark) v :=
  occurrences_close e.paren_notMem

theorem Quiet.paren {u v : List Lexeme} (hu : Quiet (u ++ [.code '('])) (hv : Quiet v) :
    Quiet (u ++ .code '(' :: v) := by
  intro e
  rw [occurrences_paren, hu e, hv e]

/-- Silent code in front of a parenthesis is a call of what it ends with. -/
theorem occurrences_call (name : String) {ls : List Lexeme} (h : Silent ls) :
    occurrences (codes (name ++ "(")) (ls ++ [.code '(']) = if codes name <:+ ls then 1 else 0 := by
  have hmark : codes (name ++ "(") = codes name ++ [.code '('] := by simp [codes]
  rw [hmark, occurrences_concat, occurrences_of_notMem (by simp) h.paren, Nat.zero_add]

theorem not_suffix_of_last {name text : String} {c : Char} (hname : name.toList.getLast? = some c)
    (h : text.toList.getLast? ≠ some c) : ¬codes name <:+ codes text := by
  rintro ⟨before, hbefore⟩
  have hlast := congrArg List.getLast? hbefore
  rw [List.getLast?_append, codes, codes, List.getLast?_map, List.getLast?_map, hname,
    Option.map_some, Option.some_or] at hlast
  obtain ⟨d, hd, hcode⟩ := Option.map_eq_some_iff.mp hlast.symm
  cases hcode
  exact h hd

theorem no_call_of_last (name : String) {text : String} {c : Char} (ht : Silent (codes text))
    (hname : name.toList.getLast? = some c) (h : text.toList.getLast? ≠ some c) :
    occurrences (codes (name ++ "(")) (codes text ++ [.code '(']) = 0 := by
  rw [occurrences_call name ht, if_neg (not_suffix_of_last hname h)]

theorem no_assignment {ls : List Lexeme} (h : Silent ls) :
    occurrences (codes Effect.assign.mark) (ls ++ [.code '(']) = 0 := by
  have hhash : .code '#' ∉ ls ++ [.code '('] := by simp [h.hash]
  exact occurrences_of_notMem (by decide) hhash

/-- Names that end neither as that of `raise` nor as that of `put` does. -/
def isPassive (name : String) : Bool :=
  isSilentText name && name.toList.getLast?.any fun c => c != 'r' && c != 't'

/-- A call of a method with such a name; for a function, the object is empty. -/
theorem quiet_call {object name : String} (ho : isSilentText object = true)
    (hn : isPassive name = true) : Quiet (codes (object ++ name) ++ [.code '(']) := by
  simp only [isPassive, Bool.and_eq_true] at hn
  obtain ⟨hname, hend⟩ := hn
  obtain ⟨c, hc, hpassive⟩ : ∃ c, name.toList.getLast? = some c ∧ c ≠ 'r' ∧ c ≠ 't' := by
    cases hc : name.toList.getLast? with
    | none => simp [hc] at hend
    | some c => exact ⟨c, rfl, by simpa [hc] using hend⟩
  have hlast : (object ++ name).toList.getLast? = some c := by
    rw [String.toList_append, List.getLast?_append, hc, Option.some_or]
  have hsilent : Silent (codes (object ++ name)) := by
    rw [codes_append]
    exact (Silent.of_codes ho).append (.of_codes hname)
  intro e
  cases e with
  | raise =>
    have hr : (object ++ name).toList.getLast? ≠ some 'r' := by
      rw [hlast]
      exact fun h => hpassive.1 (Option.some.inj h)
    exact no_call_of_last "$util.error" hsilent rfl hr
  | put =>
    have ht : (object ++ name).toList.getLast? ≠ some 't' := by
      rw [hlast]
      exact fun h => hpassive.2 (Option.some.inj h)
    exact no_call_of_last ".put" hsilent rfl ht
  | assign => exact no_assignment hsilent

theorem quiet_callOn {object name : String} {arguments : List Lexeme}
    (ho : isSilentText object = true) (hn : isPassive name = true)
    (ha : Quiet arguments) : Quiet (codes (object ++ name ++ "(") ++ arguments) := by
  have hcut : codes (object ++ name ++ "(") ++ arguments =
      codes (object ++ name) ++ .code '(' :: arguments := by
    simp
    rfl
  rw [hcut]
  exact (quiet_call ho hn).paren ha

/-! ## Counting over the parts of a reading -/

/-- The effects happen this often, each with these texts on its two sides. -/
def Performs (left right : Effect → List Lexeme) (times : Effect → Nat) (ls : List Lexeme) : Prop :=
  ∀ e, Stands (left e) (codes e.mark) (right e) (times e) ls

namespace Performs

variable {left right : Effect → List Lexeme} {m n : Effect → Nat} {u v ls : List Lexeme}

theorem of_quiet (h : Quiet ls) : Performs left right 0 ls :=
  fun e => .none e.mark_ne_nil (h e)

theorem paren (hu : Performs left right m (u ++ [.code '('])) (hv : Performs left right n v) :
    Performs left right (m + n) (u ++ .code '(' :: v) :=
  fun e => (hu e).close e.paren_notMem (hv e)

theorem gap {c : Char} (hc : Effect.isGap c = true) (hu : Performs left right m u)
    (hv : Performs left right n v) : Performs left right (m + n) (u ++ .code c :: v) :=
  fun e => (hu e).apart e.mark_ne_nil (e.gap_notMem hc) (hv e)

theorem blank (hu : Performs left right m u) (hv : Performs left right n v) :
    Performs left right (m + n) (u ++ .code ' ' :: v) :=
  hu.gap rfl hv

theorem newline (hu : Performs left right m u) (hv : Performs left right n v) :
    Performs left right (m + n) (u ++ .code '\n' :: v) :=
  hu.gap rfl hv

end Performs

/-- Effects that are counted in a reading both with and without its literals happen. -/
theorem Performs.happens {left right right' : Effect → List Lexeme} {times : Effect → Nat}
    {s : String}
    (hcode : Performs left right times ((lexemes s.toList).flatMap (Lexeme.seen false)))
    (hread : Performs left right' times ((lexemes s.toList).flatMap (Lexeme.seen true)))
    (e : Effect) : Happens e (times e) s where
  code := by
    have hcount := (hcode e).count
    rwa [flatMap_seen_false, codes, occurrences_map_code] at hcount
  apart := by
    have hcount := (hread e).count
    rwa [flatMap_seen_true] at hcount

/-! ## Statements -/

namespace Template

/-- The reading of a template, with or without its literals and comments. -/
def seen (keep : Bool) (t : Template) : List Lexeme := t.lexemes.flatMap (Lexeme.seen keep)

variable {keep : Bool} {left right : Effect → List Lexeme} {m n k : Effect → Nat}

@[simp] theorem seen_append (s t : Template) : seen keep (s ++ t) = seen keep s ++ seen keep t := by
  simp [seen]

@[simp] theorem seen_nil : seen keep [] = [] := rfl

@[simp] theorem seen_cons (p : Piece) (t : Template) :
    seen keep (p :: t) = p.seen keep ++ seen keep t := by
  simp [seen, Piece.seen]

@[simp] theorem seen_code (text : String) :
    (Piece.code text).seen keep = codes text := by
  rw [Piece.seen, Piece.lexemes, List.flatMap_map]
  exact (List.map_eq_flatMap ..).symm

@[simp] theorem seen_ofCode (text : String) : seen keep (ofCode text) = codes text := by
  simp [ofCode]

theorem silent_literal (keep : Bool) (text : String) : Silent ((Piece.literal text).seen keep) := by
  simp only [Piece.seen, Piece.lexemes, List.flatMap_singleton, Lexeme.ofText]
  constructor <;> cases keep <;> split <;> simp [Lexeme.seen]

theorem silent_comment (keep : Bool) (text : String) : Silent ((Piece.comment text).seen keep) := by
  simp only [Piece.seen, Piece.lexemes, List.flatMap_singleton]
  constructor <;> cases keep <;> simp [Lexeme.seen]

theorem performs_block {body : Template} (title : String)
    (hb : Performs left right n (seen keep body)) :
    Performs left right n (seen keep (block title body)) := by
  have heq : seen keep (block title body) =
      (Piece.comment (" [Start] " ++ title ++ ". **")).seen keep ++
        .code '\n' :: (seen keep body ++ .code '\n' ::
          (Piece.comment (" [End] " ++ title ++ ". **")).seen keep) := by
    simp [block]
    rfl
  rw [heq]
  simpa using (Performs.of_quiet (silent_comment keep _).quiet).newline
    (hb.newline (.of_quiet (silent_comment keep _).quiet))

theorem performs_when {condition body : Template}
    (hc : Performs left right m (seen keep condition))
    (hb : Performs left right n (seen keep body)) :
    Performs left right (m + n) (seen keep (when condition body)) := by
  have heq : seen keep (when condition body) =
      codes "#if(" ++ .code ' ' :: (seen keep condition ++ .code ' ' ::
        (codes ")\n " ++ .code ' ' :: (seen keep body ++ .code '\n' :: codes "#end"))) := by
    simp [when]
    rfl
  have hopen : Quiet (codes "#if(") := .of_codes rfl
  have hthen : Quiet (codes ")\n ") := .of_codes rfl
  have hend : Quiet (codes "#end") := .of_codes rfl
  rw [heq]
  simpa using (Performs.of_quiet hopen).blank
    (hc.blank ((Performs.of_quiet hthen).blank (hb.newline (.of_quiet hend))))

theorem performs_choose {condition body otherwise : Template}
    (hc : Performs left right m (seen keep condition))
    (hb : Performs left right n (seen keep body))
    (ho : Performs left right k (seen keep otherwise)) :
    Performs left right (m + (n + k)) (seen keep (choose condition body otherwise)) := by
  have heq : seen keep (choose condition body otherwise) =
      codes "#if(" ++ .code ' ' :: (seen keep condition ++ .code ' ' ::
        (codes ")\n " ++ .code ' ' :: (seen keep body ++ .code '\n' ::
          (codes "#else\n " ++ .code ' ' ::
            (seen keep otherwise ++ .code '\n' :: codes "#end"))))) := by
    simp [choose]
    rfl
  have hopen : Quiet (codes "#if(") := .of_codes rfl
  have hthen : Quiet (codes ")\n ") := .of_codes rfl
  have helse : Quiet (codes "#else\n ") := .of_codes rfl
  have hend : Quiet (codes "#end") := .of_codes rfl
  rw [heq]
  simpa using (Performs.of_quiet hopen).blank (hc.blank ((Performs.of_quiet hthen).blank
    (hb.newline ((Performs.of_quiet helse).blank (ho.newline (.of_quiet hend))))))

/-- An assignment stands right in front of its variable. -/
theorem performs_assign {name : String} {value : Template} (hleft : left .assign = [])
    (hright : right .assign = codes "( " ++ codes name ++ codes " =")
    (hname : isSilentText name = true)
    (hv : Performs left right n (seen keep value)) :
    Performs left right (Effect.once .assign + n) (seen keep (assign name value)) := by
  have heq : seen keep (assign name value) =
      ([] ++ codes "#set" ++ (codes "( " ++ codes name ++ codes " =")) ++ .code ' ' ::
        (seen keep value ++ .code ' ' :: codes ")") := by
    simp [assign]
    rfl
  have hcall : [] ++ codes "#set" ++ (codes "( " ++ codes name ++ codes " =") =
      codes "#set" ++ .code '(' :: (codes " " ++ codes name ++ codes " =") := by
    simp
    rfl
  have hrest : Silent (codes " " ++ codes name ++ codes " =") :=
    (Silent.append (.of_codes rfl) (.of_codes hname)).append (.of_codes rfl)
  have hopen : Performs left right (Effect.once .assign)
      ([] ++ codes "#set" ++ (codes "( " ++ codes name ++ codes " =")) := by
    intro e
    cases e with
    | assign =>
      have hhash : .code '#' ∉ codes "set" ++ (codes "( " ++ codes name ++ codes " =") := by
        simp only [List.mem_append, not_or]
        exact ⟨by decide, ⟨by decide, (Silent.of_codes hname).hash⟩, by decide⟩
      rw [hleft, hright]
      exact .unique (q := []) rfl (by simp) hhash (List.nil_suffix) (List.prefix_refl _)
    | raise =>
      refine .none (Effect.mark_ne_nil _) ?_
      rw [hcall, occurrences_paren, hrest.quiet]
      decide
    | put =>
      refine .none (Effect.mark_ne_nil _) ?_
      rw [hcall, occurrences_paren, hrest.quiet]
      decide
  have hend : Quiet (codes ")") := .of_codes rfl
  rw [heq]
  simpa using hopen.blank (hv.blank (.of_quiet hend))

theorem performs_raise (message errorType : String) (hleft : left .raise = [])
    (hright : right .raise = []) :
    Performs left right (Effect.once .raise) (seen keep (raise message errorType)) := by
  have heq : seen keep (raise message errorType) =
      codes "$util.error" ++ .code '(' ::
        ((Piece.literal message).seen keep ++ codes ", " ++
          (Piece.literal errorType).seen keep ++ codes ")") := by
    simp [raise]
    rfl
  have hopen : Performs left right (Effect.once .raise) (codes "$util.error" ++ [.code '(']) := by
    intro e
    cases e with
    | raise => exact ⟨by decide, fun _ _ _ => by simp [hleft, hright]⟩
    | put => exact .none (Effect.mark_ne_nil _) (by decide)
    | assign => exact .none (Effect.mark_ne_nil _) (by decide)
  have hcomma : Silent (codes ", ") := .of_codes rfl
  have hclose : Silent (codes ")") := .of_codes rfl
  have hrest := (((silent_literal keep message).append hcomma).append
    (silent_literal keep errorType)).append hclose
  rw [heq]
  simpa using hopen.paren (.of_quiet hrest.quiet)

/-- A put stands behind its object and right in front of the name of the field. -/
theorem performs_put {input field : String} {value : Template}
    (hleft : left .put = codes input)
    (hright : right .put = (Piece.literal field).seen keep)
    (hi : isSilentText input = true) (hv : Performs left right n (seen keep value)) :
    Performs left right (Effect.once .put + n) (seen keep (quietly (put input field value))) := by
  have heq : seen keep (quietly (put input field value)) =
      codes "$util.qr" ++ .code '(' :: ((codes input ++ codes ".put(" ++
        ((Piece.literal field).seen keep ++ codes ",")) ++ .code ' ' ::
          (seen keep value ++ .code ')' :: codes ")")) := by
    simp [quietly, put]
    rfl
  have hrest : Silent ((Piece.literal field).seen keep ++ codes ",") :=
    (silent_literal keep field).append (.of_codes rfl)
  have hobject : Silent (codes (input ++ ".put")) := by
    rw [codes_append]
    exact (Silent.of_codes hi).append (.of_codes rfl)
  have hput : Performs left right (Effect.once .put)
      (codes input ++ codes ".put(" ++ ((Piece.literal field).seen keep ++ codes ",")) := by
    intro e
    have hcall : codes input ++ codes ".put(" ++ ((Piece.literal field).seen keep ++ codes ",") =
        codes (input ++ ".put") ++ .code '(' :: ((Piece.literal field).seen keep ++ codes ",") := by
      simp
      rfl
    cases e with
    | put =>
      rw [hleft, hright]
      rw [codes_append] at hobject
      exact .unique (x := .code '(') (q := codes ".put") (r := []) rfl hobject.paren hrest.paren
        (List.suffix_refl _) (List.prefix_append _ _)
    | raise =>
      refine .none (Effect.mark_ne_nil _) ?_
      rw [hcall, occurrences_paren, hrest.quiet]
      exact no_call_of_last "$util.error" (c := 'r') hobject rfl (by simp)
    | assign =>
      refine .none (Effect.mark_ne_nil _) ?_
      rw [hcall, occurrences_paren, hrest.quiet]
      exact no_assignment hobject
  have hquietly : Quiet (codes "$util.qr" ++ [.code '(']) := quiet_opening rfl
  have hend : Quiet (codes ")") := .of_codes rfl
  rw [heq]
  simpa using (Performs.of_quiet hquietly).paren (hput.blank (hv.gap rfl (.of_quiet hend)))

end Template
end InputGuard.Vtl
