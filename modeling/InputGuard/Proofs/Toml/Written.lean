import InputGuard.Proofs.Json.Token
import InputGuard.Proofs.Text.Hexadecimal
import InputGuard.Toml.Reader
import InputGuard.Toml.Writer

/-! # Documents of basic strings

A document may assign basic strings to keys, one a line. Blanks around keys, equals
signs and values do not matter, keys may be quoted, and a string may escape its
characters in any way. Such a document is read as its assignments (`read_written`);
one that gives some key anything else but a string is not read (`read_structured`). -/

namespace InputGuard.Toml

open Text (IsHexDigit SpellsHex hexFrom)

/-! ## The grammar -/

/-- Blanks inside a line. -/
def Blank (b : List Char) : Prop := ∀ c ∈ b, c = ' ' ∨ c = '\t'

/-- The character that stands for another one behind a backslash. -/
inductive ShortEscape : Char → Char → Prop where
  | backspace : ShortEscape 'b' '\x08'
  | tab : ShortEscape 't' '\t'
  | newline : ShortEscape 'n' '\n'
  | formFeed : ShortEscape 'f' '\x0c'
  | return : ShortEscape 'r' '\r'
  | quote : ShortEscape '"' '"'
  | backslash : ShortEscape '\\' '\\'

/-- The text between the quotation marks of a basic string, and its value. -/
inductive Spelled : List Char → List Char → Prop where
  | nil : Spelled [] []
  | plain {c : Char} {w s : List Char} (quote : c ≠ '"') (escape : c ≠ '\\')
      (visible : c = '\t' ∨ (0x20 ≤ c.toNat ∧ c.toNat ≠ 0x7F)) (rest : Spelled w s) :
      Spelled (c :: w) (c :: s)
  | short {e c : Char} {w s : List Char} (escape : ShortEscape e c) (rest : Spelled w s) :
      Spelled ('\\' :: e :: w) (c :: s)
  | unicode {digits : List Char} {c : Char} {w s : List Char} (four : digits.length = 4)
      (code : SpellsHex digits c.toNat) (rest : Spelled w s) :
      Spelled ('\\' :: 'u' :: (digits ++ w)) (c :: s)
  | longUnicode {digits : List Char} {c : Char} {w s : List Char} (eight : digits.length = 8)
      (code : SpellsHex digits c.toNat) (rest : Spelled w s) :
      Spelled ('\\' :: 'U' :: (digits ++ w)) (c :: s)

/-- A bare key consists of ASCII letters, digits, underscores and hyphens. -/
inductive KeyOf : List Char → String → Prop where
  | bare {c : Char} {k : List Char} (h : ∀ x ∈ c :: k, x.isAlphanum = true ∨ x = '_' ∨ x = '-') :
      KeyOf (c :: k) (String.ofList (c :: k))
  | quoted {w s : List Char} (h : Spelled w s) : KeyOf ('"' :: (w ++ ['"'])) (String.ofList s)

/-- A line, up to its end, that assigns a basic string to a key. -/
inductive Assigns : List Char → String → String → Prop where
  | mk {indent k before after w s trailing : List Char} {key : String} (hindent : Blank indent)
      (name : KeyOf k key) (hbefore : Blank before) (hafter : Blank after) (value : Spelled w s)
      (htrailing : Blank trailing) :
      Assigns (indent ++ (k ++ (before ++ '=' :: (after ++ '"' :: (w ++ '"' :: trailing)))))
        key (String.ofList s)

/-- Lines that assign basic strings to keys, each with its end. -/
inductive Lines : List Char → List (String × String) → Prop where
  | nil : Lines [] []
  | line {l r : List Char} {key value : String} {as : List (String × String)}
      (assigns : Assigns l key value) (rest : Lines r as) : Lines (l ++ '\n' :: r) ((key, value) :: as)
  | returnLine {l r : List Char} {key value : String} {as : List (String × String)}
      (assigns : Assigns l key value) (rest : Lines r as) :
      Lines (l ++ '\r' :: '\n' :: r) ((key, value) :: as)

/-- A document of such lines; the last one may lack its end. -/
inductive Written : List Char → List (String × String) → Prop where
  | lines {text : List Char} {as : List (String × String)} (h : Lines text as) : Written text as
  | unended {text l : List Char} {as : List (String × String)} {key value : String}
      (h : Lines text as) (assigns : Assigns l key value) : Written (text ++ l) (as ++ [(key, value)])

/-- A text, up to the end of the document, whose first line gives a key something other
than a string: a value that does not begin as a string does, or a table. -/
inductive Structured : List Char → Prop where
  | value {indent k before after r : List Char} {key : String} {c : Char} (hindent : Blank indent)
      (name : KeyOf k key) (hbefore : Blank before) (hafter : Blank after)
      (begins : c ∉ [' ', '\t', '\n', '\r', '"', '\'']) :
      Structured (indent ++ (k ++ (before ++ '=' :: (after ++ c :: r))))
  | dotted {indent k before r : List Char} {key : String} (hindent : Blank indent)
      (name : KeyOf k key) (hbefore : Blank before) :
      Structured (indent ++ (k ++ (before ++ '.' :: r)))
  | header {indent r : List Char} (hindent : Blank indent) : Structured (indent ++ '[' :: r)

/-! ## Reading -/

/-- Reads a text from some mode on. -/
def read (m : Mode) (text : List Char) : Option (List (String × String)) := newlines? text >>= run m

variable {m m' : Mode} {c : Char} {r : List Char}

theorem newlines?_cons (hc : c ≠ '\r') (r : List Char) :
    newlines? (c :: r) = (c :: ·) <$> newlines? r := by
  cases r with
  | nil => simp [newlines?, hc]
  | cons d r => simp [newlines?, hc]

theorem read_cons (hc : c ≠ '\r') (h : m.step c = some ([], m')) : read m (c :: r) = read m' r := by
  rw [read, newlines?_cons hc, read]
  cases newlines? r with
  | none => rfl
  | some t =>
    change run m (c :: t) = run m' t
    rw [run, h]
    exact Option.map_id'

theorem read_cons_assignment {a : String × String} (hc : c ≠ '\r')
    (h : m.step c = some ([a], m')) : read m (c :: r) = (a :: ·) <$> read m' r := by
  rw [read, newlines?_cons hc, read]
  cases newlines? r with
  | none => rfl
  | some t =>
    change run m (c :: t) = (a :: ·) <$> run m' t
    rw [run, h]
    rfl

theorem read_cons_none (hc : c ≠ '\r') (h : m.step c = none) : read m (c :: r) = none := by
  rw [read, newlines?_cons hc]
  cases newlines? r with
  | none => rfl
  | some t =>
    change run m (c :: t) = none
    rw [run, h]
    rfl

theorem read_return : read m ('\r' :: '\n' :: r) = read m ('\n' :: r) := by
  have h : newlines? ('\n' :: r) = ('\n' :: ·) <$> newlines? r := newlines?_cons (by decide) r
  rw [read, read, h]
  rfl

theorem read_congr (hc : c ≠ '\r') (h : m.step c = m'.step c) : read m (c :: r) = read m' (c :: r) := by
  rw [read, read, newlines?_cons hc]
  cases newlines? r with
  | none => rfl
  | some t =>
    change run m (c :: t) = run m' (c :: t)
    rw [run, run, h]

theorem isSpace_of_blank (h : c = ' ' ∨ c = '\t') : Mode.isSpace c = true := by
  rcases h with rfl | rfl <;> rfl

/-- Blanks are skipped where they lead back to the same mode. -/
theorem read_blanks {b : List Char} (hb : Blank b)
    (h : ∀ c, c = ' ' ∨ c = '\t' → m.step c = some ([], m)) : read m (b ++ r) = read m r := by
  induction b with
  | nil => rfl
  | cons c b ih =>
    obtain ⟨hc, hb⟩ := List.forall_mem_cons.mp hb
    have hreturn : c ≠ '\r' := by rcases hc with rfl | rfl <;> decide
    rw [List.cons_append, read_cons hreturn (h c hc), ih hb]

/-! ### Strings -/

/-- A basic string on one line being read; the text comes newest character first. -/
def basic (key : Option String) (text : List Char) : Partial := ⟨key, .basic, false, text⟩

theorem ShortEscape.shortEscape? {e : Char} (h : ShortEscape e c) :
    Mode.shortEscape? e = some c ∧ e ≠ 'u' ∧ e ≠ 'U' ∧ e ≠ '\r' := by
  cases h <;> decide

theorem read_hex {digits : List Char} {values : List Nat}
    (h : List.Forall₂ IsHexDigit digits values) (p : Partial) (start : Nat) (hne : digits ≠ [])
    (hvalue : hexFrom start values = c.toNat) :
    read (.unicode p start digits.length) (digits ++ r) = read (.body (p.push c)) r := by
  induction h generalizing start with
  | nil => exact absurd rfl hne
  | @cons d value digits values hd htail ih =>
    have hreturn : d ≠ '\r' := by
      rintro rfl
      cases hd.hexDigit?
    rw [Text.hexFrom_cons] at hvalue
    cases htail with
    | nil =>
      rw [Text.hexFrom_nil] at hvalue
      have hvalid : c.toNat.isValidChar := c.valid
      have hstep : Mode.step (.unicode p start 1) d = some ([], .body (p.push c)) := by
        change Mode.inUnicode p start 1 d = _
        rw [Mode.inUnicode, hd.hexDigit?, Option.bind_eq_bind, Option.bind_some, if_pos rfl, hvalue,
          if_pos hvalid, Char.ofNat_toNat]
        rfl
      exact read_cons hreturn hstep
    | @cons d' value' digits values hd' htail =>
      have hstep : Mode.step (.unicode p start (digits.length + 1 + 1)) d =
          some ([], .unicode p (start * 16 + value) (digits.length + 1)) := by
        simp [Mode.step, Mode.inUnicode, hd.hexDigit?, Mode.goto]
      rw [List.cons_append, List.length_cons, List.length_cons, read_cons hreturn hstep]
      exact ih (start * 16 + value) (by simp) hvalue

/-- A letter behind a backslash announces how many digits follow. -/
theorem read_code {digits : List Char} {letter : Char} (hletter : letter ≠ '\r')
    (key : Option String) (text r : List Char) (hne : digits ≠ []) (h : SpellsHex digits c.toNat)
    (hstep : Mode.step (.escape (basic key text)) letter =
      some ([], .unicode (basic key text) 0 digits.length)) :
    read (.body (basic key text)) ('\\' :: letter :: (digits ++ r)) =
      read (.body (basic key (c :: text))) r := by
  obtain ⟨values, hdigits, hvalue⟩ := h
  have hopen : Mode.step (.body (basic key text)) '\\' = some ([], .escape (basic key text)) := rfl
  rw [read_cons (by decide) hopen, read_cons hletter hstep,
    read_hex hdigits (basic key text) 0 hne hvalue]
  rfl

theorem read_spelled {w s : List Char} (h : Spelled w s) (key : Option String) (text : List Char) :
    read (.body (basic key text)) (w ++ r) = read (.body (basic key (s.reverse ++ text))) r := by
  induction h generalizing text with
  | nil => rfl
  | @plain c w s quote escape visible _ ih =>
    have hcontrol : c ≠ '\n' ∧ c ≠ '\r' := by
      constructor <;> rintro rfl <;> revert visible <;> decide
    have hplain : Mode.isPlain c = true := by
      rcases visible with rfl | ⟨hlow, hdelete⟩
      · rfl
      · simp [Mode.isPlain, hlow, hdelete]
    have hstep : Mode.step (.body (basic key text)) c = some ([], .body (basic key (c :: text))) := by
      simp [Mode.step, Mode.inBody, basic, Quote.mark, quote, escape, hcontrol.1, hplain, Mode.goto,
        Partial.push]
    rw [List.cons_append, read_cons hcontrol.2 hstep, ih]
    simp
  | @short e c w s escape _ ih =>
    obtain ⟨hshort, hu, hU, hreturn⟩ := escape.shortEscape?
    have hstep : Mode.step (.escape (basic key text)) e = some ([], .body (basic key (c :: text))) := by
      simp [Mode.step, Mode.inEscape, hu, hU, basic, hshort, Partial.push]
    have hopen : Mode.step (.body (basic key text)) '\\' = some ([], .escape (basic key text)) := rfl
    rw [List.cons_append, read_cons (by decide) hopen, List.cons_append, read_cons hreturn hstep, ih]
    simp
  | @unicode digits c w s four code _ ih =>
    have hne : digits ≠ [] := by rintro rfl; cases four
    have hletter : 'u' ≠ '\r' := by decide
    have hcode := read_code hletter key text (w ++ r) hne code (by rw [four]; rfl)
    rw [List.cons_append, List.cons_append, List.append_assoc, hcode, ih]
    simp
  | @longUnicode digits c w s eight code _ ih =>
    have hne : digits ≠ [] := by rintro rfl; cases eight
    have hletter : 'U' ≠ '\r' := by decide
    have hcode := read_code hletter key text (w ++ r) hne code (by rw [eight]; rfl)
    rw [List.cons_append, List.cons_append, List.append_assoc, hcode, ih]
    simp

theorem Spelled.cons_ne {w s : List Char} (h : Spelled (c :: w) s) : c ≠ '"' ∧ c ≠ '\r' := by
  cases h with
  | plain quote _ visible =>
    refine ⟨quote, ?_⟩
    rintro rfl
    revert visible
    decide
  | short | unicode | longUnicode => decide

/-- A string that is not empty is read up to its closing quotation mark. Its first
character is no quotation mark, so it opens neither an empty nor a long string. -/
theorem read_opened {w s : List Char} (h : Spelled w s) (hne : w ≠ []) (key : Option String) :
    read (.opened (basic key [])) (w ++ r) = read (.body (basic key s.reverse)) r := by
  cases w with
  | nil => exact absurd rfl hne
  | cons c w =>
    obtain ⟨hquote, hreturn⟩ := h.cons_ne
    have hstep : Mode.step (.opened (basic key [])) c = Mode.step (.body (basic key [])) c :=
      if_neg hquote
    have hbody := read_spelled (r := r) h key []
    rw [List.append_nil] at hbody
    rw [List.cons_append, read_congr hreturn hstep, ← List.cons_append, hbody]

/-! ### Keys -/

theorem isBareKey_iff : Mode.isBareKey c = true ↔ c.isAlphanum = true ∨ c = '_' ∨ c = '-' := by
  simp [Mode.isBareKey, or_assoc]

theorem isBareKey_ne {d : Char} (h : Mode.isBareKey c = true) (hd : Mode.isBareKey d = false) :
    c ≠ d := by
  rintro rfl
  rw [h] at hd
  cases hd

theorem read_letters {k letters : List Char} (hk : ∀ x ∈ k, Mode.isBareKey x = true) :
    read (.bareKey letters) (k ++ r) = read (.bareKey (k.reverse ++ letters)) r := by
  induction k generalizing letters with
  | nil => rfl
  | cons c k ih =>
    obtain ⟨hc, hk⟩ := List.forall_mem_cons.mp hk
    have hstep : Mode.step (.bareKey letters) c = some ([], .bareKey (c :: letters)) := if_pos hc
    rw [List.cons_append, read_cons (isBareKey_ne hc (by decide)) hstep, ih hk]
    simp

theorem step_line (h : Mode.isBareKey c = true) :
    Mode.line.step c = some ([], .bareKey [c]) := by
  have hspace : Mode.isSpace c = false := by
    simp [Mode.isSpace, isBareKey_ne h (d := ' ') (by decide), isBareKey_ne h (d := '\t') (by decide)]
  have hnewline : (c == '\n') = false := by
    simp [isBareKey_ne h (d := '\n') (by decide)]
  change Mode.atLine c = _
  rw [Mode.atLine, hspace, hnewline, if_neg (by decide), if_neg (isBareKey_ne h (by decide)), if_pos h]
  rfl

/-- A key is read up to a character that ends it. -/
theorem read_key {k : List Char} {key : String} (h : KeyOf k key) (hc : c ∈ [' ', '\t', '=', '.']) :
    read .line (k ++ c :: r) = read (.beforeEquals key) (c :: r) := by
  have hreturn : c ≠ '\r' := by
    rintro rfl
    revert hc
    decide
  cases h with
  | @bare a k h =>
    have hbare : ∀ x ∈ a :: k, Mode.isBareKey x = true := fun x hx => isBareKey_iff.mpr (h x hx)
    obtain ⟨ha, hk⟩ := List.forall_mem_cons.mp hbare
    have hends : ([' ', '\t', '=', '.'].all fun x => !Mode.isBareKey x) = true := rfl
    have hend : Mode.isBareKey c = false := by simpa using List.all_eq_true.mp hends c hc
    have hstep : Mode.step (.bareKey (k.reverse ++ [a])) c =
        Mode.step (.beforeEquals (String.ofList (a :: k))) c := by
      change (if Mode.isBareKey c then _ else Mode.atEquals _ c) = _
      rw [hend]
      simp [Mode.step]
    rw [List.cons_append, read_cons (isBareKey_ne ha (by decide)) (step_line ha), read_letters hk,
      read_congr hreturn hstep]
  | @quoted w s h =>
    have hopen : Mode.line.step '"' = some ([], .opened (basic none [])) := rfl
    rw [List.cons_append, read_cons (by decide) hopen, List.append_assoc]
    by_cases hne : w = []
    · subst hne
      cases h
      have hclose : Mode.step (.opened (basic none [])) '"' =
          some ([], .openedTwice (basic none [])) := rfl
      exact (read_cons (by decide) hclose).trans (read_congr hreturn (if_neg (by simp [basic])))
    · have hclose : Mode.step (.body (basic none s.reverse)) '"' =
          some ([], .beforeEquals (String.ofList s)) := by
        simp [Mode.step, Mode.inBody, Mode.close, basic, Quote.mark]
      exact (read_opened h hne none).trans (read_cons (by decide) hclose)

theorem read_key_blanks {indent k before : List Char} {key : String} (hindent : Blank indent)
    (name : KeyOf k key) (hbefore : Blank before) (hc : c ∈ ['=', '.']) :
    read .line (indent ++ (k ++ (before ++ c :: r))) = read (.beforeEquals key) (c :: r) := by
  have hskip : ∀ c, c = ' ' ∨ c = '\t' →
      Mode.step (.beforeEquals key) c = some ([], .beforeEquals key) :=
    fun _ h => if_pos (isSpace_of_blank h)
  have hline : ∀ c, c = ' ' ∨ c = '\t' → Mode.line.step c = some ([], .line) := by
    rintro _ (rfl | rfl) <;> rfl
  have hread := read_blanks (r := c :: r) hbefore hskip
  rw [read_blanks hindent hline, ← hread]
  cases before with
  | nil => exact read_key name (List.mem_cons_of_mem _ (List.mem_cons_of_mem _ hc))
  | cons b before =>
    have hb : b ∈ [' ', '\t', '=', '.'] := by
      rcases hbefore b List.mem_cons_self with rfl | rfl <;> decide
    exact read_key name hb

theorem read_equals {after : List Char} {key : String} (hafter : Blank after) :
    read (.beforeEquals key) ('=' :: (after ++ r)) = read (.beforeValue key) r := by
  have hequals : Mode.step (.beforeEquals key) '=' = some ([], .beforeValue key) := rfl
  rw [read_cons (by decide) hequals]
  exact read_blanks hafter fun _ h => if_pos (isSpace_of_blank h)

/-! ### Lines -/

/-- What may stand behind a value: the end of the document, a blank or the end of the line. -/
inductive Behind : List Char → Prop where
  | finish : Behind []
  | next {c : Char} {r : List Char} (h : c ∈ [' ', '\t', '\n']) : Behind (c :: r)
  | return {r : List Char} : Behind ('\r' :: '\n' :: r)

theorem Behind.blanks {b : List Char} (hb : Blank b) (h : Behind r) : Behind (b ++ r) := by
  cases b with
  | nil => exact h
  | cons c b =>
    refine .next ?_
    rcases hb c List.mem_cons_self with rfl | rfl <;> decide

/-- Two quotation marks that no third one follows are an empty string. -/
theorem read_openedTwice {key : String} (hr : Behind r) :
    read (.openedTwice (basic (some key) [])) r = ((key, "") :: ·) <$> read .afterValue r := by
  have hnext {c : Char} {r : List Char} (hc : c ∈ [' ', '\t', '\n']) :
      read (.openedTwice (basic (some key) [])) (c :: r) =
        ((key, "") :: ·) <$> read .afterValue (c :: r) := by
    have hends : c ≠ '"' ∧ c ≠ '\r' ∧ ∃ m, Mode.atEnd c = some ([], m) := by
      simp only [List.mem_cons, List.not_mem_nil, or_false] at hc
      rcases hc with rfl | rfl | rfl <;> exact ⟨by decide, by decide, _, rfl⟩
    obtain ⟨hquote, hreturn, m, hend⟩ := hends
    have hstep : Mode.step (.openedTwice (basic (some key) [])) c = some ([(key, "")], m) := by
      simp [Mode.step, Mode.closeBefore, basic, Quote.mark, hquote, hend]
    rw [read_cons_assignment hreturn hstep, read_cons (m := .afterValue) hreturn hend]
  cases hr with
  | finish => rfl
  | next hc => exact hnext hc
  | «return» => rw [read_return, read_return, hnext (by decide)]

theorem read_value {w s : List Char} {key : String} (h : Spelled w s) (hr : Behind r) :
    read (.beforeValue key) ('"' :: (w ++ '"' :: r)) =
      ((key, String.ofList s) :: ·) <$> read .afterValue r := by
  have hopen : Mode.step (.beforeValue key) '"' = some ([], .opened (basic (some key) [])) := rfl
  rw [read_cons (by decide) hopen]
  by_cases hne : w = []
  · subst hne
    cases h
    have hclose : Mode.step (.opened (basic (some key) [])) '"' =
        some ([], .openedTwice (basic (some key) [])) := rfl
    exact (read_cons (by decide) hclose).trans (read_openedTwice hr)
  · have hclose : Mode.step (.body (basic (some key) s.reverse)) '"' =
        some ([(key, String.ofList s)], .afterValue) := by
      simp [Mode.step, Mode.inBody, Mode.close, basic, Quote.mark]
    rw [read_opened h hne, read_cons_assignment (by decide) hclose]

/-- A line is read up to what may stand behind its value, so its own trailing blanks and
its end are read alike. -/
theorem read_assigns {l : List Char} {key value : String} (h : Assigns l key value)
    (hr : Behind r) : read .line (l ++ r) = ((key, value) :: ·) <$> read .afterValue r := by
  obtain ⟨hindent, name, hbefore, hafter, hvalue, htrailing⟩ := h
  have hskip : ∀ c, c = ' ' ∨ c = '\t' → Mode.step .afterValue c = some ([], .afterValue) :=
    fun _ h => if_pos (isSpace_of_blank h)
  simp only [List.append_assoc, List.cons_append]
  rw [read_key_blanks hindent name hbefore (by decide), read_equals hafter,
    read_value hvalue (hr.blanks htrailing), read_blanks htrailing hskip]

theorem read_lines {text : List Char} {as : List (String × String)} (h : Lines text as) :
    read .line (text ++ r) = (as ++ ·) <$> read .line r := by
  have hnewline (r : List Char) : read .afterValue ('\n' :: r) = read .line r :=
    read_cons (by decide) rfl
  induction h with
  | nil => simp
  | line assigns _ ih =>
    rw [List.append_assoc, List.cons_append, read_assigns assigns (.next (by decide)), hnewline, ih]
    simp [Function.comp_def]
  | returnLine assigns _ ih =>
    rw [List.append_assoc, List.cons_append, List.cons_append, read_assigns assigns .return,
      read_return, hnewline, ih]
    simp [Function.comp_def]

theorem read_structured {text : List Char} (h : Structured text) : read .line text = none := by
  cases h with
  | @value _ _ _ _ _ key c hindent name hbefore hafter begins =>
    rw [read_key_blanks hindent name hbefore (by decide), read_equals hafter]
    simp only [List.mem_cons, List.not_mem_nil, or_false, not_or] at begins
    obtain ⟨hspace, htab, -, hreturn, hquote, hliteral⟩ := begins
    have hblank : Mode.isSpace c = false := by simp [Mode.isSpace, hspace, htab]
    refine read_cons_none hreturn ?_
    change (if Mode.isSpace c then _ else (Quote.ofMark? c).map _) = none
    rw [hblank, Quote.ofMark?, if_neg hquote, if_neg hliteral]
    rfl
  | dotted hindent name hbefore =>
    rw [read_key_blanks hindent name hbefore (by decide)]
    exact read_cons_none (by decide) rfl
  | header hindent =>
    rw [read_blanks hindent (by rintro _ (rfl | rfl) <;> rfl)]
    exact read_cons_none (by decide) rfl

/-! ## Documents -/

/-- The text does not begin with a byte order mark, which the reader would drop. -/
def Unmarked (text : List Char) : Prop := text.head? ≠ some '\ufeff'

theorem assignments?_eq_read {text : List Char} (h : Unmarked text) :
    assignments? text = read .line text := by
  cases text with
  | nil => rfl
  | cons c r =>
    have hc : c ≠ '\ufeff' := by
      rintro rfl
      exact h rfl
    rw [assignments?, dropByteOrderMark, if_neg hc]
    rfl

theorem Unmarked.blanks {b : List Char} (hb : Blank b) (h : Unmarked r) : Unmarked (b ++ r) := by
  cases b with
  | nil => exact h
  | cons c b =>
    intro hmark
    cases hmark
    rcases hb _ List.mem_cons_self with h | h <;> cases h

theorem KeyOf.unmarked {k : List Char} {key : String} (h : KeyOf k key) (r : List Char) :
    Unmarked (k ++ r) := by
  intro hmark
  cases h with
  | bare h =>
    cases hmark
    revert h
    simp
  | quoted => cases hmark

theorem Assigns.unmarked {l : List Char} {key value : String} (h : Assigns l key value)
    (r : List Char) : Unmarked (l ++ r) := by
  obtain ⟨hindent, name, -, -, -, -⟩ := h
  rw [List.append_assoc, List.append_assoc]
  exact .blanks hindent (name.unmarked _)

theorem Lines.unmarked {text : List Char} {as : List (String × String)} (h : Lines text as)
    (hr : Unmarked r) : Unmarked (text ++ r) := by
  cases h with
  | nil => exact hr
  | line assigns | returnLine assigns =>
    rw [List.append_assoc]
    exact assigns.unmarked _

theorem Structured.unmarked {text : List Char} (h : Structured text) : Unmarked text := by
  cases h with
  | value hindent name | dotted hindent name => exact .blanks hindent (name.unmarked _)
  | header hindent =>
    refine .blanks hindent fun hmark => ?_
    cases hmark

/-- A document of assignments is read as them. -/
theorem assignments?_written {text : List Char} {as : List (String × String)}
    (h : Written text as) : assignments? text = some as := by
  have hend : read .line [] = some [] := rfl
  cases h with
  | lines h =>
    have hread := read_lines (r := []) h
    rw [List.append_nil, hend] at hread
    have hmark : Unmarked text := by
      have := h.unmarked (r := []) (fun hmark => by cases hmark)
      rwa [List.append_nil] at this
    rw [assignments?_eq_read hmark, hread]
    simp
  | @unended text l as key value h assigns =>
    have hlast := read_assigns (r := []) assigns .finish
    have hmark := assigns.unmarked []
    rw [List.append_nil] at hlast hmark
    rw [assignments?_eq_read (h.unmarked hmark), read_lines h, hlast]
    rfl

/-- One thing that is no string makes a document unreadable, whatever stands around it. -/
theorem assignments?_structured {before text : List Char} {as : List (String × String)}
    (hbefore : Lines before as) (h : Structured text) : assignments? (before ++ text) = none := by
  rw [assignments?_eq_read (hbefore.unmarked h.unmarked), read_lines hbefore, read_structured h]
  rfl

/-! ## The documents that are written -/

theorem Spelled.escape {w s : List Char} (c : Char) (h : Spelled w s) :
    Spelled (Toml.escape c ++ w) (c :: s) := by
  have hcode {high low : Nat} (hhigh : high < 16) (hlow : low < 16) (hc : high * 16 + low = c.toNat) :
      SpellsHex ['0', '0', Nat.digitChar high, Nat.digitChar low] c.toNat := by
    have hzero : IsHexDigit '0' 0 := ⟨by decide, .inl rfl⟩
    refine ⟨[0, 0, high, low], ?_, by simpa [hexFrom] using hc⟩
    exact .cons hzero (.cons hzero (.cons ⟨hhigh, .inl rfl⟩ (.cons ⟨hlow, .inl rfl⟩ .nil)))
  unfold Toml.escape
  split
  · next hdelete =>
    subst hdelete
    have hlow : 15 < 16 := by decide
    exact .unicode rfl (hcode (by decide : 7 < 16) hlow rfl) h
  · next hdelete =>
    unfold Json.escape
    split
    case h_8 hquote hback _ _ _ _ _ =>
      split
      · next hcontrol =>
        have hlt : c.toNat < 32 := by simpa [Json.isControl] using hcontrol
        exact .unicode rfl (hcode (by omega) (by omega) (by omega)) h
      · next hcontrol =>
        have hvisible : 0x20 ≤ c.toNat := by simpa [Json.isControl] using hcontrol
        refine .plain hquote hback (.inr ⟨hvisible, fun h => hdelete ?_⟩) h
        exact Char.toNat_inj.mp h
    case h_1 => exact .short .quote h
    case h_2 => exact .short .backslash h
    case h_3 => exact .short .backspace h
    case h_4 => exact .short .formFeed h
    case h_5 => exact .short .newline h
    case h_6 => exact .short .return h
    case h_7 => exact .short .tab h

theorem spelled_flatMap_escape (s : List Char) : Spelled (s.flatMap escape) s := by
  induction s with
  | nil => exact .nil
  | cons c s ih => exact ih.escape c

theorem lines_write {as : List (String × String)} (h : ∀ p ∈ as, KeyOf p.1.toList p.1) :
    Lines (write as).toList as := by
  rw [write, String.toList_ofList]
  induction as with
  | nil => exact .nil
  | cons p as ih =>
    obtain ⟨hp, has⟩ := List.forall_mem_cons.mp h
    have hspace : Blank [' '] := by simp [Blank]
    have hnone : Blank [] := by simp [Blank]
    have hassigns := Assigns.mk hnone hp hspace hspace (spelled_flatMap_escape p.2.toList) hnone
    rw [String.ofList_toList] at hassigns
    have hlines := Lines.line hassigns (ih has)
    simpa [assignment, quote] using hlines

end InputGuard.Toml
