import InputGuard.Proofs.Json.Parser
import InputGuard.Proofs.Text.Hexadecimal
import Mathlib.Data.List.Chain

/-! # Texts that differ in layout and escapes only

The tokens of a value may have any blanks around them, and the characters of a
string may be escaped in any way. A text of this kind is read as the value, and as
nothing if anything but blanks comes after it (`LaidOut.ofText?_object`,
`LaidOut.ofText?_append`). -/

namespace InputGuard.Json

open Text (IsHexDigit SpellsHex hexFrom)

/-! ## The grammar -/

/-- Blanks between tokens. -/
def Blank (b : List Char) : Prop := ∀ c ∈ b, c = ' ' ∨ c = '\t' ∨ c = '\n' ∨ c = '\r'

/-- The letter that stands for a character behind a backslash. -/
inductive ShortEscape : Char → Char → Prop where
  | quote : ShortEscape '"' '"'
  | backslash : ShortEscape '\\' '\\'
  | slash : ShortEscape '/' '/'
  | backspace : ShortEscape 'b' '\x08'
  | formFeed : ShortEscape 'f' '\x0c'
  | newline : ShortEscape 'n' '\n'
  | return : ShortEscape 'r' '\r'
  | tab : ShortEscape 't' '\t'

/-- The text between the quotation marks of a string, and the string's own text. A
character above U+FFFF is escaped as two code units, a surrogate pair. -/
inductive StringSpelled : List Char → List Char → Prop where
  | nil : StringSpelled [] []
  | plain {c : Char} {w s : List Char} (quote : c ≠ '"') (escape : c ≠ '\\')
      (visible : 0x20 ≤ c.toNat) (rest : StringSpelled w s) : StringSpelled (c :: w) (c :: s)
  | short {e c : Char} {w s : List Char} (escape : ShortEscape e c) (rest : StringSpelled w s) :
      StringSpelled ('\\' :: e :: w) (c :: s)
  | unicode {digits : List Char} {c : Char} {w s : List Char} (four : digits.length = 4)
      (code : SpellsHex digits c.toNat) (rest : StringSpelled w s) :
      StringSpelled ('\\' :: 'u' :: (digits ++ w)) (c :: s)
  | pair {high low : List Char} {c : Char} {w s : List Char} (above : 0x10000 ≤ c.toNat)
      (highFour : high.length = 4) (highCode : SpellsHex high (0xD800 + (c.toNat - 0x10000) / 0x400))
      (lowFour : low.length = 4) (lowCode : SpellsHex low (0xDC00 + (c.toNat - 0x10000) % 0x400))
      (rest : StringSpelled w s) :
      StringSpelled ('\\' :: 'u' :: (high ++ '\\' :: 'u' :: (low ++ w))) (c :: s)

/-- The ways to write a token; a string that has a text may have any spelling of it. -/
def Token.Written (w : List Char) : Token → Prop
  | .string (some s) => ∃ body, StringSpelled body s.toList ∧ w = '"' :: (body ++ ['"'])
  | t => t.Spelled w

/-- The text is these tokens with blanks around them. -/
inductive LaidOut : List Char → List Token → Prop where
  | finish {b : List Char} (blank : Blank b) : LaidOut b []
  | token {b w r : List Char} {t : Token} {ts : List Token} (blank : Blank b) (written : t.Written w)
      (rest : LaidOut r ts) : LaidOut (b ++ (w ++ r)) (t :: ts)

theorem isSpace_iff {c : Char} :
    Mode.isSpace c = true ↔ c = ' ' ∨ c = '\t' ∨ c = '\n' ∨ c = '\r' := by
  simp [Mode.isSpace, or_assoc]

theorem Blank.isSpace {b : List Char} (h : Blank b) : ∀ c ∈ b, Mode.isSpace c = true :=
  fun c hc => isSpace_iff.mpr (h c hc)

/-! ## Strings -/

theorem ShortEscape.shortEscape? {e c : Char} (h : ShortEscape e c) :
    Json.shortEscape? e = some c := by
  cases h <;> rfl

theorem unit_spelled {digits : List Char} {n : Nat} (four : digits.length = 4)
    (h : SpellsHex digits n) : Piece.Spelled (.unit n) ('\\' :: 'u' :: digits) := by
  obtain ⟨values, hdigits, rfl⟩ := h
  have hlen := hdigits.length_eq
  match digits, values, hdigits with
  | [_, _, _, _], [i, j, k, l], .cons ha (.cons hb (.cons hc (.cons hd .nil))) =>
    have hunit := Piece.Spelled.unit ha.hexDigit? hb.hexDigit? hc.hexDigit? hd.hexDigit?
    simpa [hexFrom] using hunit

theorem not_surrogate (c : Char) :
    Piece.isHigh c.toNat = false ∧ Piece.isLow c.toNat = false := by
  have hvalid : c.toNat < 0xD800 ∨ (0xDFFF < c.toNat ∧ c.toNat < 0x110000) := c.valid
  simp only [Piece.isHigh, Piece.isLow, Bool.and_eq_false_iff, decide_eq_false_iff_not]
  omega

/-- The code units of a character above U+FFFF stand for it, whatever follows. -/
theorem assemble_pair {c : Char} (above : 0x10000 ≤ c.toNat) (ps : List Piece) :
    Piece.assemble (.unit (0xD800 + (c.toNat - 0x10000) / 0x400) ::
      .unit (0xDC00 + (c.toNat - 0x10000) % 0x400) :: ps) = (c :: ·) <$> Piece.assemble ps := by
  have hvalid : c.toNat < 0xD800 ∨ (0xDFFF < c.toNat ∧ c.toNat < 0x110000) := c.valid
  have hhigh : Piece.isHigh (0xD800 + (c.toNat - 0x10000) / 0x400) = true := by
    simp only [Piece.isHigh, Bool.and_eq_true, decide_eq_true_eq]
    omega
  have hlow : Piece.isLow (0xDC00 + (c.toNat - 0x10000) % 0x400) = true := by
    simp only [Piece.isLow, Bool.and_eq_true, decide_eq_true_eq]
    omega
  have hcode : 0x10000 + (0xD800 + (c.toNat - 0x10000) / 0x400 - 0xD800) * 0x400 +
      (0xDC00 + (c.toNat - 0x10000) % 0x400 - 0xDC00) = c.toNat := by
    omega
  rw [Piece.assemble, if_pos hhigh]
  simp only [if_pos hlow, Piece.pair, hcode, Char.ofNat_toNat]

theorem exists_parts_of_spelled {w s : List Char} (h : StringSpelled w s) :
    ∃ parts : List Part, (∀ p ∈ parts, p.1.Spelled p.2) ∧ parts.flatMap Prod.snd = w ∧
      Piece.assemble (parts.map Prod.fst) = some s := by
  induction h with
  | nil => exact ⟨[], nofun, rfl, rfl⟩
  | @plain c w s quote escape visible _ ih =>
    obtain ⟨parts, hspelled, rfl, hassemble⟩ := ih
    have hcontrol : isControl c = false := by
      simpa [isControl] using visible
    refine ⟨(.char c, [c]) :: parts, ?_, rfl, ?_⟩
    · exact List.forall_mem_cons.mpr ⟨.plain quote escape hcontrol, hspelled⟩
    · rw [List.map_cons, Piece.assemble, hassemble]
      rfl
  | @short e c w s escape _ ih =>
    obtain ⟨parts, hspelled, rfl, hassemble⟩ := ih
    refine ⟨(.char c, ['\\', e]) :: parts, ?_, rfl, ?_⟩
    · exact List.forall_mem_cons.mpr ⟨.short escape.shortEscape?, hspelled⟩
    · rw [List.map_cons, Piece.assemble, hassemble]
      rfl
  | @unicode digits c w s four code _ ih =>
    obtain ⟨parts, hspelled, rfl, hassemble⟩ := ih
    obtain ⟨hhigh, hlow⟩ := not_surrogate c
    refine ⟨(.unit c.toNat, '\\' :: 'u' :: digits) :: parts, ?_, rfl, ?_⟩
    · exact List.forall_mem_cons.mpr ⟨unit_spelled four code, hspelled⟩
    · rw [List.map_cons, assemble_unit hhigh hlow, hassemble, Char.ofNat_toNat]
      rfl
  | @pair high low c w s above highFour highCode lowFour lowCode _ ih =>
    obtain ⟨parts, hspelled, rfl, hassemble⟩ := ih
    refine ⟨(.unit (0xD800 + (c.toNat - 0x10000) / 0x400), '\\' :: 'u' :: high) ::
      (.unit (0xDC00 + (c.toNat - 0x10000) % 0x400), '\\' :: 'u' :: low) :: parts, ?_, ?_, ?_⟩
    · exact List.forall_mem_cons.mpr ⟨unit_spelled highFour highCode,
        List.forall_mem_cons.mpr ⟨unit_spelled lowFour lowCode, hspelled⟩⟩
    · simp
    · rw [List.map_cons, List.map_cons, assemble_pair above, hassemble]
      rfl

theorem Token.Written.spelled {w : List Char} {t : Token} (h : t.Written w) : t.Spelled w := by
  match t, h with
  | .string (some s), ⟨body, hbody, hw⟩ =>
    obtain ⟨parts, hspelled, rfl, hassemble⟩ := exists_parts_of_spelled hbody
    refine ⟨parts, hspelled, ?_, hw⟩
    rw [hassemble, Option.map_some, String.ofList_toList]
  | .string none, h | .openArray, h | .closeArray, h | .openObject, h | .closeObject, h
  | .colon, h | .comma, h | .null, h | .bool _, h | .number _, h => exact h

/-! ## Where tokens end -/

/-- Tokens that only what follows them ends. -/
def Token.isOpen : Token → Bool
  | .null | .bool _ | .number _ => true
  | _ => false

/-- Tokens that may come right behind a value. -/
def Token.isSeparator : Token → Bool
  | .comma | .closeArray | .closeObject => true
  | _ => false

/-- The tokens can be told apart however few blanks there are. -/
def Apart (ts : List Token) : Prop := ts.IsChain fun t u => t.isOpen = true → u.isSeparator = true

/-- The first token, if any, may come right behind a value. -/
def Separates (ts : List Token) : Prop := ∀ u ∈ ts.head?, u.isSeparator = true

theorem Apart.cons_closed {t : Token} {ts : List Token} (ht : t.isOpen = false) (h : Apart ts) :
    Apart (t :: ts) := by
  refine List.isChain_cons.mpr ⟨fun u _ hopen => ?_, h⟩
  rw [ht] at hopen
  cases hopen

theorem Apart.cons {ts : List Token} (t : Token) (h : Apart ts) (hs : Separates ts) :
    Apart (t :: ts) :=
  List.isChain_cons.mpr ⟨fun u hu _ => hs u hu, h⟩

theorem Separates.cons {u : Token} (h : u.isSeparator = true) (ts : List Token) :
    Separates (u :: ts) := by
  intro t ht
  cases ht
  exact h

theorem separates_elementTokens {ts : List Token} (vs : List Json) (hs : Separates ts) :
    Separates (elementTokens vs ++ ts) := by
  cases vs with
  | nil => exact hs
  | cons v vs =>
    rw [elementTokens]
    exact .cons rfl _

theorem separates_memberTokens {ts : List Token} (ms : List (Option String × Json))
    (hs : Separates ts) : Separates (memberTokens ms ++ ts) := by
  rcases ms with _ | ⟨⟨k, v⟩, ms⟩
  · exact hs
  · rw [memberTokens]
    exact .cons rfl _

mutual

/-- The tokens of a value can be told apart, from each other and from those after them. -/
theorem apart_tokens {ts : List Token} (v : Json) (h : Apart ts) (hs : Separates ts) :
    Apart (tokens v ++ ts) := by
  match v with
  | .null | .bool b | .number literal | .string text =>
    rw [tokens]
    exact .cons _ h hs
  | .array [] | .object [] =>
    rw [tokens]
    exact .cons_closed rfl (.cons_closed rfl h)
  | .array (v :: vs) =>
    have hclose : Apart (.closeArray :: ts) := .cons_closed rfl h
    have hrest := apart_elements vs hclose (.cons rfl ts)
    have hvalue := apart_tokens v hrest (separates_elementTokens vs (.cons rfl ts))
    rw [tokens, List.cons_append, List.append_assoc, List.append_assoc]
    exact .cons_closed rfl hvalue
  | .object ((k, v) :: ms) =>
    have hclose : Apart (.closeObject :: ts) := .cons_closed rfl h
    have hrest := apart_members ms hclose (.cons rfl ts)
    have hvalue := apart_tokens v hrest (separates_memberTokens ms (.cons rfl ts))
    rw [tokens, List.cons_append, List.cons_append, List.cons_append, List.append_assoc,
      List.append_assoc]
    exact .cons_closed rfl (.cons_closed rfl (.cons_closed rfl hvalue))

theorem apart_elements {ts : List Token} (vs : List Json) (h : Apart ts) (hs : Separates ts) :
    Apart (elementTokens vs ++ ts) := by
  match vs with
  | [] => exact h
  | v :: vs =>
    have hvalue := apart_tokens v (apart_elements vs h hs) (separates_elementTokens vs hs)
    rw [elementTokens, List.cons_append, List.append_assoc]
    exact .cons_closed rfl hvalue

theorem apart_members {ts : List Token} (ms : List (Option String × Json)) (h : Apart ts)
    (hs : Separates ts) : Apart (memberTokens ms ++ ts) := by
  match ms with
  | [] => exact h
  | (k, v) :: ms =>
    have hvalue := apart_tokens v (apart_members ms h hs) (separates_memberTokens ms hs)
    rw [memberTokens, List.cons_append, List.cons_append, List.cons_append, List.append_assoc]
    exact .cons_closed rfl (.cons_closed rfl (.cons_closed rfl hvalue))

end

/-- The tokens of an object end with its closing bracket. -/
theorem exists_tokens_object (ms : List (Option String × Json)) :
    ∃ ts, tokens (.object ms) = ts ++ [.closeObject] := by
  rcases ms with _ | ⟨⟨k, v⟩, ms⟩
  · exact ⟨[.openObject], by rw [tokens]; rfl⟩
  · exact ⟨.openObject :: .string k :: .colon :: (tokens v ++ memberTokens ms), by rw [tokens]; simp⟩

/-! ## Scanning -/

theorem scan_blanks {b : List Char} (hb : Blank b) (r : List Char) :
    scan .between (b ++ r) = scan .between r := by
  induction b with
  | nil => rfl
  | cons c b ih =>
    have hstep : Mode.between.step c = some ([], .between) := by
      simp [Mode.step, Mode.start, hb.isSpace c List.mem_cons_self]
    rw [List.cons_append, scan_cons hstep]
    exact ih fun x hx => hb x (List.mem_cons_of_mem c hx)

theorem ends_of_isSeparator {t : Token} {w : List Char} (h : t.isSeparator = true)
    (hw : t.Written w) (r : List Char) : Ends (w ++ r) := by
  match t, h, hw with
  | .comma, _, hw | .closeArray, _, hw | .closeObject, _, hw =>
    cases hw
    exact .cons rfl r

/-- A text whose last token needs nothing to end it is scanned as its tokens. -/
theorem LaidOut.scan_append {s : List Char} {ts : List Token} (h : LaidOut s ts) (hapart : Apart ts)
    (hlast : ∀ t ∈ ts.getLast?, t.isOpen = false) (r : List Char) :
    scan .between (s ++ r) = (ts ++ ·) <$> scan .between r := by
  induction h with
  | finish blank =>
    rw [scan_blanks blank]
    simp
  | @token b w s t ts blank written rest ih =>
    have hfits : t.Fits (s ++ r) := by
      cases ts with
      | nil =>
        have hclosed := hlast t rfl
        cases t <;> trivial
      | cons u us =>
        -- an open token ends since blanks or a separator come next
        have hnext : t.isOpen = true → u.isSeparator = true :=
          (List.isChain_cons.mp hapart).1 u rfl
        have hends (ht : t.isOpen = true) : Ends (s ++ r) := by
          cases rest with
          | token blank written _ =>
            rw [List.append_assoc, List.append_assoc]
            exact .blanks blank.isSpace (ends_of_isSeparator (hnext ht) written _)
        cases t <;> first | trivial | exact hends rfl
    have hrest := ih (List.isChain_cons.mp hapart).2 fun u hu => hlast u (by
      cases ts with
      | nil => cases hu
      | cons => exact hu)
    rw [List.append_assoc, List.append_assoc, scan_blanks blank, scan_token written.spelled hfits,
      hrest]
    simp [Function.comp_def]

/-! ## Reading -/

theorem LaidOut.tokens?_append {s : List Char} {ms : List (Option String × Json)}
    (h : LaidOut s (tokens (.object ms))) (r : List Char) :
    tokens? (s ++ r) = (tokens (.object ms) ++ ·) <$> tokens? r := by
  have hapart : Apart (tokens (.object ms) ++ []) :=
    apart_tokens (.object ms) .nil fun _ hu => by cases hu
  rw [List.append_nil] at hapart
  refine h.scan_append hapart ?_ r
  obtain ⟨ts, hts⟩ := exists_tokens_object ms
  rw [hts, List.getLast?_concat]
  rintro t ⟨⟩
  rfl

theorem LaidOut.ofText?_object {text : String} {ms : List (Option String × Json)}
    (h : LaidOut text.toList (tokens (.object ms))) : ofText? text = some (.object ms) := by
  have htokens := h.tokens?_append []
  have hend : tokens? [] = some [] := rfl
  rw [List.append_nil, hend] at htokens
  rw [ofText?, htokens, Option.map_eq_map, Option.map_some, List.append_nil, Option.bind_eq_bind,
    Option.bind_some, ofTokens?_tokens]

/-! ### Trailing text -/

theorem restart_ne_nil {m m' : Mode} {c : Char} {ts : List Token} (hm : m.finish ≠ some [])
    (h : m.restart c = some (ts, m')) : ts ≠ [] := by
  obtain ⟨done, hdone, h⟩ := Option.bind_eq_some_iff.mp h
  obtain ⟨⟨next, m''⟩, -, h⟩ := Option.bind_eq_some_iff.mp h
  cases h
  intro hnil
  obtain ⟨rfl, -⟩ := List.append_eq_nil_iff.mp hnil
  exact hm hdone

/-- Inside a token the end of the text completes it or is an error. -/
theorem finish_ne_nil {m : Mode} (hm : m ≠ .between) : m.finish ≠ some [] := by
  intro h
  cases m with
  | between => exact hm rfl
  | string | escape | unicode => cases h
  | number part literal =>
    rw [Mode.finish] at h
    split at h <;> cases h
  | word letters =>
    rw [Mode.finish] at h
    obtain ⟨t, -, h⟩ := Option.map_eq_some_iff.mp h
    cases h

/-- A character inside a token does not leave the token unless it completes it. -/
theorem step_progress {m m' : Mode} {c : Char} {ts : List Token} (hm : m ≠ .between)
    (h : m.step c = some (ts, m')) : ts ≠ [] ∨ m' ≠ .between := by
  cases m with
  | between => exact absurd rfl hm
  | string pieces =>
    simp only [Mode.step, Mode.inString] at h
    split_ifs at h <;> cases h <;> simp
  | escape pieces =>
    simp only [Mode.step] at h
    split at h
    · cases h
      simp
    · obtain ⟨d, -, h⟩ := Option.map_eq_some_iff.mp h
      cases h
      simp
  | unicode pieces value missing =>
    obtain ⟨d, -, h⟩ := Option.map_eq_some_iff.mp h
    split at h <;> cases h <;> simp
  | number part literal =>
    simp only [Mode.step] at h
    split at h
    · cases h
      simp
    · exact .inl (restart_ne_nil (finish_ne_nil hm) h)
  | word letters =>
    simp only [Mode.step] at h
    split at h
    · cases h
      simp
    · exact .inl (restart_ne_nil (finish_ne_nil hm) h)

theorem start_progress {m' : Mode} {c : Char} {ts : List Token} (hc : Mode.isSpace c = false)
    (h : Mode.start c = some (ts, m')) : ts ≠ [] ∨ m' ≠ .between := by
  rw [Mode.start, hc, if_neg (by decide)] at h
  split_ifs at h
  · cases h
    simp
  · cases h
    simp
  · split at h
    · cases h
      simp
    · obtain ⟨part, -, h⟩ := Option.map_eq_some_iff.mp h
      cases h
      simp

/-- A token that was begun is scanned as a token or not at all. -/
theorem scan_ne_nil {m : Mode} (hm : m ≠ .between) (r : List Char) : scan m r ≠ some [] := by
  induction r generalizing m with
  | nil => exact finish_ne_nil hm
  | cons c r ih =>
    intro h
    obtain ⟨⟨ts, m'⟩, hstep, h⟩ := Option.bind_eq_some_iff.mp h
    obtain ⟨rest, hrest, h⟩ := Option.map_eq_some_iff.mp h
    obtain ⟨rfl, rfl⟩ := List.append_eq_nil_iff.mp h
    rcases step_progress hm hstep with hts | hm'
    · exact hts rfl
    · exact ih hm' hrest

/-- Only blanks have no tokens. -/
theorem blank_of_tokens? {s : List Char} (h : tokens? s = some []) : Blank s := by
  induction s with
  | nil => exact List.forall_mem_nil _
  | cons c r ih =>
    obtain ⟨⟨ts, m'⟩, hstep, h⟩ := Option.bind_eq_some_iff.mp h
    obtain ⟨rest, hrest, h⟩ := Option.map_eq_some_iff.mp h
    obtain ⟨rfl, rfl⟩ := List.append_eq_nil_iff.mp h
    cases hc : Mode.isSpace c with
    | false =>
      rcases start_progress hc hstep with hts | hm'
      · exact absurd rfl hts
      · exact absurd hrest (scan_ne_nil hm' r)
    | true =>
      have hspace : Mode.between.step c = some ([], .between) := by
        simp [Mode.step, Mode.start, hc]
      rw [hspace] at hstep
      cases hstep
      exact List.forall_mem_cons.mpr ⟨isSpace_iff.mp hc, ih hrest⟩

/-- Nothing but blanks may follow the tokens of a value. -/
theorem ofTokens?_append (v : Json) (t : Token) (ts : List Token) :
    ofTokens? (tokens v ++ t :: ts) = none := by
  have hafter : (Expecting.after v []).step t = none := by
    cases t <;> rfl
  rw [ofTokens?, ← Expecting.steps, parse_tokens, Expecting.steps, List.foldlM_cons, hafter]
  rfl

theorem LaidOut.ofText?_append {text trailing : String} {ms : List (Option String × Json)}
    (h : LaidOut text.toList (tokens (.object ms))) (htrailing : ¬Blank trailing.toList) :
    ofText? (text ++ trailing) = none := by
  rw [ofText?, String.toList_append, h.tokens?_append]
  cases hts : tokens? trailing.toList with
  | none => rfl
  | some ts =>
    cases ts with
    | nil => exact absurd (blank_of_tokens? hts) htrailing
    | cons t ts => exact ofTokens?_append (.object ms) t ts

end InputGuard.Json
