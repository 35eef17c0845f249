import InputGuard.Json.Printer
import Mathlib.Data.List.Basic

/-! # Scanning written tokens

A text spells tokens when it is their texts in a row, with blanks around them
that do not matter. A string may escape its characters in any way; a word or a
number has to end before what follows it. Scanning such a text gives its tokens
(`tokens?_of_spells`). -/

namespace InputGuard.Json

/-! ## Single steps -/

variable {c : Char} {r w : List Char} {t : Token} {m m' : Mode}

theorem scan_cons (h : m.step c = some ([], m')) : scan m (c :: r) = scan m' r := by
  rw [scan, h]
  exact Option.map_id'

theorem scan_cons_token (h : m.step c = some ([t], m')) :
    scan m (c :: r) = (t :: ·) <$> scan m' r := by
  rw [scan, h]
  rfl

/-- A character that a token ends in front of is read as it would be after it. -/
theorem scan_restart (hf : m.finish = some [t]) (hs : m.step c = m.restart c) :
    scan m (c :: r) = (t :: ·) <$> scan .between (c :: r) := by
  have hbetween : Mode.between.step c = Mode.start c := rfl
  rw [scan, scan, hs, Mode.restart, hf, hbetween]
  cases Mode.start c with
  | none => rfl
  | some p => simp [Function.comp_def]

/-! ## Strings -/

/-- The ways to write a piece of a string. -/
inductive Piece.Spelled : Piece → List Char → Prop where
  | plain {c : Char} (quote : c ≠ '"') (escape : c ≠ '\\') (visible : isControl c = false) :
    Spelled (.char c) [c]
  | short {e c : Char} (escape : shortEscape? e = some c) : Spelled (.char c) ['\\', e]
  | unit {a b c d : Char} {i j k l : Nat} (first : hexDigit? a = some i)
    (second : hexDigit? b = some j) (third : hexDigit? c = some k) (fourth : hexDigit? d = some l) :
    Spelled (.unit (((i * 16 + j) * 16 + k) * 16 + l)) ['\\', 'u', a, b, c, d]

theorem step_digit (ps : List Piece) {d : Nat} (h : hexDigit? c = some d) (value missing : Nat) :
    Mode.step (.unicode ps value (missing + 1)) c =
      if missing = 0 then some ([], .string (.unit (value * 16 + d) :: ps))
      else some ([], .unicode ps (value * 16 + d) missing) := by
  cases missing <;> simp [Mode.step, Mode.inUnicode, h]

theorem scan_piece {p : Piece} (h : p.Spelled w) (ps : List Piece) :
    scan (.string ps) (w ++ r) = scan (.string (p :: ps)) r := by
  cases h with
  | plain hq he hv =>
    apply scan_cons
    simp [Mode.step, Mode.inString, hq, he, hv]
  | @short e c hc =>
    have hu : e ≠ 'u' := by
      rintro rfl
      cases hc
    have hescape : Mode.step (.escape ps) e = some ([], .string (.char c :: ps)) := by
      simp [Mode.step, hu, hc]
    exact (scan_cons rfl).trans (scan_cons hescape)
  | unit ha hb hc hd =>
    have hopen (r : List Char) : scan (.string ps) ('\\' :: 'u' :: r) = scan (.unicode ps 0 4) r :=
      (scan_cons rfl).trans (scan_cons rfl)
    have hfirst : Mode.step (.unicode ps 0 4) _ = some ([], .unicode ps _ 3) := step_digit ps ha 0 3
    rw [Nat.zero_mul, Nat.zero_add] at hfirst
    refine (hopen _).trans ?_
    exact (scan_cons hfirst).trans ((scan_cons (step_digit ps hb _ 2)).trans
      ((scan_cons (step_digit ps hc _ 1)).trans (scan_cons (step_digit ps hd _ 0))))

/-- A piece and a way to write it. -/
abbrev Part := Piece × List Char

theorem scan_parts {parts : List Part} (h : ∀ p ∈ parts, p.1.Spelled p.2) (ps : List Piece) :
    scan (.string ps) (parts.flatMap Prod.snd ++ r) =
      scan (.string ((parts.map Prod.fst).reverse ++ ps)) r := by
  induction parts generalizing ps with
  | nil => rfl
  | cons p parts ih =>
    have hp := h p List.mem_cons_self
    have hparts := ih fun q hq => h q (List.mem_cons_of_mem p hq)
    rw [List.flatMap_cons, List.append_assoc, scan_piece hp, hparts]
    simp

/-- The text between quotation marks is the parts of a string, which assemble to
the string's text if they have one. -/
structure QuoteOf (parts : List Part) (text : Option String) (w : List Char) : Prop where
  spelled : ∀ p ∈ parts, p.1.Spelled p.2
  text : text = (Piece.assemble (parts.map Prod.fst)).map String.ofList
  quoted : w = '"' :: (parts.flatMap Prod.snd ++ ['"'])

theorem scan_quote {parts : List Part} {text : Option String} (h : QuoteOf parts text w) :
    scan .between (w ++ r) = (.string text :: ·) <$> scan .between r := by
  obtain ⟨hspelled, rfl, rfl⟩ := h
  have hopen (s : List Char) : scan .between ('"' :: s) = scan (.string []) s := scan_cons rfl
  rw [List.cons_append, hopen, List.append_assoc, scan_parts hspelled]
  apply scan_cons_token
  simp [Mode.step, Mode.inString]

/-! ### The strings that are written -/

theorem hexDigit?_digitChar {n : Nat} (h : n < 16) : hexDigit? (Nat.digitChar n) = some n := by
  revert n
  decide

theorem assemble_unit {n : Nat} (hhigh : Piece.isHigh n = false) (hlow : Piece.isLow n = false)
    (ps : List Piece) :
    Piece.assemble (.unit n :: ps) = (Char.ofNat n :: ·) <$> Piece.assemble ps := by
  rcases ps with _ | ⟨_ | _, ps⟩ <;> simp [Piece.assemble, hhigh, hlow]

/-- The written form of a character stands for it, whatever follows. -/
theorem escape_spelled (c : Char) : ∃ p : Piece, p.Spelled (escape c) ∧
    ∀ ps, Piece.assemble (p :: ps) = (c :: ·) <$> Piece.assemble ps := by
  unfold escape
  split
  case h_8 =>
    split
    · next hc =>
      have hlt : c.toNat < 32 := by simpa [isControl] using hc
      have hzero : hexDigit? '0' = some 0 := rfl
      have hunit := Piece.Spelled.unit hzero hzero
        (hexDigit?_digitChar (n := c.toNat / 16) (by omega))
        (hexDigit?_digitChar (n := c.toNat % 16) (by omega))
      have hcode : ((0 * 16 + 0) * 16 + c.toNat / 16) * 16 + c.toNat % 16 = c.toNat := by omega
      rw [hcode] at hunit
      refine ⟨.unit c.toNat, hunit, fun ps => ?_⟩
      have hhigh : Piece.isHigh c.toNat = false := by
        simp only [Piece.isHigh, Bool.and_eq_false_iff, decide_eq_false_iff_not]
        omega
      have hlow : Piece.isLow c.toNat = false := by
        simp only [Piece.isLow, Bool.and_eq_false_iff, decide_eq_false_iff_not]
        omega
      rw [assemble_unit hhigh hlow, Char.ofNat_toNat]
    · next hquote hback _ _ _ _ _ hc =>
      exact ⟨.char c, .plain hquote hback (by simpa using hc), fun _ => rfl⟩
  all_goals exact ⟨.char _, .short rfl, fun _ => rfl⟩

theorem exists_parts (s : List Char) : ∃ parts : List Part, (∀ p ∈ parts, p.1.Spelled p.2) ∧
    parts.flatMap Prod.snd = s.flatMap escape ∧
      Piece.assemble (parts.map Prod.fst) = some s := by
  induction s with
  | nil => exact ⟨[], by simp, rfl, rfl⟩
  | cons c s ih =>
    obtain ⟨parts, hspelled, htext, hassemble⟩ := ih
    obtain ⟨p, hp, hc⟩ := escape_spelled c
    refine ⟨(p, escape c) :: parts, ?_, ?_, ?_⟩
    · intro q hq
      rcases List.mem_cons.mp hq with rfl | hq
      · exact hp
      · exact hspelled q hq
    · rw [List.flatMap_cons, List.flatMap_cons, htext]
    · rw [List.map_cons, hc, hassemble]
      rfl

theorem quote_spelled (text : Option String) : ∃ parts, QuoteOf parts text (quote text) := by
  cases text with
  | none =>
    have hhalf : Piece.Spelled (.unit 0xd800) "\\ud800".toList :=
      .unit (i := 13) (j := 8) (k := 0) (l := 0) rfl rfl rfl rfl
    exact ⟨[(.unit 0xd800, "\\ud800".toList)], by simpa using hhalf, rfl, rfl⟩
  | some s =>
    obtain ⟨parts, hspelled, htext, hassemble⟩ := exists_parts s.toList
    refine ⟨parts, hspelled, ?_, ?_⟩
    · rw [hassemble, Option.map_some, String.ofList_toList]
    · rw [htext]
      rfl

/-! ## Words and numbers -/

/-- Characters that end a word or a number: blanks and punctuation. -/
def isBreak (c : Char) : Bool := Mode.isSpace c || (Mode.punctuation? c).isSome

def breaks : List Char := [' ', '\t', '\n', '\r', '[', ']', '\x7b', '\x7d', ':', ',']

theorem mem_of_isBreak (h : isBreak c = true) : c ∈ breaks := by
  simp only [isBreak, Mode.isSpace, Mode.punctuation?, Bool.or_eq_true, beq_iff_eq] at h
  rcases h with h | h
  · simp only [breaks, List.mem_cons]
    tauto
  · split at h <;> simp_all [breaks]

theorem next?_of_isBreak (part : NumberPart) (h : isBreak c = true) : part.next? c = none := by
  have hall : (breaks.all fun c => (part.next? c).isNone) = true := by
    cases part <;> rfl
  exact Option.isNone_iff_eq_none.mp (List.all_eq_true.mp hall c (mem_of_isBreak h))

/-- The text ends, or a word or a number ends in front of it. -/
def Ends (r : List Char) : Prop := ∀ c, r.head? = some c → isBreak c = true

theorem scan_ends (hf : m.finish = some [t]) (hr : Ends r)
    (hs : ∀ c, isBreak c = true → m.step c = m.restart c) :
    scan m r = (t :: ·) <$> scan .between r := by
  cases r with
  | nil =>
    rw [scan, hf]
    rfl
  | cons c r => exact scan_restart hf (hs c (hr c rfl))

/-- Whether a text is a number. -/
def isNumber : List Char → Bool
  | [] => false
  | c :: r => (NumberPart.start? c >>= r.foldlM NumberPart.next?).any NumberPart.isComplete

theorem scan_digits {part part' : NumberPart} {literal : List Char}
    (h : w.foldlM NumberPart.next? part = some part') :
    scan (.number part literal) (w ++ r) = scan (.number part' (w.reverse ++ literal)) r := by
  induction w generalizing part literal with
  | nil =>
    cases h
    rfl
  | cons c w ih =>
    rw [List.foldlM_cons] at h
    obtain ⟨next, hnext, hw⟩ := Option.bind_eq_some_iff.mp h
    have hstep : Mode.step (.number part literal) c = some ([], .number next (c :: literal)) := by
      simp [Mode.step, hnext]
    rw [List.cons_append, scan_cons hstep, ih hw]
    simp

theorem step_number {part : NumberPart} (h : NumberPart.start? c = some part) :
    Mode.between.step c = some ([], .number part [c]) := by
  have hrange : c = '-' ∨ c.isDigit = true := by
    unfold NumberPart.start? at h
    split at h
    · next hc => exact .inl hc
    · split at h
      · next hc => exact .inr (hc ▸ rfl)
      · split at h
        · next hc => exact .inr hc
        · cases h
  have hnone : Mode.isSpace c = false ∧ c ≠ '"' ∧ c.isLower = false ∧
      Mode.punctuation? c = none := by
    rcases hrange with rfl | hd
    · decide
    · refine ⟨?_, ?_, ?_, ?_⟩
      · rw [Bool.eq_false_iff]
        intro hs
        simp only [Mode.isSpace, Bool.or_eq_true, beq_iff_eq] at hs
        rcases hs with ((rfl | rfl) | rfl) | rfl <;> cases hd
      · rintro rfl
        cases hd
      · have h57 : c.toNat ≤ 57 := by
          simp only [Char.isDigit, Bool.and_eq_true, decide_eq_true_eq,
            UInt32.le_iff_toNat_le] at hd
          exact hd.2
        have h97 : ¬97 ≤ c.toNat := by omega
        have hlower : c.isLower = (decide (c.val ≥ 97) && decide (c.val ≤ 122)) := rfl
        have hval : ¬c.val ≥ 97 := fun h => h97 (UInt32.le_iff_toNat_le.mp h)
        rw [hlower, decide_eq_false hval, Bool.false_and]
      · unfold Mode.punctuation?
        split <;> first | rfl | cases hd
  obtain ⟨hs, hq, hl, hp⟩ := hnone
  simp [Mode.step, Mode.start, hs, hq, hl, hp, h]

theorem scan_number (h : isNumber w = true) (hr : Ends r) :
    scan .between (w ++ r) = (.number (String.ofList w) :: ·) <$> scan .between r := by
  cases w with
  | nil => cases h
  | cons c w =>
    obtain ⟨part, hpart, hcomplete⟩ := (Option.any_eq_true _ _).mp h
    obtain ⟨first, hfirst, hrest⟩ := Option.bind_eq_some_iff.mp hpart
    have hfinish : Mode.finish (.number part (w.reverse ++ [c])) =
        some [.number (String.ofList (c :: w))] := by
      simp [Mode.finish, hcomplete]
    rw [List.cons_append, scan_cons (step_number hfirst), scan_digits hrest]
    refine scan_ends hfinish hr fun d hd => ?_
    rw [Mode.step, next?_of_isBreak part hd]

theorem step_word (letters : List Char) (h : isBreak c = true) :
    Mode.step (.word letters) c = Mode.restart (.word letters) c := by
  have hall : (breaks.all fun c => !c.isLower) = true := rfl
  have hc : c.isLower = false := by simpa using List.all_eq_true.mp hall c (mem_of_isBreak h)
  simp [Mode.step, hc]

theorem scan_letters {letters : List Char} (hw : w.all Char.isLower = true) :
    scan (.word letters) (w ++ r) = scan (.word (w.reverse ++ letters)) r := by
  induction w generalizing letters with
  | nil => rfl
  | cons c w ih =>
    obtain ⟨hc, hrest⟩ : c.isLower = true ∧ w.all Char.isLower = true := by simpa using hw
    have hstep : Mode.step (.word letters) c = some ([], .word (c :: letters)) := by
      simp [Mode.step, hc]
    rw [List.cons_append, scan_cons hstep, ih hrest]
    simp

theorem scan_word (hc : Mode.between.step c = some ([], .word [c]))
    (hw : w.all Char.isLower = true) (ht : Mode.word? (c :: w) = some t) (hr : Ends r) :
    scan .between (c :: w ++ r) = (t :: ·) <$> scan .between r := by
  have hfinish : Mode.finish (.word (w.reverse ++ [c])) = some [t] := by
    simp [Mode.finish, ht]
  rw [List.cons_append, scan_cons hc, scan_letters hw]
  exact scan_ends hfinish hr fun d hd => step_word _ hd

/-! ## Texts and their tokens -/

/-- The ways to write a token. -/
def Token.Spelled (w : List Char) : Token → Prop
  | .number literal => isNumber literal.toList = true ∧ w = literal.toList
  | .string text => ∃ parts, QuoteOf parts text w
  | t => w = t.write

/-- Whether a token ends in front of a text. -/
def Token.Fits (r : List Char) : Token → Prop
  | .null | .bool _ | .number _ => Ends r
  | _ => True

theorem scan_token (hw : t.Spelled w) (hr : t.Fits r) :
    scan .between (w ++ r) = (t :: ·) <$> scan .between r := by
  cases t with
  | string text =>
    obtain ⟨parts, hquote⟩ := hw
    exact scan_quote hquote
  | number literal =>
    obtain ⟨hnumber, rfl⟩ := hw
    have hscan := scan_number hnumber hr
    rwa [String.ofList_toList] at hscan
  | null =>
    cases hw
    exact scan_word rfl rfl rfl hr
  | bool b =>
    cases hw
    cases b <;> exact scan_word rfl rfl rfl hr
  | openArray | closeArray | openObject | closeObject | colon | comma =>
    cases hw
    exact scan_cons_token rfl

/-- The text is these tokens with blanks around them. -/
inductive Spells : List Char → List Token → Prop where
  | nil : Spells [] []
  | blank {c : Char} {r : List Char} {ts : List Token} (space : Mode.isSpace c = true)
    (rest : Spells r ts) : Spells (c :: r) ts
  | token {w r : List Char} {t : Token} {ts : List Token} (spelled : t.Spelled w)
    (fits : t.Fits r) (rest : Spells r ts) : Spells (w ++ r) (t :: ts)

theorem tokens?_of_spells {s : List Char} {ts : List Token} (h : Spells s ts) :
    tokens? s = some ts := by
  induction h with
  | nil => rfl
  | @blank c r ts space _ ih =>
    have hstep : Mode.between.step c = some ([], .between) := by
      simp [Mode.step, Mode.start, space]
    rw [tokens?, scan_cons hstep]
    exact ih
  | token spelled fits _ ih =>
    rw [tokens?] at ih ⊢
    rw [scan_token spelled fits, ih]
    rfl

theorem Spells.blanks {b r : List Char} {ts : List Token} (hb : ∀ c ∈ b, Mode.isSpace c = true)
    (hr : Spells r ts) : Spells (b ++ r) ts := by
  induction b with
  | nil => exact hr
  | cons c b ih =>
    exact .blank (hb c List.mem_cons_self) (ih fun x hx => hb x (List.mem_cons_of_mem c hx))

end InputGuard.Json
