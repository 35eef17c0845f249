import InputGuard.Json.Parser
import InputGuard.Proofs.Json.Token

/-! # Reading a written value back

A value has one row of tokens in every layout. The parser takes that row back to
the value, whatever containers are open around it (`parse_tokens`), so a text
that spells the tokens of a value reads as the value (`ofText?_of_spells`), and
so does the text that any layout of blanks writes (`ofText?_write`). -/

namespace InputGuard.Json

/-! ## The tokens of a value -/

mutual

def tokens : Json → List Token
  | .null => [.null]
  | .bool b => [.bool b]
  | .number literal => [.number literal]
  | .string text => [.string text]
  | .array [] => [.openArray, .closeArray]
  | .array (v :: vs) => .openArray :: (tokens v ++ elementTokens vs ++ [.closeArray])
  | .object [] => [.openObject, .closeObject]
  | .object ((k, v) :: ms) =>
    .openObject :: .string k :: .colon :: (tokens v ++ memberTokens ms ++ [.closeObject])

/-- The elements after the first, each behind a comma. -/
def elementTokens : List Json → List Token
  | [] => []
  | v :: vs => .comma :: (tokens v ++ elementTokens vs)

/-- The members after the first, each behind a comma. -/
def memberTokens : List (Option String × Json) → List Token
  | [] => []
  | (k, v) :: ms => .comma :: .string k :: .colon :: (tokens v ++ memberTokens ms)

end

/-- A value does not begin with a closing bracket. -/
theorem exists_tokens (v : Json) : ∃ t ts, tokens v = t :: ts ∧ t ≠ .closeArray := by
  cases v with
  | null => exact ⟨.null, [], by rw [tokens], nofun⟩
  | bool b => exact ⟨.bool b, [], by rw [tokens], nofun⟩
  | number literal => exact ⟨.number literal, [], by rw [tokens], nofun⟩
  | string text => exact ⟨.string text, [], by rw [tokens], nofun⟩
  | array vs => cases vs <;> exact ⟨.openArray, _, by rw [tokens], nofun⟩
  | object ms => rcases ms with _ | ⟨⟨k, v⟩, ms⟩ <;> exact ⟨.openObject, _, by rw [tokens], nofun⟩

/-! ## Parsing -/

namespace Expecting

/-- Takes the tokens one after the other. -/
def steps (e : Expecting) (ts : List Token) : Option Expecting := ts.foldlM step e

theorem steps_cons {e e' : Expecting} {t : Token} (h : e.step t = some e') (ts : List Token) :
    e.steps (t :: ts) = e'.steps ts := by
  rw [steps, List.foldlM_cons, h]
  rfl

/-- The first element of an array is read like any other one. -/
theorem steps_firstElement (stack : List Frame) (v : Json) (ts : List Token) :
    (firstElement stack).steps (tokens v ++ ts) =
      (value (.array [] :: stack)).steps (tokens v ++ ts) := by
  obtain ⟨t, rest, htokens, ht⟩ := exists_tokens v
  have hstep : (firstElement stack).step t = (value (.array [] :: stack)).step t := by
    cases t <;> first | rfl | exact absurd rfl ht
  rw [htokens, List.cons_append, steps, steps, List.foldlM_cons, List.foldlM_cons, hstep]

end Expecting

open Expecting (steps_cons)

mutual

/-- Inside any open containers the tokens of a value are read as the value. -/
theorem parse_tokens (v : Json) (stack : List Frame) (ts : List Token) :
    (Expecting.value stack).steps (tokens v ++ ts) = (Expecting.after v stack).steps ts := by
  match v with
  | .null | .bool b | .number literal | .string text =>
    rw [tokens]
    exact steps_cons rfl ts
  | .array [] =>
    rw [tokens]
    exact (steps_cons rfl _).trans (steps_cons rfl ts)
  | .array (v :: vs) =>
    have hrest := parse_elements v [] vs stack ts
    rw [tokens, List.cons_append, steps_cons rfl, List.append_assoc, List.append_assoc,
      Expecting.steps_firstElement, parse_tokens v]
    exact hrest
  | .object [] =>
    rw [tokens]
    exact (steps_cons rfl _).trans (steps_cons rfl ts)
  | .object ((k, v) :: ms) =>
    have hrest := parse_members k v [] ms stack ts
    rw [tokens, List.cons_append, steps_cons rfl, List.cons_append, steps_cons rfl,
      List.cons_append, steps_cons rfl, List.append_assoc, List.append_assoc, parse_tokens v]
    exact hrest

/-- The elements after one, in front of which some were read. -/
theorem parse_elements (v : Json) (before vs : List Json) (stack : List Frame) (ts : List Token) :
    (Expecting.after v (.array before :: stack)).steps
        (elementTokens vs ++ ([.closeArray] ++ ts)) =
      (Expecting.after (.array (before.reverse ++ v :: vs)) stack).steps ts := by
  match vs with
  | [] =>
    rw [elementTokens]
    refine (steps_cons rfl ts).trans ?_
    rw [List.reverse_cons]
  | w :: vs =>
    have hrest := parse_elements w (v :: before) vs stack ts
    rw [elementTokens, List.cons_append, steps_cons rfl, List.append_assoc, parse_tokens w, hrest]
    simp

/-- The members after one, in front of which some were read. -/
theorem parse_members (k : Option String) (v : Json) (before ms : List (Option String × Json))
    (stack : List Frame) (ts : List Token) :
    (Expecting.after v (.object before k :: stack)).steps
        (memberTokens ms ++ ([.closeObject] ++ ts)) =
      (Expecting.after (.object (before.reverse ++ (k, v) :: ms)) stack).steps ts := by
  match ms with
  | [] =>
    rw [memberTokens]
    refine (steps_cons rfl ts).trans ?_
    rw [List.reverse_cons]
  | (l, w) :: ms =>
    have hrest := parse_members l w ((k, v) :: before) ms stack ts
    rw [memberTokens, List.cons_append, steps_cons rfl, List.cons_append, steps_cons rfl,
      List.cons_append, steps_cons rfl, List.append_assoc, parse_tokens w, hrest]
    simp

end

theorem ofTokens?_tokens (v : Json) : ofTokens? (tokens v) = some v := by
  have hparse := parse_tokens v [] []
  rw [List.append_nil] at hparse
  rw [ofTokens?, ← Expecting.steps, hparse]
  rfl

theorem ofText?_of_spells {text : String} {v : Json} (h : Spells text.toList (tokens v)) :
    ofText? text = some v := by
  rw [ofText?, tokens?_of_spells h]
  exact ofTokens?_tokens v

/-! ## Layouts -/

/-- A layout of blanks. -/
structure Layout.Blank (l : Layout) : Prop where
  line : ∀ level, ∀ c ∈ l.line level, Mode.isSpace c = true
  space : ∀ c ∈ l.space, Mode.isSpace c = true

theorem Layout.blank_compact : Layout.compact.Blank := ⟨nofun, nofun⟩

theorem Layout.blank_pretty : Layout.pretty.Blank where
  line := by
    intro level c hc
    rcases List.mem_cons.mp hc with rfl | hc
    · rfl
    · rw [List.eq_of_mem_replicate hc]
      rfl
  space := by
    intro c hc
    rw [List.mem_singleton.mp hc]
    rfl

/-- The literals of a value are numbers. -/
inductive Writable : Json → Prop where
  | null : Writable .null
  | bool (b : Bool) : Writable (.bool b)
  | number {literal : String} (h : isNumber literal.toList = true) : Writable (.number literal)
  | string (text : Option String) : Writable (.string text)
  | array {vs : List Json} (h : ∀ v ∈ vs, Writable v) : Writable (.array vs)
  | object {ms : List (Option String × Json)} (h : ∀ m ∈ ms, Writable m.2) : Writable (.object ms)

theorem Ends.nil : Ends [] := nofun

theorem Ends.cons {c : Char} (h : isBreak c = true) (r : List Char) : Ends (c :: r) := by
  intro d hd
  cases hd
  exact h

theorem Ends.blanks {b r : List Char} (hb : ∀ c ∈ b, Mode.isSpace c = true) (hr : Ends r) :
    Ends (b ++ r) := by
  cases b with
  | nil => exact hr
  | cons c b =>
    have hc : isBreak c = true := by simp [isBreak, hb c List.mem_cons_self]
    exact .cons hc (b ++ r)

section Placed

variable {l : Layout} {r : List Char} {ts : List Token}

theorem writePlaced_cons (lead : List Char) (t : Token) (ps : List Placed) (r : List Char) :
    writePlaced ((lead, t) :: ps) ++ r = lead ++ (t.write ++ (writePlaced ps ++ r)) := by
  simp [writePlaced]

theorem writePlaced_append (ps qs : List Placed) (r : List Char) :
    writePlaced (ps ++ qs) ++ r = writePlaced ps ++ (writePlaced qs ++ r) := by
  simp [writePlaced]

theorem spells_placed {lead : List Char} {t : Token} (hlead : ∀ c ∈ lead, Mode.isSpace c = true)
    (ht : t.Spelled t.write) (hf : t.Fits r) (hr : Spells r ts) :
    Spells (lead ++ (t.write ++ r)) (t :: ts) :=
  .blanks hlead (.token ht hf hr)

theorem ends_placeElements (level : Nat) (vs : List Json) (hr : Ends r) :
    Ends (writePlaced (placeElements l level vs) ++ r) := by
  cases vs with
  | nil => exact hr
  | cons v vs =>
    rw [placeElements, writePlaced_cons]
    exact .cons rfl _

theorem ends_placeMembers (level : Nat) (ms : List (Option String × Json)) (hr : Ends r) :
    Ends (writePlaced (placeMembers l level ms) ++ r) := by
  rcases ms with _ | ⟨⟨k, v⟩, ms⟩
  · exact hr
  · rw [placeMembers, writePlaced_cons]
    exact .cons rfl _

mutual

/-- The text of a value spells its tokens where it ends before the text after it. -/
theorem spells_place (hl : l.Blank) (v : Json) (hv : Writable v) (level : Nat)
    {lead r : List Char} {ts : List Token} (hlead : ∀ c ∈ lead, Mode.isSpace c = true)
    (hr : Spells r ts) (hends : Ends r) :
    Spells (writePlaced (place l level lead v) ++ r) (tokens v ++ ts) := by
  match v with
  | .null | .bool b =>
    rw [place, tokens, writePlaced_cons]
    exact spells_placed hlead rfl hends hr
  | .number literal =>
    cases hv with
    | number h =>
      rw [place, tokens, writePlaced_cons]
      exact spells_placed hlead ⟨h, rfl⟩ hends hr
  | .string text =>
    rw [place, tokens, writePlaced_cons]
    exact spells_placed hlead (quote_spelled text) trivial hr
  | .array [] =>
    rw [place, tokens, writePlaced_cons, writePlaced_cons]
    exact spells_placed hlead rfl trivial (spells_placed nofun rfl trivial hr)
  | .array (v :: vs) =>
    cases hv with
    | array h =>
      have hclose : Spells (l.line level ++ (Token.closeArray.write ++ r)) (.closeArray :: ts) :=
        spells_placed (hl.line level) rfl trivial hr
      have hend : Ends (l.line level ++ (Token.closeArray.write ++ r)) :=
        .blanks (hl.line level) (.cons rfl r)
      have helements := spells_placeElements hl vs (fun w hw => h w (List.mem_cons_of_mem v hw))
        (level + 1) hclose hend
      have hvalue := spells_place hl v (h v List.mem_cons_self) (level + 1)
        (hl.line (level + 1)) helements (ends_placeElements (level + 1) vs hend)
      rw [place, tokens, writePlaced_cons, writePlaced_append, writePlaced_append,
        writePlaced_cons, List.cons_append, List.append_assoc, List.append_assoc]
      exact spells_placed hlead rfl trivial hvalue
  | .object [] =>
    rw [place, tokens, writePlaced_cons, writePlaced_cons]
    exact spells_placed hlead rfl trivial (spells_placed nofun rfl trivial hr)
  | .object ((k, v) :: ms) =>
    cases hv with
    | object h =>
      have hclose : Spells (l.line level ++ (Token.closeObject.write ++ r)) (.closeObject :: ts) :=
        spells_placed (hl.line level) rfl trivial hr
      have hend : Ends (l.line level ++ (Token.closeObject.write ++ r)) :=
        .blanks (hl.line level) (.cons rfl r)
      have hmembers := spells_placeMembers hl ms (fun m hm => h m (List.mem_cons_of_mem _ hm))
        (level + 1) hclose hend
      have hvalue := spells_place hl v (h (k, v) List.mem_cons_self) (level + 1) hl.space hmembers
        (ends_placeMembers (level + 1) ms hend)
      rw [place, tokens, writePlaced_cons, writePlaced_cons, writePlaced_cons, writePlaced_append,
        writePlaced_append, writePlaced_cons, List.cons_append, List.cons_append,
        List.cons_append, List.append_assoc, List.append_assoc]
      exact spells_placed hlead rfl trivial (spells_placed (hl.line (level + 1)) (quote_spelled k)
        trivial (spells_placed nofun rfl trivial hvalue))

theorem spells_placeElements (hl : l.Blank) (vs : List Json) (hv : ∀ v ∈ vs, Writable v)
    (level : Nat) {r : List Char} {ts : List Token} (hr : Spells r ts) (hends : Ends r) :
    Spells (writePlaced (placeElements l level vs) ++ r) (elementTokens vs ++ ts) := by
  match vs with
  | [] => exact hr
  | v :: vs =>
    have helements := spells_placeElements hl vs (fun w hw => hv w (List.mem_cons_of_mem v hw))
      level hr hends
    have hvalue := spells_place hl v (hv v List.mem_cons_self) level (hl.line level) helements
      (ends_placeElements level vs hends)
    rw [placeElements, elementTokens, writePlaced_cons, writePlaced_append, List.cons_append,
      List.append_assoc]
    exact spells_placed nofun rfl trivial hvalue

theorem spells_placeMembers (hl : l.Blank) (ms : List (Option String × Json))
    (hv : ∀ m ∈ ms, Writable m.2) (level : Nat) {r : List Char} {ts : List Token}
    (hr : Spells r ts) (hends : Ends r) :
    Spells (writePlaced (placeMembers l level ms) ++ r) (memberTokens ms ++ ts) := by
  match ms with
  | [] => exact hr
  | (k, v) :: ms =>
    have hmembers := spells_placeMembers hl ms (fun m hm => hv m (List.mem_cons_of_mem _ hm))
      level hr hends
    have hvalue := spells_place hl v (hv (k, v) List.mem_cons_self) level hl.space hmembers
      (ends_placeMembers level ms hends)
    rw [placeMembers, memberTokens, writePlaced_cons, writePlaced_cons, writePlaced_cons,
      writePlaced_append, List.cons_append, List.cons_append, List.cons_append, List.append_assoc]
    exact spells_placed nofun rfl trivial (spells_placed (hl.line level) (quote_spelled k) trivial
      (spells_placed nofun rfl trivial hvalue))

end

end Placed

/-- Any layout of blanks is read back. -/
theorem ofText?_write {l : Layout} (hl : l.Blank) {v : Json} (hv : Writable v) :
    ofText? (write l v) = some v := by
  have hspells : Spells (writePlaced (place l 0 [] v) ++ []) (tokens v ++ []) :=
    spells_place hl v hv 0 nofun .nil .nil
  rw [List.append_nil, List.append_nil] at hspells
  apply ofText?_of_spells
  rwa [write, String.toList_ofList]

end InputGuard.Json
