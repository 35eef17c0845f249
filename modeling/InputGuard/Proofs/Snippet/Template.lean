import InputGuard.Proofs.Config.Check
import InputGuard.Proofs.Vtl.Statement
import InputGuard.Snippet.Generate

/-! # Snippets as pieces

Every snippet is spelled by a template that follows its rule (`spells_template`),
if the field is an identifier and the input a reference. Texts that come from a
directive stand in literals of that template and nowhere else, so what a snippet
reads as is known whatever these texts are (`read_render`). -/

namespace InputGuard.Snippet

open Rule (Check Default Filter Members)
open Vtl (Piece Template isCode isPlain isCode_of_isPlain)
open Vtl.Template (Spells ofCode)

/-! ## Code that comes from a directive or the settings -/

/-- The field and the input can stand in code. -/
structure Context.WellFormed (c : Context) : Prop where
  field : Text.isIdentifier c.field.toList = true
  input : Config.isReference c.input.toList = true

theorem isPlain_of_isFollowing {x : Char} (h : Text.isFollowing x = true) : isPlain x = true := by
  simp only [isPlain, Bool.and_eq_true, bne_iff_ne, ne_eq]
  refine ⟨⟨?_, ?_⟩, ?_⟩ <;> rintro rfl <;> cases h

theorem isPlain_of_isDigit {x : Char} (h : x.isDigit = true) : isPlain x = true := by
  simp only [isPlain, Bool.and_eq_true, bne_iff_ne, ne_eq]
  refine ⟨⟨?_, ?_⟩, ?_⟩ <;> rintro rfl <;> cases h

theorem isPlain_of_isIdentifier {s : List Char} (h : Text.isIdentifier s = true) :
    ∀ x ∈ s, isPlain x = true :=
  fun _ hx => isPlain_of_isFollowing (Text.isFollowing_of_mem h hx)

theorem isPlain_of_isReference {s : List Char} (h : Config.isReference s = true) :
    ∀ x ∈ s, isPlain x = true := by
  intro x hx
  rcases Config.mem_of_isReference h hx with rfl | rfl | hf
  · rfl
  · rfl
  · exact isPlain_of_isFollowing hf

theorem isCode_int (v : Int64) : isCode (Vtl.int v).toList = true := by
  refine isCode_of_isPlain fun x hx => ?_
  rw [Vtl.int, String.toList_ofList] at hx
  rcases Number.mem_writeInteger hx with rfl | hd
  · rfl
  · exact isPlain_of_isDigit hd

theorem isCode_float (v : Number.Binary64) : isCode (Vtl.float v).toList = true := by
  refine isCode_of_isPlain fun x hx => ?_
  rw [Vtl.float, String.toList_ofList] at hx
  rcases Number.Decimal.mem_plain hx with rfl | rfl | hd
  · rfl
  · rfl
  · exact isPlain_of_isDigit hd

namespace Context.WellFormed

variable {c : Context} (h : c.WellFormed)
include h

theorem isCode_input : isCode c.input.toList = true :=
  isCode_of_isPlain (isPlain_of_isReference h.input)

theorem isCode_fieldRef : isCode c.fieldRef.toList = true := by
  refine isCode_of_isPlain fun x hx => ?_
  simp only [fieldRef, String.toList_append, List.mem_append] at hx
  rcases hx with (hi | hd) | hf
  · exact isPlain_of_isReference h.input x hi
  · have hx : x = '.' := by simpa using hd
    exact hx ▸ rfl
  · exact isPlain_of_isIdentifier h.field x hf

theorem isCode_membersVar : isCode c.membersVar.toList = true := by
  refine isCode_of_isPlain fun x hx => ?_
  simp only [membersVar, String.toList_append, List.mem_append] at hx
  rcases hx with (hd | hf) | ha
  · have hx : x = '$' := by simpa using hd
    exact hx ▸ rfl
  · exact isPlain_of_isIdentifier h.field x hf
  · have hx : x = 'A' ∨ x = 'r' := by simpa using ha
    rcases hx with rfl | rfl <;> rfl

/-- A title stays on its line. -/
theorem notMem_title {what : String} (hw : '\n' ∉ what.toList) :
    '\n' ∉ (c.title what).toList := by
  have hf : '\n' ∉ c.field.toList := by
    intro hm
    have := Text.isFollowing_of_mem h.field hm
    cases this
  simp [title, hw, hf]

end Context.WellFormed

/-! ## Checks -/

def rejectIfTemplate (c : Context) (what : String) (condition : Template) (complaint : String) :
    Template :=
  .block (c.title what)
    (.when condition (.raise (c.field ++ " attribute " ++ complaint) c.errorType))

def typeCheckTemplate (c : Context) (what test type : String) : Template :=
  rejectIfTemplate c what (ofCode ("!$util." ++ test ++ "(" ++ c.fieldRef ++ ")"))
    ("must be of type " ++ type)

def patternCheckTemplate (c : Context) (what pattern complaint : String) : Template :=
  rejectIfTemplate c what
    [.code "!$util.matches(", .literal pattern, .code ", ", .code c.fieldRef, .code ")"] complaint

/-- A pattern check up to its pattern. -/
def patternOpening (c : Context) (what : String) : Template :=
  [.comment (" [Start] " ++ c.title what ++ ". **"), .code "\n", .code "#if( ",
    .code "!$util.matches("]

/-- A pattern check from the end of its pattern. -/
def patternClosing (c : Context) (what complaint : String) : Template :=
  [.code ", ", .code c.fieldRef, .code ")", .code " )\n  "] ++
    (Template.raise (c.field ++ " attribute " ++ complaint) c.errorType ++
      [.code "\n#end", .code "\n", .comment (" [End] " ++ c.title what ++ ". **")])

theorem patternCheckTemplate_eq (c : Context) (what pattern complaint : String) :
    patternCheckTemplate c what pattern complaint =
      patternOpening c what ++ .literal pattern :: patternClosing c what complaint := rfl

def memberPieces : Members → List Piece
  | .strings ms => ms.map .literal
  | .integers ms => ms.map fun v => .code (Vtl.int v)
  | .floats ms => ms.map fun v => .code (Vtl.float v)

def membershipTemplate (c : Context) (members : Members) : Template :=
  .block (c.title "Membership list for")
      (.assign c.membersVar (.list (memberPieces members))) ++ ofCode "\n" ++
    rejectIfTemplate c "Membership check on"
      (ofCode ("!" ++ c.membersVar ++ ".contains(" ++ c.fieldRef ++ ")")) "must be valid url"

/-- A membership check up to its members. -/
def membershipOpening (c : Context) : Template :=
  [.comment (" [Start] " ++ c.title "Membership list for" ++ ". **"), .code "\n", .code "#set( ",
    .code c.membersVar, .code " = ", .code "["]

/-- A membership check from the end of its members. -/
def membershipClosing (c : Context) : Template :=
  [.code "]", .code " )", .code "\n",
    .comment (" [End] " ++ c.title "Membership list for" ++ ". **"), .code "\n"] ++
    rejectIfTemplate c "Membership check on"
      (ofCode ("!" ++ c.membersVar ++ ".contains(" ++ c.fieldRef ++ ")")) "must be valid url"

theorem membershipTemplate_eq (c : Context) (members : Members) :
    membershipTemplate c members =
      membershipOpening c ++ ((memberPieces members).intersperse (.code ", ") ++
        membershipClosing c) := by
  simp [membershipTemplate, membershipOpening, membershipClosing, Template.block,
    Template.assign, Template.list, ofCode]

def checkTemplate (c : Context) : Check → Template
  | .required => rejectIfTemplate c "Required check on" (ofCode ("!" ++ c.fieldRef)) "is required"
  | .number => typeCheckTemplate c "Number check on" "isNumber" "number"
  | .string => typeCheckTemplate c "String check on" "isString" "string"
  | .boolean => typeCheckTemplate c "Boolean check on" "isBoolean" "boolean"
  | .email => patternCheckTemplate c "Email check on" emailPattern "must be valid email"
  | .url => patternCheckTemplate c "URL check on" urlPattern "must be valid url"
  | .regex expression =>
    patternCheckTemplate c "Pattern check on" expression "must match pattern"
  | .membership members => membershipTemplate c members

/-! ## Filters -/

def storeTemplate (c : Context) (value : Template) : Template :=
  .quietly (.put c.input c.field value)

def defaultPiece : Default → Piece
  | .string text => .literal text
  | .integer value => .code (Vtl.int value)
  | .float value => .code (Vtl.float value)
  | .boolean value => .code (Vtl.bool value)

def defaultTemplate (c : Context) (value : Default) : Template :=
  .block (c.title "Default filter on")
    (.choose (ofCode ("!$util.isNull(" ++ c.fieldRef ++ ")")) (storeTemplate c (ofCode c.fieldRef))
      (storeTemplate c [defaultPiece value]))

/-- A default filter up to its value. -/
def defaultOpening (c : Context) : Template :=
  [.comment (" [Start] " ++ c.title "Default filter on" ++ ". **"), .code "\n", .code "#if( ",
    .code ("!$util.isNull(" ++ c.fieldRef ++ ")"), .code " )\n  "] ++
    storeTemplate c (ofCode c.fieldRef) ++
    [.code "\n#else\n  ", .code "$util.qr(", .code c.input, .code ".put(", .literal c.field,
      .code ", "]

/-- A default filter from the end of its value. -/
def defaultClosing (c : Context) : Template :=
  [.code ")", .code ")", .code "\n#end", .code "\n",
    .comment (" [End] " ++ c.title "Default filter on" ++ ". **")]

theorem defaultTemplate_eq (c : Context) (value : Default) :
    defaultTemplate c value = defaultOpening c ++ defaultPiece value :: defaultClosing c := rfl

def replaceTemplate (c : Context) (what condition value : String) : Template :=
  .block (c.title what) (.when (ofCode condition) (storeTemplate c (ofCode value)))

def replaceFirstTemplate (c : Context) (what method : String) : Template :=
  replaceTemplate c what ("!$util.isNullOrEmpty(" ++ c.fieldRef ++ ")")
    (c.fieldRef ++ ".substring(0, 1)." ++ method ++ "().concat(" ++ c.fieldRef ++ ".substring(1))")

def filterTemplate (c : Context) : Filter → Template
  | .default value => defaultTemplate c value
  | .lowercase =>
    replaceTemplate c "Lowercase filter on" c.fieldRef (c.fieldRef ++ ".toLowerCase()")
  | .uppercase =>
    replaceTemplate c "Uppercase filter on" c.fieldRef (c.fieldRef ++ ".toUpperCase()")
  | .lowerFirst => replaceFirstTemplate c "Lowercase first character filter on" "toLowerCase"
  | .upperFirst => replaceFirstTemplate c "Uppercase first character filter on" "toUpperCase"
  | .trim => replaceTemplate c "Trim filter on" c.fieldRef (c.fieldRef ++ ".trim()")

def template (c : Context) : Rule → Template
  | .check k => checkTemplate c k
  | .filter f => filterTemplate c f

/-! ## Each snippet is spelled by its template -/

section Spells

open Vtl.Template

variable {c : Context} (h : c.WellFormed) {next : Option Char}
include h

theorem spells_rejectIf {what condition : String} {t : Template} (complaint : String)
    (hw : '\n' ∉ what.toList) (ht : Spells t condition (some ' '))
    (hn : next = none ∨ next = some '\n') :
    Spells (rejectIfTemplate c what t complaint) (rejectIf c what condition complaint) next :=
  spells_block (h.notMem_title hw) (spells_when _ ht (spells_raise _ _ _)) hn

theorem spells_typeCheck {what test : String} (type : String) (hw : '\n' ∉ what.toList)
    (ht : isCode test.toList = true) (hn : next = none ∨ next = some '\n') :
    Spells (typeCheckTemplate c what test type) (typeCheck c what test type) next := by
  refine spells_rejectIf h _ hw (spells_ofCode ?_ _) hn
  have hcall : isCode ("!$util." ++ test ++ "(").toList = true :=
    isCode_concat (isCode_concat rfl ht) rfl
  exact isCode_concat (isCode_concat hcall h.isCode_fieldRef) rfl

theorem spells_patternCheck {what : String} (pattern complaint : String)
    (hw : '\n' ∉ what.toList) (hn : next = none ∨ next = some '\n') :
    Spells (patternCheckTemplate c what pattern complaint)
      (patternCheck c what pattern complaint) next := by
  refine spells_rejectIf h _ hw ⟨?_, ?_⟩ hn
  · simp [Piece.chars, Vtl.string]
  · refine ⟨rfl, ?_, rfl, h.isCode_fieldRef, rfl, trivial⟩
    simp [Piece.Fits, first, Piece.chars]

theorem spells_membership (members : Members) (hn : next = none ∨ next = some '\n') :
    Spells (membershipTemplate c members) (membershipCheck c members) next := by
  have hlist : Spells (list (memberPieces members)) (Vtl.list (memberLiterals members))
      (some ' ') := by
    apply spells_list
    · cases members <;>
        simp [memberPieces, memberLiterals, Piece.chars, Vtl.string, Function.comp_def]
    · intro p hp x hx
      cases members with
      | strings ms =>
        obtain ⟨m, -, rfl⟩ := List.mem_map.mp hp
        simpa [Piece.Fits] using hx
      | integers ms =>
        obtain ⟨v, -, rfl⟩ := List.mem_map.mp hp
        exact isCode_int v
      | floats ms =>
        obtain ⟨v, -, rfl⟩ := List.mem_map.mp hp
        exact isCode_float v
  have hassign : Spells (.block (c.title "Membership list for")
      (.assign c.membersVar (.list (memberPieces members))))
      (Vtl.block (c.title "Membership list for")
        (Vtl.assign c.membersVar (Vtl.list (memberLiterals members)))) (some '\n') :=
    spells_block (h.notMem_title (by decide)) (spells_assign _ h.isCode_membersVar hlist)
      (.inr rfl)
  have hcondition :
      isCode ("!" ++ c.membersVar ++ ".contains(" ++ c.fieldRef ++ ")").toList = true :=
    isCode_concat (isCode_concat (isCode_concat (isCode_concat rfl h.isCode_membersVar) rfl)
      h.isCode_fieldRef) rfl
  have htitle : '\n' ∉ "Membership check on".toList := by decide
  have hcheck := spells_rejectIf h "must be valid url" htitle (spells_ofCode hcondition _) hn
  exact (hassign.append (spells_ofCode rfl _)).append hcheck

theorem spells_check (k : Check) (hn : next = none ∨ next = some '\n') :
    Spells (checkTemplate c k) (check c k) next := by
  cases k with
  | required =>
    exact spells_rejectIf h _ (by decide)
      (spells_ofCode (isCode_concat rfl h.isCode_fieldRef) _) hn
  | number | string | boolean => exact spells_typeCheck h _ (by decide) rfl hn
  | email | url | regex => exact spells_patternCheck h _ _ (by decide) hn
  | membership members => exact spells_membership h members hn

theorem spells_store {value : Template} {v : String} (hv : Spells value v (some ')')) :
    Spells (storeTemplate c value) (store c v) next :=
  spells_quietly _ (spells_put _ _ h.isCode_input hv)

theorem spells_default (value : Default) (hn : next = none ∨ next = some '\n') :
    Spells (defaultTemplate c value) (defaultFilter c value) next := by
  have hvalue : Spells [defaultPiece value] (defaultLiteral value) (some ')') := by
    cases value with
    | string text =>
      refine ⟨by simp [defaultPiece, defaultLiteral, Piece.chars, Vtl.string], ?_, trivial⟩
      simp [Piece.Fits, defaultPiece, first]
    | integer v => exact spells_ofCode (isCode_int v) _
    | float v => exact spells_ofCode (isCode_float v) _
    | boolean b => cases b <;> exact spells_ofCode rfl _
  have hcondition : isCode ("!$util.isNull(" ++ c.fieldRef ++ ")").toList = true :=
    isCode_concat (isCode_concat rfl h.isCode_fieldRef) rfl
  exact spells_block (h.notMem_title (by decide))
    (spells_choose _ (spells_ofCode hcondition _)
      (spells_store h (spells_ofCode h.isCode_fieldRef _)) (spells_store h hvalue)) hn

theorem spells_replace {what condition value : String} (hw : '\n' ∉ what.toList)
    (hc : isCode condition.toList = true) (hv : isCode value.toList = true)
    (hn : next = none ∨ next = some '\n') :
    Spells (replaceTemplate c what condition value) (replace c what condition value) next :=
  spells_block (h.notMem_title hw)
    (spells_when _ (spells_ofCode hc _) (spells_store h (spells_ofCode hv _))) hn

theorem spells_replaceFirst {what method : String} (hw : '\n' ∉ what.toList)
    (hm : isCode method.toList = true) (hn : next = none ∨ next = some '\n') :
    Spells (replaceFirstTemplate c what method) (replaceFirst c what method) next := by
  have href := h.isCode_fieldRef
  refine spells_replace h hw (isCode_concat (isCode_concat rfl href) rfl) ?_ hn
  have hhead : isCode (c.fieldRef ++ ".substring(0, 1)." ++ method ++ "().concat(").toList = true :=
    isCode_concat (isCode_concat (isCode_concat href rfl) hm) rfl
  exact isCode_concat (isCode_concat hhead href) rfl

theorem spells_filter (f : Filter) (hn : next = none ∨ next = some '\n') :
    Spells (filterTemplate c f) (filter c f) next := by
  have href := h.isCode_fieldRef
  cases f with
  | default value => exact spells_default h value hn
  | lowercase | uppercase | trim =>
    exact spells_replace h (by decide) href (isCode_concat href rfl) hn
  | lowerFirst | upperFirst => exact spells_replaceFirst h (by decide) rfl hn

theorem spells_template (rule : Rule) (hn : next = none ∨ next = some '\n') :
    Spells (template c rule) (render c rule) next := by
  cases rule with
  | check k => exact spells_check h k hn
  | filter f => exact spells_filter h f hn

/-- A snippet at the end of a template or of a line is read as its pieces, and
what follows it as it would be alone. -/
theorem read_render (rule : Rule) {r : List Char} (hr : r = [] ∨ r.head? = some '\n') :
    Vtl.read .code ((render c rule).toList ++ r) =
      (template c rule).lexemes ++ Vtl.read .code r := by
  have hn : r.head? = none ∨ r.head? = some '\n' := hr.imp List.head?_eq_none_iff.mpr id
  have hs := spells_template h rule hn
  rw [← hs.chars]
  exact read_chars hs.fits

theorem lexemes_render (rule : Rule) :
    Vtl.lexemes (render c rule).toList = (template c rule).lexemes := by
  have hs : Spells (template c rule) (render c rule) none := spells_template h rule (.inl rfl)
  rw [← hs.chars]
  exact lexemes_chars hs.fits

end Spells

end InputGuard.Snippet
