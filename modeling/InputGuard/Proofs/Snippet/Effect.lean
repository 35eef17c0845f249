import InputGuard.Proofs.Snippet.Confinement
import InputGuard.Proofs.Vtl.Effect

/-! # Checks raise, filters rewrite

A check raises one error and changes nothing but the variable that holds the
members of a membership check. A filter raises nothing, assigns nothing, and puts
values only under its own field of the input (`generate_acts`). What the texts
of a directive spell makes no difference. -/

namespace InputGuard.Snippet

open Rule (Check Default Filter FilterKind Kind Members Record)
open Schema (FieldType)
open Vtl (Effect Happens Lexeme Performs Piece Quiet Silent Template)
open Vtl (codes isSilent isSilentText lexemes)
open Vtl.Template (ofCode seen)

/-! ## Silent parts -/

theorem isSilent_of_isFollowing {x : Char} (h : Text.isFollowing x = true) : isSilent x = true := by
  simp only [isSilent, Bool.and_eq_true, bne_iff_ne]
  constructor <;> rintro rfl <;> cases h

theorem isSilent_of_isDigit {x : Char} (h : x.isDigit = true) : isSilent x = true := by
  simp only [isSilent, Bool.and_eq_true, bne_iff_ne]
  constructor <;> rintro rfl <;> cases h

theorem isSilentText_of_isIdentifier {s : String} (h : Text.isIdentifier s.toList = true) :
    isSilentText s = true :=
  List.all_eq_true.mpr fun _ hx => isSilent_of_isFollowing (Text.isFollowing_of_mem h hx)

theorem isSilentText_of_isReference {s : String} (h : Config.isReference s.toList = true) :
    isSilentText s = true := by
  refine List.all_eq_true.mpr fun x hx => ?_
  rcases Config.mem_of_isReference h hx with rfl | rfl | hf
  · rfl
  · rfl
  · exact isSilent_of_isFollowing hf

theorem silent_int (v : Int64) : Silent (codes (Vtl.int v)) := by
  refine Silent.of_codes (List.all_eq_true.mpr fun x hx => ?_)
  rw [Vtl.int, String.toList_ofList] at hx
  rcases Number.mem_writeInteger hx with rfl | hd
  · rfl
  · exact isSilent_of_isDigit hd

theorem silent_float (v : Number.Binary64) : Silent (codes (Vtl.float v)) := by
  refine Silent.of_codes (List.all_eq_true.mpr fun x hx => ?_)
  rw [Vtl.float, String.toList_ofList] at hx
  rcases Number.Decimal.mem_plain hx with rfl | rfl | hd
  · rfl
  · rfl
  · exact isSilent_of_isDigit hd

theorem silent_bool (b : Bool) : Silent (codes (Vtl.bool b)) := by
  cases b <;> exact .of_codes rfl

theorem silent_memberPieces (keep : Bool) (members : Members) :
    ∀ p ∈ memberPieces members, Silent (p.seen keep) := by
  intro p hp
  cases members with
  | strings ms =>
    obtain ⟨m, -, rfl⟩ := List.mem_map.mp hp
    exact Template.silent_literal keep m
  | integers ms =>
    obtain ⟨v, -, rfl⟩ := List.mem_map.mp hp
    rw [Template.seen_code]
    exact silent_int v
  | floats ms =>
    obtain ⟨v, -, rfl⟩ := List.mem_map.mp hp
    rw [Template.seen_code]
    exact silent_float v

theorem silent_defaultPiece (keep : Bool) (value : Default) :
    Silent ((defaultPiece value).seen keep) := by
  cases value with
  | string text => exact Template.silent_literal keep text
  | integer v =>
    rw [defaultPiece, Template.seen_code]
    exact silent_int v
  | float v =>
    rw [defaultPiece, Template.seen_code]
    exact silent_float v
  | boolean b =>
    rw [defaultPiece, Template.seen_code]
    exact silent_bool b

theorem silent_intersperse {keep : Bool} {members : List Piece}
    (hm : ∀ p ∈ members, Silent (p.seen keep)) :
    Silent (seen keep (members.intersperse (.code ", "))) := by
  induction members with
  | nil => exact ⟨by simp, by simp⟩
  | cons p ps ih =>
    have hp := hm p List.mem_cons_self
    have hps := ih fun q hq => hm q (List.mem_cons_of_mem p hq)
    cases ps with
    | nil => simpa using hp
    | cons q ps =>
      have hcomma : Silent ((Piece.code ", ").seen keep) := by
        rw [Template.seen_code]
        exact .of_codes rfl
      rw [List.intersperse_cons_cons, Template.seen_cons, Template.seen_cons]
      exact hp.append (hcomma.append hps)

/-! ## What each snippet does -/

/-- What stands before the mark of an effect in a snippet. -/
def Context.left (c : Context) : Effect → List Lexeme
  | .put => codes c.input
  | _ => []

/-- What stands after the mark of an effect in a snippet. -/
def Context.right (c : Context) (keep : Bool) : Effect → List Lexeme
  | .raise => []
  | .put => (Piece.literal c.field).seen keep
  | .assign => codes "( " ++ codes c.membersVar ++ codes " ="

/-- How often each effect happens in the snippet of a rule. -/
def times : Rule → Effect → Nat
  | .check _, .raise => 1
  | .check _, .put => 0
  | .check k, .assign => if k.kind = .membership then 1 else 0
  | .filter _, .raise => 0
  | .filter f, .put => if f.kind = .default then 2 else 1
  | .filter _, .assign => 0

theorem times_check (k : Check) : times (.check k) =
    Effect.once .raise + if k.kind = .membership then Effect.once .assign else 0 := by
  funext e
  cases e <;> cases k <;> rfl

theorem times_filter (f : Filter) : times (.filter f) =
    Effect.once .put + if f.kind = .default then Effect.once .put else 0 := by
  funext e
  cases e <;> cases f <;> rfl

section Performs

variable (c : Context) {keep : Bool}

theorem performs_rejectIf {condition : Template} (what complaint : String)
    (hq : Quiet (seen keep condition)) :
    Performs c.left (c.right keep) (Effect.once .raise)
      (seen keep (rejectIfTemplate c what condition complaint)) := by
  have hraise : Performs c.left (c.right keep) (Effect.once .raise)
      (seen keep (.raise (c.field ++ " attribute " ++ complaint) c.errorType)) :=
    Template.performs_raise _ _ rfl rfl
  have hwhen := Template.performs_when (.of_quiet hq) hraise
  rw [zero_add] at hwhen
  exact Template.performs_block _ hwhen

variable {c} (h : c.WellFormed)
include h

theorem isSilentText_input : isSilentText c.input = true :=
  isSilentText_of_isReference h.input

theorem isSilentText_fieldRef : isSilentText c.fieldRef = true := by
  have hfield := isSilentText_of_isIdentifier h.field
  have hpoint : isSilentText "." = true := rfl
  simp [Context.fieldRef, isSilentText_input h, hfield, hpoint]

theorem isSilentText_membersVar : isSilentText c.membersVar = true := by
  have hfield := isSilentText_of_isIdentifier h.field
  have hdollar : isSilentText "$" = true := rfl
  have harr : isSilentText "Arr" = true := rfl
  simp [Context.membersVar, hfield, hdollar, harr]

theorem quiet_fieldRef : Quiet (codes c.fieldRef) :=
  (Silent.of_codes (isSilentText_fieldRef h)).quiet

theorem silent_argument : Silent (codes c.fieldRef ++ codes ")") :=
  (Silent.of_codes (isSilentText_fieldRef h)).append (.of_codes rfl)

/-- A call on the field's value. -/
theorem quiet_callOn_fieldRef (callee : String) (hq : Quiet (codes callee ++ [.code '('])) :
    Quiet (codes (callee ++ "(" ++ c.fieldRef ++ ")")) := by
  have hcut : codes (callee ++ "(" ++ c.fieldRef ++ ")") =
      codes callee ++ .code '(' :: (codes c.fieldRef ++ codes ")") := by
    simp
    rfl
  rw [hcut]
  exact hq.paren (silent_argument h).quiet

theorem performs_typeCheck {test : String} (what type : String)
    (ht : Vtl.isQuiet ("!$util." ++ test ++ "(") = true) :
    Performs c.left (c.right keep) (Effect.once .raise)
      (seen keep (typeCheckTemplate c what test type)) := by
  refine performs_rejectIf c what _ ?_
  rw [Template.seen_ofCode]
  exact quiet_callOn_fieldRef h _ (Vtl.quiet_opening ht)

theorem performs_patternCheck (what pattern complaint : String) :
    Performs c.left (c.right keep) (Effect.once .raise)
      (seen keep (patternCheckTemplate c what pattern complaint)) := by
  let arguments : Template := [.literal pattern, .code ", ", .code c.fieldRef, .code ")"]
  have harguments : Silent (seen keep arguments) := by
    simp only [arguments, Template.seen_cons, Template.seen_nil, Template.seen_code,
      List.append_nil]
    exact (Template.silent_literal keep pattern).append
      (.append (.of_codes rfl) (silent_argument h))
  have hmatches : Quiet (codes ("" ++ "!$util.matches" ++ "(") ++ seen keep arguments) :=
    Vtl.quiet_callOn rfl rfl harguments.quiet
  refine performs_rejectIf c what complaint ?_
  simpa [arguments] using hmatches

theorem performs_membership (members : Members) :
    Performs c.left (c.right keep) (Effect.once .raise + Effect.once .assign)
      (seen keep (membershipTemplate c members)) := by
  have hlist : Silent (seen keep (.list (memberPieces members))) := by
    simp only [Template.list, Template.seen_cons, Template.seen_append, Template.seen_nil,
      Template.seen_code, List.append_nil]
    exact .append (.of_codes rfl)
      ((silent_intersperse (silent_memberPieces keep members)).append (.of_codes rfl))
  have hassign : Performs c.left (c.right keep) (Effect.once .assign + 0)
      (seen keep (.block (c.title "Membership list for")
        (.assign c.membersVar (.list (memberPieces members))))) :=
    Template.performs_block _
      (Template.performs_assign rfl rfl (isSilentText_membersVar h) (.of_quiet hlist.quiet))
  have hnot : isSilentText ("!" ++ c.membersVar) = true := by
    rw [Vtl.isSilentText_append, isSilentText_membersVar h]
    rfl
  have hcontains : Quiet (codes ("!" ++ c.membersVar ++ ".contains" ++ "(" ++ c.fieldRef ++ ")")) :=
    quiet_callOn_fieldRef h _ (Vtl.quiet_call hnot rfl)
  have hcheck : Performs c.left (c.right keep) (Effect.once .raise)
      (seen keep (rejectIfTemplate c "Membership check on"
        (ofCode ("!" ++ c.membersVar ++ ".contains(" ++ c.fieldRef ++ ")"))
        "must be valid url")) := by
    refine performs_rejectIf c _ _ ?_
    have hname :
        "!" ++ c.membersVar ++ ".contains" ++ "(" = "!" ++ c.membersVar ++ ".contains(" := by
      rw [String.append_assoc]
      rfl
    rw [Template.seen_ofCode, ← hname]
    exact hcontains
  have hboth := hassign.newline hcheck
  rw [add_zero, add_comm] at hboth
  rw [membershipTemplate, Template.seen_append, Template.seen_append, List.append_assoc]
  exact hboth

theorem performs_check (k : Check) :
    Performs c.left (c.right keep) (times (.check k)) (seen keep (checkTemplate c k)) := by
  rw [times_check]
  cases k with
  | required =>
    have hnot : Quiet (codes ("!" ++ c.fieldRef)) := by
      rw [Vtl.codes_append]
      exact (Silent.append (.of_codes rfl) (.of_codes (isSilentText_fieldRef h))).quiet
    refine performs_rejectIf c _ _ ?_
    rwa [Template.seen_ofCode]
  | number | string | boolean => exact performs_typeCheck h _ _ rfl
  | email | url | regex => exact performs_patternCheck h _ _ _
  | membership members => exact performs_membership h members

theorem performs_store {value : Template} (hq : Quiet (seen keep value)) :
    Performs c.left (c.right keep) (Effect.once .put) (seen keep (storeTemplate c value)) :=
  Template.performs_put rfl rfl (isSilentText_input h) (.of_quiet hq)

theorem performs_default (value : Default) :
    Performs c.left (c.right keep) (Effect.once .put + Effect.once .put)
      (seen keep (defaultTemplate c value)) := by
  have hcondition : Quiet (seen keep (ofCode ("!$util.isNull(" ++ c.fieldRef ++ ")"))) := by
    rw [Template.seen_ofCode]
    exact quiet_callOn_fieldRef h "!$util.isNull" (Vtl.quiet_opening rfl)
  have hkept : Quiet (seen keep (ofCode c.fieldRef)) := by
    rw [Template.seen_ofCode]
    exact quiet_fieldRef h
  have hvalue : Quiet (seen keep [defaultPiece value]) := by
    simpa using (silent_defaultPiece keep value).quiet
  have hchoose := Template.performs_choose (.of_quiet hcondition) (performs_store h hkept)
    (performs_store h hvalue)
  rw [zero_add] at hchoose
  exact Template.performs_block _ hchoose

theorem performs_replace {condition value : String} (what : String)
    (hc : Quiet (codes condition)) (hv : Quiet (codes value)) :
    Performs c.left (c.right keep) (Effect.once .put)
      (seen keep (replaceTemplate c what condition value)) := by
  have hcondition : Quiet (seen keep (ofCode condition)) := by
    rwa [Template.seen_ofCode]
  have hvalue : Quiet (seen keep (ofCode value)) := by
    rwa [Template.seen_ofCode]
  have hwhen := Template.performs_when (.of_quiet hcondition) (performs_store h hvalue)
  rw [zero_add] at hwhen
  exact Template.performs_block _ hwhen

/-- A method of the field's value without arguments. -/
theorem performs_method (method : String) {call : String} (what : String)
    (hm : Vtl.isPassive method = true) (hcall : call = method ++ "()") :
    Performs c.left (c.right keep) (Effect.once .put)
      (seen keep (replaceTemplate c what c.fieldRef (c.fieldRef ++ call))) := by
  have hclose : Quiet (codes ")") := .of_codes rfl
  have hvalue := Vtl.quiet_callOn (isSilentText_fieldRef h) hm hclose
  have hcut : codes (c.fieldRef ++ call) = codes (c.fieldRef ++ method ++ "(") ++ codes ")" := by
    simp [hcall]
    rfl
  exact performs_replace h what (quiet_fieldRef h) (hcut ▸ hvalue)

/-- The first character is changed by one call and put back together with the
rest by another. -/
theorem performs_replaceFirst {method : String} (what : String)
    (hm : Vtl.isPassive ("0, 1)." ++ method) = true) :
    Performs c.left (c.right keep) (Effect.once .put)
      (seen keep (replaceFirstTemplate c what method)) := by
  have hrest : Quiet (codes (c.fieldRef ++ ".substring" ++ "(") ++ codes "1))") :=
    Vtl.quiet_callOn (isSilentText_fieldRef h) rfl (.of_codes rfl)
  have hconcat : Quiet (codes ").concat" ++ [.code '(']) := Vtl.quiet_opening rfl
  have hfirst : Quiet (codes (c.fieldRef ++ ".substring" ++ "(") ++
      (codes ("" ++ ("0, 1)." ++ method) ++ "(") ++
        (codes ").concat" ++ .code '(' :: (codes (c.fieldRef ++ ".substring" ++ "(") ++
          codes "1))")))) :=
    Vtl.quiet_callOn (isSilentText_fieldRef h) rfl
      (Vtl.quiet_callOn rfl hm (hconcat.paren hrest))
  have hcut : codes (c.fieldRef ++ ".substring(0, 1)." ++ method ++ "().concat(" ++ c.fieldRef ++
      ".substring(1))") = codes (c.fieldRef ++ ".substring" ++ "(") ++
        (codes ("" ++ ("0, 1)." ++ method) ++ "(") ++
          (codes ").concat" ++ .code '(' :: (codes (c.fieldRef ++ ".substring" ++ "(") ++
            codes "1))"))) := by
    simp
    rfl
  have hcondition := quiet_callOn_fieldRef h "!$util.isNullOrEmpty" (Vtl.quiet_opening rfl)
  exact performs_replace h what hcondition (hcut ▸ hfirst)

theorem performs_filter (f : Filter) :
    Performs c.left (c.right keep) (times (.filter f)) (seen keep (filterTemplate c f)) := by
  rw [times_filter]
  cases f with
  | default value => exact performs_default h value
  | lowercase => exact performs_method h ".toLowerCase" _ rfl rfl
  | uppercase => exact performs_method h ".toUpperCase" _ rfl rfl
  | trim => exact performs_method h ".trim" _ rfl rfl
  | lowerFirst | upperFirst => exact performs_replaceFirst h _ rfl

theorem performs_template (rule : Rule) :
    Performs c.left (c.right keep) (times rule) (seen keep (template c rule)) := by
  cases rule with
  | check k => exact performs_check h k
  | filter f => exact performs_filter h f

end Performs

/-! ## Generated snippets -/

/-- The snippet of a check of some kind for a field raises, and does nothing else
but to assign the members of a membership check. -/
structure RaisesOnly (field : String) (kind : Kind) (s : String) : Prop where
  raises : Happens .raise 1 s
  puts : Happens .put 0 s
  assigns : Happens .assign (if kind = .membership then 1 else 0) s
  assigned : ∀ before after, lexemes s.toList = before ++ codes "#set" ++ after →
    codes ("( $" ++ field ++ "Arr =") <+: after

/-- The snippet of a filter of some kind for a field puts, each time into the
input and under a literal for the field. -/
structure RewritesOnly (config : Config) (field : String) (kind : FilterKind) (s : String) :
    Prop where
  raises : Happens .raise 0 s
  assigns : Happens .assign 0 s
  puts : Happens .put (if kind = .default then 2 else 1) s
  stored : ∀ before after, lexemes s.toList = before ++ codes ".put(" ++ after →
    codes config.inputPath <:+ before ∧
      ∃ target rest, after = target :: rest ∧ target.literal? = some field.toList

variable {config : Config} {field : String} {s : String}

theorem performs_render {c : Context} (h : c.WellFormed) (rule : Rule) (keep : Bool) :
    Performs c.left (c.right keep) (times rule)
      ((lexemes (render c rule).toList).flatMap (Lexeme.seen keep)) := by
  rw [lexemes_render h]
  exact performs_template h rule

theorem happens_render {c : Context} (h : c.WellFormed) (rule : Rule) (e : Effect) :
    Happens e (times rule e) (render c rule) :=
  (performs_render h rule false).happens (performs_render h rule true) e

theorem raisesOnly_render (h : (Context.ofConfig config field).WellFormed) (k : Check) :
    RaisesOnly field k.kind (render (.ofConfig config field) (.check k)) where
  raises := happens_render h (.check k) .raise
  puts := happens_render h (.check k) .put
  assigns := happens_render h (.check k) .assign
  assigned := by
    intro before after hs
    have hread := performs_render h (.check k) true .assign
    rw [Vtl.flatMap_seen_true] at hread
    have hright : codes ("( $" ++ field ++ "Arr =") =
        (Context.ofConfig config field).right true .assign := by
      simp [Context.right, Context.membersVar, Context.ofConfig]
      rfl
    rw [hright]
    exact (hread.beside before after hs).2

theorem rewritesOnly_render (h : (Context.ofConfig config field).WellFormed) (f : Filter) :
    RewritesOnly config field f.kind (render (.ofConfig config field) (.filter f)) where
  raises := happens_render h (.filter f) .raise
  assigns := happens_render h (.filter f) .assign
  puts := happens_render h (.filter f) .put
  stored := by
    intro before after hs
    have hread := performs_render h (.filter f) true .put
    rw [Vtl.flatMap_seen_true] at hread
    obtain ⟨hinput, rest, hrest⟩ := hread.beside before after hs
    refine ⟨hinput, .ofText field.toList, rest, ?_, Lexeme.literal?_ofText _⟩
    rw [← hrest, Context.right, Piece.seen, Vtl.flatMap_seen_true]
    rfl

/-- Checks only raise, and filters only rewrite their own field. -/
theorem generate_acts {type : FieldType} {r : Record} (valid : config.check = .ok config)
    (identifier : Text.isIdentifier field.toList = true)
    (h : generate config field type r = .ok s) :
    ∃ rule, Rule.forField field type r = .ok rule ∧
      (rule.kind.isCheck = true → RaisesOnly field rule.kind s) ∧
      ∀ f, rule = .filter f → RewritesOnly config field f.kind s := by
  obtain ⟨rule, hrule, rfl⟩ := generate_eq_ok_iff.mp h
  have hwf := wellFormed_ofConfig valid identifier
  refine ⟨rule, hrule, ?_, ?_⟩
  · intro hcheck
    obtain ⟨k, rfl⟩ := rule.isCheck_kind.mp hcheck
    exact raisesOnly_render hwf k
  · rintro f rfl
    exact rewritesOnly_render hwf f

/-- A default whose input, field and value all spell an effect. -/
def spellingDefault : Record :=
  .extract [⟨"type", .enum "filter"⟩, ⟨"filter", .enum "default"⟩,
    ⟨"valueString", .string "$util.error("⟩]

theorem generate_spellingDefault :
    generate { inputPath := "$util.error.put" } "put" .string spellingDefault = .ok
      ("## [Start] Default filter on \"put\". **\n" ++
        "#if( !$util.isNull($util.error.put.put) )\n" ++
        "  $util.qr($util.error.put.put(\"put\", $util.error.put.put))\n" ++
        "#else\n  $util.qr($util.error.put.put(\"put\", '$util.error('))\n" ++
        "#end\n## [End] Default filter on \"put\". **") :=
  generate_eq_ok_iff.mpr ⟨.filter (.default (.string "$util.error(")), rfl, by decide +kernel⟩

theorem generate_acts_spellingDefault :
    ({ inputPath := "$util.error.put" } : Config).check = .ok { inputPath := "$util.error.put" } ∧
      Text.isIdentifier "put".toList = true ∧
      ∃ s, generate { inputPath := "$util.error.put" } "put" .string spellingDefault = .ok s ∧
        ∃ rule, Rule.forField "put" .string spellingDefault = .ok rule ∧
          (rule.kind.isCheck = true → RaisesOnly "put" rule.kind s) ∧
          ∀ f, rule = .filter f →
            RewritesOnly { inputPath := "$util.error.put" } "put" f.kind s :=
  ⟨rfl, by decide, _, generate_spellingDefault,
    generate_acts rfl (by decide) generate_spellingDefault⟩

end InputGuard.Snippet
