import InputGuard.Proofs.Config.Check
import InputGuard.Proofs.Rule.Resolve
import InputGuard.Proofs.Snippet.Template
import InputGuard.Proofs.Vtl.View

/-! # Texts of a directive stay in their literals

Whatever texts a directive holds, a reader of its snippet finds each of them as
the text of the literal that was written for it, and the rest of the snippet
does not depend on them (`generate_confined`). -/

namespace InputGuard

/-- The rule without the texts in it; their number is kept. -/
def Rule.blank : Rule → Rule
  | .check (.regex _) => .check (.regex "")
  | .check (.membership (.strings ms)) => .check (.membership (.strings (ms.map fun _ => "")))
  | .filter (.default (.string _)) => .filter (.default (.string ""))
  | rule => rule

namespace Snippet

open Rule (Record Kind FilterKind Parameter)
open Schema (FieldType)
open Vtl (Lexeme Piece Template lexemes literals outline codes Between)
open Vtl.Template (ofCode)

theorem generate_eq_ok_iff {config : Config} {field : String} {type : FieldType} {r : Record}
    {s : String} :
    generate config field type r = .ok s ↔
      ∃ rule, Rule.forField field type r = .ok rule ∧
        render (.ofConfig config field) rule = s :=
  Rule.map_eq_ok_iff

theorem wellFormed_ofConfig {config : Config} {field : String}
    (valid : config.check = .ok config) (identifier : Text.isIdentifier field.toList = true) :
    (Context.ofConfig config field).WellFormed :=
  ⟨identifier, (Config.check_eq_ok_iff.mp valid).2.inputPath⟩

/-- What a reader finds in the snippet `s` that a record gives for a field. -/
structure Confined (config : Config) (field : String) (type : FieldType) (r : Record)
    (s : String) : Prop where
  /-- no literal is left open -/
  finished : ∀ quote text, .unterminated quote text ∉ lexemes s.toList
  /-- nothing in double quotes is interpolated -/
  plain : ∀ text, .double text ∈ lexemes s.toList → '$' ∉ text ∧ '#' ∉ text ∧ '\\' ∉ text
  /-- the pattern of a regex check is the recorded expression -/
  pattern : r.scalar? Parameter.kind.name = some Kind.regex.name →
    ∃ expression literal, r.scalar? Parameter.expression.name = some expression ∧
      literal.literal? = some expression.toList ∧
      Between "#if( !$util.matches(" (", " ++ config.inputPath ++ "." ++ field ++ ") )")
        [literal] (lexemes s.toList) ∧
      literals (lexemes s.toList) =
        [expression, field ++ " attribute must match pattern", config.errorType].map String.toList
  /-- the list of a membership check on a string holds the recorded members -/
  members : type = .string → r.scalar? Parameter.kind.name = some Kind.membership.name →
    ∃ (members : List String) (written : List Lexeme),
      r.list? Parameter.arrayString.name = some members ∧
      written.map Lexeme.literal? = members.map (some ·.toList) ∧
      Between ("#set( $" ++ field ++ "Arr = [") "] )"
        ((codes ", ").intercalate (written.map ([·]))) (lexemes s.toList) ∧
      literals (lexemes s.toList) =
        (members ++ [field ++ " attribute must be valid url", config.errorType]).map String.toList
  /-- a default of a string is the recorded value -/
  default : type = .string → r.scalar? Parameter.kind.name = some Kind.filter.name →
    r.scalar? Parameter.filter.name = some FilterKind.default.name →
    ∃ value target literal, r.scalar? Parameter.valueString.name = some value ∧
      target.literal? = some field.toList ∧ literal.literal? = some value.toList ∧
      Between ("#else\n  $util.qr(" ++ config.inputPath ++ ".put(") "))\n#end"
        (target :: codes ", " ++ [literal]) (lexemes s.toList) ∧
      literals (lexemes s.toList) = [field, field, value].map String.toList
  /-- rules that differ in their texts only give snippets that do so -/
  outline : ∀ type' r' s' rule rule', Rule.forField field type r = .ok rule →
    Rule.forField field type' r' = .ok rule' → rule.blank = rule'.blank →
    generate config field type' r' = .ok s' →
    outline (lexemes s.toList) = outline (lexemes s'.toList)

/-! ## Where the texts of a directive stand -/

theorem between_patternCheck (c : Context) (what pattern complaint : String) :
    Between "#if( !$util.matches(" (", " ++ c.input ++ "." ++ c.field ++ ") )")
      [.ofText pattern.toList] (patternCheckTemplate c what pattern complaint).lexemes := by
  refine ⟨Template.lexemes [.comment (" [Start] " ++ c.title what ++ ". **"), .code "\n"],
    Template.lexemes (.code "\n  " ::
      (Template.raise (c.field ++ " attribute " ++ complaint) c.errorType ++
        [.code "\n#end\n", .comment (" [End] " ++ c.title what ++ ". **")])), ?_⟩
  simp [patternCheckTemplate, rejectIfTemplate, Template.block, Template.when, Piece.lexemes,
    codes, Context.fieldRef]

theorem literals_patternCheck (c : Context) (what pattern complaint : String) :
    literals (patternCheckTemplate c what pattern complaint).lexemes =
      [pattern, c.field ++ " attribute " ++ complaint, c.errorType].map String.toList := by
  rw [Template.literals_lexemes]
  rfl

theorem between_membership (c : Context) (members : List String) :
    Between ("#set( $" ++ c.field ++ "Arr = [") "] )"
      ((codes ", ").intercalate (members.map fun m => [.ofText m.toList]))
      (membershipTemplate c (.strings members)).lexemes := by
  let title := c.title "Membership list for"
  refine ⟨Template.lexemes [.comment (" [Start] " ++ title ++ ". **"), .code "\n"],
    Template.lexemes ([.code "\n", .comment (" [End] " ++ title ++ ". **"), .code "\n"] ++
      rejectIfTemplate c "Membership check on"
        (ofCode ("!" ++ c.membersVar ++ ".contains(" ++ c.fieldRef ++ ")")) "must be valid url"),
    ?_⟩
  have hmembers := Template.lexemes_intersperse (members.map .literal)
  rw [membershipTemplate_eq, Template.lexemes_append, Template.lexemes_append, memberPieces,
    hmembers]
  simp [membershipOpening, membershipClosing, Piece.lexemes, codes, Context.membersVar, title,
    Function.comp_def]

theorem literals_membership (c : Context) (members : List String) :
    literals (membershipTemplate c (.strings members)).lexemes =
      (members ++ [c.field ++ " attribute " ++ "must be valid url", c.errorType]).map
        String.toList := by
  have hmembers : ((members.map Piece.literal).intersperse (.code ", ")).filterMap Piece.literal? =
      members.map String.toList := by
    rw [Vtl.filterMap_intersperse rfl, List.filterMap_map]
    exact congrFun List.filterMap_eq_map members
  rw [Template.literals_lexemes, membershipTemplate_eq, List.filterMap_append,
    List.filterMap_append, memberPieces, hmembers, List.map_append]
  rfl

theorem between_default (c : Context) (value : String) :
    Between ("#else\n  $util.qr(" ++ c.input ++ ".put(") "))\n#end"
      (.ofText c.field.toList :: codes ", " ++ [.ofText value.toList])
      (defaultTemplate c (.string value)).lexemes := by
  let title := c.title "Default filter on"
  refine ⟨Template.lexemes ([.comment (" [Start] " ++ title ++ ". **"), .code "\n",
      .code ("#if( !$util.isNull(" ++ c.fieldRef ++ ") )\n  ")] ++
      storeTemplate c (ofCode c.fieldRef) ++ [.code "\n"]),
    Template.lexemes [.code "\n", .comment (" [End] " ++ title ++ ". **")], ?_⟩
  simp [defaultTemplate, storeTemplate, Template.block, Template.choose, Template.quietly,
    Template.put, defaultPiece, ofCode, Piece.lexemes, codes, title]

theorem literals_default (c : Context) (value : String) :
    literals (defaultTemplate c (.string value)).lexemes =
      [c.field, c.field, value].map String.toList := by
  rw [Template.literals_lexemes]
  rfl

theorem outline_membership (c : Context) {members members' : Rule.Members}
    (h : (memberPieces members).map Piece.blank = (memberPieces members').map Piece.blank) :
    outline (membershipTemplate c members).lexemes =
      outline (membershipTemplate c members').lexemes := by
  simp only [Template.outline_lexemes, membershipTemplate_eq, List.map_append,
    Vtl.Template.map_intersperse, h]

/-- The outline of a snippet depends on the number of its texts only. -/
theorem outline_template_blank (c : Context) (rule : Rule) :
    outline (template c rule).lexemes = outline (template c rule.blank).lexemes := by
  cases rule with
  | check k =>
    cases k with
    | regex e =>
      simp only [Template.outline_lexemes]
      rfl
    | membership members =>
      cases members with
      | strings ms =>
        have hblank : (memberPieces (.strings ms)).map Piece.blank =
            (memberPieces (.strings (ms.map fun _ => ""))).map Piece.blank := by
          simp [memberPieces, Function.comp_def, Piece.blank]
        exact outline_membership c hblank
      | integers ms => rfl
      | floats ms => rfl
    | _ => rfl
  | filter f =>
    cases f with
    | default value =>
      cases value with
      | string text =>
        simp only [Template.outline_lexemes]
        rfl
      | _ => rfl
    | _ => rfl

/-- No text of a directive gets out of its literal. -/
theorem generate_confined {config : Config} {field : String} {type : FieldType} {r : Record}
    {s : String} (valid : config.check = .ok config)
    (identifier : Text.isIdentifier field.toList = true)
    (h : generate config field type r = .ok s) : Confined config field type r s := by
  obtain ⟨rule, hrule, rfl⟩ := generate_eq_ok_iff.mp h
  have hwf := wellFormed_ofConfig valid identifier
  have hls := lexemes_render hwf rule
  obtain ⟨-, hresolve⟩ := Rule.forField_eq_ok_iff.mp hrule
  constructor
  case finished =>
    intro quote text
    rw [hls]
    exact Template.unterminated_notMem_lexemes _ quote text
  case plain =>
    intro text hm
    rw [hls] at hm
    refine ⟨?_, ?_, ?_⟩ <;> intro hc <;> cases Template.isSpecial_of_double_mem hm hc
  case pattern =>
    intro hk
    obtain ⟨expression, he, rfl⟩ := Rule.resolve_regex hk hresolve
    refine ⟨expression, .ofText expression.toList, he, Lexeme.literal?_ofText _, ?_, ?_⟩
    · rw [hls]
      exact between_patternCheck (.ofConfig config field) _ _ _
    · have hl := literals_patternCheck (.ofConfig config field) "Pattern check on" expression
        "must match pattern"
      rw [String.append_assoc] at hl
      rw [hls]
      exact hl
  case members =>
    rintro rfl hk
    obtain ⟨members, hm, rfl⟩ := Rule.resolve_membership_string hk hresolve
    refine ⟨members, members.map fun m => .ofText m.toList, hm, ?_, ?_, ?_⟩
    · simp
    · have hb := between_membership (.ofConfig config field) members
      rw [hls, List.map_map]
      exact hb
    · have hl := literals_membership (.ofConfig config field) members
      rw [String.append_assoc] at hl
      rw [hls]
      exact hl
  case default =>
    rintro rfl hk hf
    obtain ⟨value, hv, rfl⟩ := Rule.resolve_default_string hk hf hresolve
    refine ⟨value, .ofText field.toList, .ofText value.toList, hv, Lexeme.literal?_ofText _,
      Lexeme.literal?_ofText _, ?_, ?_⟩
    · rw [hls]
      exact between_default (.ofConfig config field) _
    · rw [hls]
      exact literals_default (.ofConfig config field) _
  case outline =>
    intro type' r' s' rule₁ rule' h₁ h' hblank hs'
    obtain ⟨rule₂, h₂, rfl⟩ := generate_eq_ok_iff.mp hs'
    rw [hrule] at h₁
    rw [h'] at h₂
    cases h₁
    cases h₂
    rw [hls, lexemes_render hwf, outline_template_blank, hblank, ← outline_template_blank]

/-- A record with an expression that holds both quotes and a dollar sign. -/
def quotedExpression : Record :=
  .extract [⟨"type", .enum "regex"⟩, ⟨"expression", .string "it's \"$1\""⟩]

theorem generate_quotedExpression :
    generate {} "title" .string quotedExpression = .ok
      ("## [Start] Pattern check on \"title\". **\n" ++
        "#if( !$util.matches('it''s \"$1\"', $ctx.args.input.title) )\n" ++
        "  $util.error(\"title attribute must match pattern\", \"InvalidArgumentsError\")\n" ++
        "#end\n## [End] Pattern check on \"title\". **") :=
  generate_eq_ok_iff.mpr ⟨.check (.regex "it's \"$1\""), rfl, by decide +kernel⟩

theorem generate_confined_quotes :
    ({} : Config).check = .ok {} ∧ Text.isIdentifier "title".toList = true ∧
      ∃ s, generate {} "title" .string quotedExpression = .ok s ∧
        Confined {} "title" .string quotedExpression s :=
  ⟨rfl, by decide, _, generate_quotedExpression,
    generate_confined rfl (by decide) generate_quotedExpression⟩

end Snippet
end InputGuard
