import InputGuard.Proofs.Snippet.Confinement
import InputGuard.Proofs.Snippet.Value
import InputGuard.Resolver.Store
import Mathlib.Data.List.Forall2

/-! # Reading a stack of snippets back

A snippet starts with a comment that names its kind and its field, and where the
values of its directive stand is fixed by these two. So a snippet in front of any
text determines field and rule (`agree_of_read`), and by induction a stack of
snippets determines the row of directives it was made from
(`stacked_unambiguous`). Only the type of an empty member list is lost. -/

namespace InputGuard

/-- The rule without its values and texts. -/
def Rule.shape : Rule → Rule
  | .check (.regex _) => .check (.regex "")
  | .check (.membership _) => .check (.membership (.strings []))
  | .filter (.default _) => .filter (.default (.string ""))
  | rule => rule

namespace Snippet

open Rule (Members Default)
open Vtl (Lexeme Piece Template)

/-! ## Kinds -/

/-- What the first comment of a snippet says in front of the field. -/
def heading : Rule → String
  | .check .required => "Required check on"
  | .check .number => "Number check on"
  | .check .string => "String check on"
  | .check .boolean => "Boolean check on"
  | .check .email => "Email check on"
  | .check .url => "URL check on"
  | .check (.regex _) => "Pattern check on"
  | .check (.membership _) => "Membership list for"
  | .filter (.default _) => "Default filter on"
  | .filter .lowercase => "Lowercase filter on"
  | .filter .uppercase => "Uppercase filter on"
  | .filter .lowerFirst => "Lowercase first character filter on"
  | .filter .upperFirst => "Uppercase first character filter on"
  | .filter .trim => "Trim filter on"

def shapes : List Rule :=
  [.check .required, .check .number, .check .string, .check .boolean, .check .email, .check .url,
    .check (.regex ""), .check (.membership (.strings [])), .filter (.default (.string "")),
    .filter .lowercase, .filter .uppercase, .filter .lowerFirst, .filter .upperFirst, .filter .trim]

theorem shape_mem_shapes (rule : Rule) : rule.shape ∈ shapes := by
  cases rule with
  | check k => cases k <;> simp [Rule.shape, shapes]
  | filter f => cases f <;> simp [Rule.shape, shapes]

theorem heading_shape (rule : Rule) : heading rule.shape = heading rule := by
  cases rule with
  | check k => cases k <;> rfl
  | filter f => cases f <;> rfl

theorem shape_eq_of_heading {rule rule' : Rule} (h : heading rule = heading rule') :
    rule.shape = rule'.shape := by
  have htable : ∀ a ∈ shapes, ∀ b ∈ shapes, heading a = heading b → a = b := by decide +kernel
  refine htable _ (shape_mem_shapes rule) _ (shape_mem_shapes rule') ?_
  rw [heading_shape, heading_shape, h]

/-- Rules of one shape are equal, or hold values of the same role. -/
theorem shape_cases {rule rule' : Rule} (h : rule.shape = rule'.shape) :
    rule = rule' ∨
      (∃ e e', rule = .check (.regex e) ∧ rule' = .check (.regex e')) ∨
      (∃ ms ms', rule = .check (.membership ms) ∧ rule' = .check (.membership ms')) ∨
      ∃ v v', rule = .filter (.default v) ∧ rule' = .filter (.default v') := by
  unfold Rule.shape at h
  split at h
  case h_1 e =>
    split at h
    case h_1 e' => exact .inr (.inl ⟨e, e', rfl, rfl⟩)
    case h_4 hne _ _ => exact absurd h.symm (hne _)
    all_goals cases h
  case h_2 ms =>
    split at h
    case h_2 ms' => exact .inr (.inr (.inl ⟨ms, ms', rfl, rfl⟩))
    case h_4 _ hne _ => exact absurd h.symm (hne _)
    all_goals cases h
  case h_3 v =>
    split at h
    case h_3 v' => exact .inr (.inr (.inr ⟨v, v', rfl, rfl⟩))
    case h_4 _ _ hne => exact absurd h.symm (hne _)
    all_goals cases h
  case h_4 hregex hmembers hdefault =>
    split at h
    case h_1 => exact absurd h (hregex _)
    case h_2 => exact absurd h (hmembers _)
    case h_3 => exact absurd h (hdefault _)
    case h_4 => exact .inl h

/-! ## One snippet -/

theorem lexemes_template_head (c : Context) (rule : Rule) :
    ∃ ls, (template c rule).lexemes =
      .comment (" [Start] " ++ c.title (heading rule) ++ ". **").toList :: ls := by
  cases rule with
  | check k => cases k <;> exact ⟨_, rfl⟩
  | filter f => cases f <;> exact ⟨_, rfl⟩

/-- A title determines its field; the quote in front of it is the first one. -/
theorem title_injective {c c' : Context} {what what' : String} (hw : '"' ∉ what.toList)
    (hw' : '"' ∉ what'.toList) (h : c.title what = c'.title what') :
    what = what' ∧ c.field = c'.field := by
  have hquote {s : String} (hs : '"' ∉ s.toList) :
      ∀ x ∈ (s ++ " ").toList, (x == '"') = false := by
    intro x hx
    rw [String.toList_append, List.mem_append] at hx
    rcases hx with hx | hx
    · exact beq_eq_false_iff_ne.mpr fun e => hs (e ▸ hx)
    · rw [List.mem_singleton.mp hx]
      rfl
  have hsplit (c : Context) (what : String) :
      (c.title what).toList = (what ++ " ").toList ++ '"' :: (c.field ++ "\"").toList := by
    simp [Context.title]
  have hchars := congrArg String.toList h
  rw [hsplit, hsplit] at hchars
  obtain ⟨hwhat, -, hfield⟩ := append_cons_inj (hquote hw) (hquote hw') rfl rfl hchars
  rw [String.toList_append, String.toList_append] at hwhat hfield
  exact ⟨String.toList_inj.mp (List.append_cancel_right hwhat),
    String.toList_inj.mp (List.append_cancel_right hfield)⟩

theorem quote_notMem_heading (rule : Rule) : '"' ∉ (heading rule).toList := by
  rw [← heading_shape]
  have htable : ∀ a ∈ shapes, '"' ∉ (heading a).toList := by decide +kernel
  exact htable _ (shape_mem_shapes rule)

/-- Equal but for the type of the members of an empty list. -/
def Alike (rule rule' : Rule) : Prop :=
  rule = rule' ∨ ∃ ms ms', rule = .check (.membership ms) ∧ rule' = .check (.membership ms') ∧
    ms.values = [] ∧ ms'.values = []

theorem alike_of_shape {c : Context} {rule rule' : Rule} {r s : List Lexeme}
    (hf : ∀ v ∈ rule.values, v.isFinite = true) (hf' : ∀ v ∈ rule'.values, v.isFinite = true)
    (hshape : rule.shape = rule'.shape)
    (h : (template c rule).lexemes ++ r = (template c rule').lexemes ++ s) : Alike rule rule' := by
  rcases shape_cases hshape with heq | ⟨e, e', rfl, rfl⟩ | ⟨ms, ms', rfl, rfl⟩ | ⟨v, v', rfl, rfl⟩
  · exact .inl heq
  · simp only [template, checkTemplate, patternCheckTemplate_eq, Template.lexemes_append,
      Template.lexemes_cons, List.append_assoc] at h
    have hpattern := (List.cons.inj (List.append_cancel_left h)).1
    rw [String.toList_inj.mp (Lexeme.ofText_injective hpattern)]
    exact .inl rfl
  · simp only [template, checkTemplate, membershipTemplate_eq, memberPieces_eq,
      Template.lexemes_append, List.append_assoc] at h
    have hvalues : ms.values = ms'.values :=
      lexemes_values_injective hf hf' (List.append_cancel_left h)
    rcases members_eq_of_values hvalues with heq | hnil
    · rw [heq]
      exact .inl rfl
    · exact .inr ⟨ms, ms', rfl, rfl, hnil⟩
  · simp only [template, filterTemplate, defaultTemplate_eq, Template.lexemes_append,
      Template.lexemes_cons, List.append_assoc] at h
    have hrow := List.append_cancel_left h
    obtain ⟨hvalue, -, -⟩ := append_cons_inj (lexemes_value v).2 (lexemes_value v').2 rfl rfl hrow
    rw [lexemes_value_injective (hf v (List.mem_singleton_self v))
      (hf' v' (List.mem_singleton_self v')) hvalue]
    exact .inl rfl

/-- What is alike is rendered alike. -/
theorem render_alike (c : Context) {rule rule' : Rule} (h : Alike rule rule') :
    render c rule = render c rule' := by
  rcases h with rfl | ⟨ms, ms', rfl, rfl, hms, hms'⟩
  · rfl
  · simp only [render, check, membershipCheck, memberLiterals_eq, hms, hms']

/-! ## Stacks -/

/-- A rule that a record resolves to, for a field whose name is an identifier. -/
structure Placed (p : String × Rule) : Prop where
  identifier : Text.isIdentifier p.1.toList = true
  resolved : ∃ r type, Rule.resolve r type = .ok p.2

theorem Placed.isFinite {p : String × Rule} (h : Placed p) :
    ∀ v ∈ p.2.values, v.isFinite = true := by
  obtain ⟨r, type, hr⟩ := h.resolved
  exact Rule.isFinite_of_resolve hr

/-- The same field with rules that are alike. -/
def Agree (p q : String × Rule) : Prop := p.1 = q.1 ∧ Alike p.2 q.2

/-- A template after the snippets of fields and rules were prepended one by one. -/
def stacked (config : Config) (base : String) (ps : List (String × Rule)) : String :=
  ps.foldl (fun t p => Resolver.prepend t (render (.ofConfig config p.1) p.2)) base

variable {config : Config}

/-- A snippet and the empty line behind it. -/
def layer (config : Config) (p : String × Rule) : List Char :=
  (render (.ofConfig config p.1) p.2).toList ++ ['\n', '\n']

theorem toList_stacked (base : String) (ps : List (String × Rule)) :
    (stacked config base ps).toList = ps.reverse.flatMap (layer config) ++ base.toList := by
  induction ps generalizing base with
  | nil => rfl
  | cons p ps ih =>
    have hstep : stacked config base (p :: ps) = stacked config
        (Resolver.prepend base (render (.ofConfig config p.1) p.2)) ps := rfl
    rw [hstep, ih, List.reverse_cons, List.flatMap_append]
    simp [layer, Resolver.prepend]

/-- Whatever follows, the top of a stack can be told. -/
theorem agree_of_read (valid : config.check = .ok config) {p q : String × Rule} (hp : Placed p)
    (hq : Placed q) {r s : List Char} (h : layer config p ++ r = layer config q ++ s) :
    Agree p q := by
  have hread := congrArg (Vtl.read .code) h
  simp only [layer, List.append_assoc] at hread
  rw [read_render (wellFormed_ofConfig valid hp.identifier) p.2 (.inr rfl),
    read_render (wellFormed_ofConfig valid hq.identifier) q.2 (.inr rfl)] at hread
  obtain ⟨ls, hls⟩ := lexemes_template_head (.ofConfig config p.1) p.2
  obtain ⟨ls', hls'⟩ := lexemes_template_head (.ofConfig config q.1) q.2
  have htitle : (Context.ofConfig config p.1).title (heading p.2) =
      (Context.ofConfig config q.1).title (heading q.2) := by
    have hcomment := hread
    rw [hls, hls'] at hcomment
    have htext := String.toList_inj.mp (Lexeme.comment.inj (List.cons.inj hcomment).1)
    exact (String.append_right_inj _).mp ((String.append_left_inj _).mp htext)
  obtain ⟨hheading, hfield⟩ :=
    title_injective (quote_notMem_heading p.2) (quote_notMem_heading q.2) htitle
  have hfield : p.1 = q.1 := hfield
  rw [hfield] at hread
  exact ⟨hfield, alike_of_shape hp.isFinite hq.isFinite (shape_eq_of_heading hheading) hread⟩

theorem layer_agree {p q : String × Rule} (h : Agree p q) : layer config p = layer config q := by
  unfold layer
  rw [h.1, render_alike _ h.2]

theorem layer_ne_nil (p : String × Rule) : layer config p ≠ [] := by
  simp [layer]

theorem agree_of_layers (valid : config.check = .ok config) {ps qs : List (String × Rule)}
    (hps : ∀ p ∈ ps, Placed p) (hqs : ∀ q ∈ qs, Placed q)
    (h : ps.flatMap (layer config) = qs.flatMap (layer config)) : List.Forall₂ Agree ps qs := by
  induction ps generalizing qs with
  | nil =>
    cases qs with
    | nil => exact .nil
    | cons q qs =>
      rw [List.flatMap_cons] at h
      exact absurd (List.append_eq_nil_iff.mp h.symm).1 (layer_ne_nil q)
  | cons p ps ih =>
    obtain ⟨hp, hps⟩ := List.forall_mem_cons.mp hps
    cases qs with
    | nil =>
      rw [List.flatMap_cons] at h
      exact absurd (List.append_eq_nil_iff.mp h).1 (layer_ne_nil p)
    | cons q qs =>
      obtain ⟨hq, hqs⟩ := List.forall_mem_cons.mp hqs
      rw [List.flatMap_cons, List.flatMap_cons] at h
      have hagree := agree_of_read valid hp hq h
      rw [layer_agree hagree] at h
      exact .cons hagree (ih hps hqs (List.append_cancel_left h))

/-- Two rows of directives that leave the same template over the same base agree,
one by one. -/
theorem stacked_unambiguous (valid : config.check = .ok config) {base : String}
    {ps qs : List (String × Rule)} (hps : ∀ p ∈ ps, Placed p) (hqs : ∀ q ∈ qs, Placed q)
    (h : stacked config base ps = stacked config base qs) : List.Forall₂ Agree ps qs := by
  have hchars := congrArg String.toList h
  rw [toList_stacked, toList_stacked] at hchars
  have hlayers := agree_of_layers valid (fun p hp => hps p (List.mem_reverse.mp hp))
    (fun q hq => hqs q (List.mem_reverse.mp hq)) (List.append_cancel_right hchars)
  exact List.forall₂_reverse_iff.mp hlayers

/-- A pattern on one field, and a list without members on another one. -/
def patternAnd (members : Members) : List (String × Rule) :=
  [("title", .check (.regex "\"$")), ("tags", .check (.membership members))]

theorem placed_patternAnd {r : Rule.Record} {type : Schema.FieldType} {members : Members}
    (h : Rule.resolve r type = .ok (.check (.membership members))) :
    ∀ p ∈ patternAnd members, Placed p := by
  have hpattern : Placed ("title", .check (.regex "\"$")) :=
    ⟨by decide, .extract [⟨"type", .enum "regex"⟩, ⟨"expression", .string "\"$"⟩], .string, rfl⟩
  have hname : Text.isIdentifier "tags".toList = true := by decide
  exact List.forall_mem_cons.mpr
    ⟨hpattern, List.forall_mem_singleton.mpr ⟨hname, r, type, h⟩⟩

/-- The type of no members at all is lost, and nothing else. -/
theorem stacked_unambiguous_noMembers :
    stacked {} "{}" (patternAnd (.strings [])) = stacked {} "{}" (patternAnd (.integers [])) ∧
      List.Forall₂ Agree (patternAnd (.strings [])) (patternAnd (.integers [])) := by
  have hvalid : ({} : Config).check = .ok {} := rfl
  have hstrings :
      Rule.resolve (.extract [⟨"type", .enum "in"⟩, ⟨"arrayString", .list []⟩]) .string =
        .ok (.check (.membership (.strings []))) := rfl
  have hintegers :
      Rule.resolve (.extract [⟨"type", .enum "in"⟩, ⟨"arrayInt", .list []⟩]) .int =
        .ok (.check (.membership (.integers []))) := rfl
  have hsame : stacked {} "{}" (patternAnd (.strings [])) =
      stacked {} "{}" (patternAnd (.integers [])) := rfl
  exact ⟨hsame, stacked_unambiguous hvalid (placed_patternAnd hstrings)
    (placed_patternAnd hintegers) hsame⟩

end Snippet
end InputGuard
