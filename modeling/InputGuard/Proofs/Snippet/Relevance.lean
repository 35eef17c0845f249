import InputGuard.Proofs.Rule.Extraction
import InputGuard.Snippet.Generate

/-! # Which arguments decide a snippet

A field of some type is resolved by the kind, the filter, the expression and the
two parameters that belong to the type. Lists of arguments that agree on what is
kept under these names give the same snippet or the same fault
(`relevant_arguments_decide`). -/

namespace InputGuard

open Schema (Argument FieldType)

namespace Rule

/-- The parameters that a field of a type is resolved by. -/
def relevant (type : FieldType) : List Parameter :=
  [.kind, .filter, .expression] ++ (Kind.membership.parameter? type).toList ++
    (FilterKind.default.parameter? type).toList

section Congruence

variable {r r' : Record} {type : FieldType}
  (h : ∀ p ∈ relevant type, r.get? p.name = r'.get? p.name)
include h

theorem scalar?_congr {p : Parameter} (hp : p ∈ relevant type) :
    r.scalar? p.name = r'.scalar? p.name := by
  unfold Record.scalar?
  rw [h p hp]

theorem list?_congr {p : Parameter} (hp : p ∈ relevant type) :
    r.list? p.name = r'.list? p.name := by
  unfold Record.list?
  rw [h p hp]

theorem resolveMembers_congr : resolveMembers r type = resolveMembers r' type := by
  unfold resolveMembers
  cases hp : Kind.membership.parameter? type with
  | none => rfl
  | some p =>
    have hmem : p ∈ relevant type := by simp [relevant, hp]
    simp only [list?_congr h hmem]

theorem resolveDefault_congr : resolveDefault r type = resolveDefault r' type := by
  unfold resolveDefault
  cases hp : FilterKind.default.parameter? type with
  | none => rfl
  | some p =>
    have hmem : p ∈ relevant type := by simp [relevant, hp]
    simp only [scalar?_congr h hmem]

theorem resolveFilter_congr : resolveFilter r type = resolveFilter r' type := by
  have hfilter : Parameter.filter ∈ relevant type := by simp [relevant]
  unfold resolveFilter
  simp only [scalar?_congr h hfilter, resolveDefault_congr h]

theorem resolveKind_congr (kind : Kind) : resolveKind r type kind = resolveKind r' type kind := by
  have hexpression : Parameter.expression ∈ relevant type := by simp [relevant]
  unfold resolveKind
  cases kind with
  | regex => simp only [scalar?_congr h hexpression]
  | membership => simp only [resolveMembers_congr h]
  | filter => simp only [resolveFilter_congr h]
  | required | number | string | boolean | url | email => rfl

/-- Nothing but the relevant parameters is looked up. -/
theorem resolve_congr : resolve r type = resolve r' type := by
  have hkind : Parameter.kind ∈ relevant type := by simp [relevant]
  unfold resolve
  simp only [scalar?_congr h hkind, resolveKind_congr h]

end Congruence

/-! ## Names that are never looked up -/

/-- The type of field that a typed parameter belongs to. -/
def Parameter.fieldType? : Parameter → Option FieldType
  | .arrayString | .valueString => some .string
  | .arrayInt | .valueInt => some .int
  | .arrayFloat | .valueFloat => some .float
  | .valueBoolean => some .boolean
  | .kind | .filter | .expression | .min | .max => none

theorem fieldType?_of_membership {type : FieldType} {p : Parameter}
    (h : Kind.membership.parameter? type = some p) : p.fieldType? = some type := by
  cases type <;> cases h <;> rfl

theorem fieldType?_of_default {type : FieldType} {p : Parameter}
    (h : FilterKind.default.parameter? type = some p) : p.fieldType? = some type := by
  cases type <;> cases h <;> rfl

theorem mem_relevant {type : FieldType} {p : Parameter} (h : p ∈ relevant type) :
    p ∈ [Parameter.kind, .filter, .expression] ∨ p.fieldType? = some type := by
  simp only [relevant, List.mem_append, Option.mem_toList] at h
  rcases h with (hp | hm) | hd
  · exact .inl hp
  · exact .inr (fieldType?_of_membership hm)
  · exact .inr (fieldType?_of_default hd)

/-- Names that a field of a type is never resolved by: the reserved bounds, names
the grammar does not declare, and parameters that belong to another type. -/
inductive Unread (type : FieldType) : String → Prop where
  | bound {p : Parameter} (reserved : p = .min ∨ p = .max) : Unread type p.name
  | undeclared {name : String} (unknown : Parameter.isDeclared name = false) : Unread type name
  | foreign {p : Parameter} {type' : FieldType} (other : type' ≠ type)
      (needs : Kind.membership.parameter? type' = some p ∨
        FilterKind.default.parameter? type' = some p) : Unread type p.name

theorem Parameter.name_injective {p q : Parameter} (h : p.name = q.name) : p = q := by
  have hall : ∀ p : Parameter, all.find? (·.name = p.name) = some p := by
    intro p
    cases p <;> decide
  exact Option.some.inj ((hall p).symm.trans (h ▸ hall q))

theorem Unread.ne_relevant {type : FieldType} {name : String} (h : Unread type name)
    {q : Parameter} (hq : q ∈ relevant type) : name ≠ q.name := by
  intro hname
  cases h with
  | bound reserved =>
    cases Parameter.name_injective hname
    rcases reserved with rfl | rfl <;> rcases mem_relevant hq with hp | ht
    all_goals first | cases ht | simp at hp
  | undeclared unknown =>
    subst hname
    cases q <;> cases unknown
  | @foreign p type' other needs =>
    cases Parameter.name_injective hname
    have htype : q.fieldType? = some type' :=
      needs.elim fieldType?_of_membership fieldType?_of_default
    rcases mem_relevant hq with hp | ht
    · have hnone : q.fieldType? = none := by
        simp only [List.mem_cons, List.not_mem_nil, or_false] at hp
        rcases hp with rfl | rfl | rfl <;> rfl
      rw [hnone] at htype
      cases htype
    · rw [htype] at ht
      exact other (Option.some.inj ht)

end Rule

namespace Snippet

open Rule (Record Unread kept relevant)

/-- The arguments of the relevant parameters decide, and only by what is kept. -/
structure DecidedByRelevant (config : Config) (field : String) (type : FieldType) : Prop where
  /-- the kept values of the relevant parameters decide -/
  agree : ∀ as bs : List Argument,
    (∀ p ∈ relevant type, kept p.name as = kept p.name bs) →
    generate config field type (.extract as) = generate config field type (.extract bs)
  /-- arguments of different names may change places -/
  moved : ∀ as bs : List Argument,
    (∀ name, as.filter (·.name = name) = bs.filter (·.name = name)) →
    generate config field type (.extract as) = generate config field type (.extract bs)
  /-- an argument that is not read may be there or not, with any value -/
  unread : ∀ (before after : List Argument) (a : Argument), Unread type a.name →
    generate config field type (.extract (before ++ a :: after)) =
      generate config field type (.extract (before ++ after))
  /-- so may an argument that is dropped, under any name -/
  dropped : ∀ (before after : List Argument) (a : Argument),
    a.value.shape ∈ [.null, .object, .variable] →
    generate config field type (.extract (before ++ a :: after)) =
      generate config field type (.extract (before ++ after))

theorem generate_congr {config : Config} {field : String} {type : FieldType} {as bs : List Argument}
    (h : ∀ p ∈ relevant type, kept p.name as = kept p.name bs) :
    generate config field type (.extract as) = generate config field type (.extract bs) := by
  have hget : ∀ p ∈ relevant type,
      (Record.extract as).get? p.name = (Record.extract bs).get? p.name := by
    intro p hp
    rw [Rule.get?_extract, Rule.get?_extract, h p hp]
  unfold generate Rule.forField
  rw [Rule.resolve_congr hget]

theorem relevant_arguments_decide (config : Config) (field : String) (type : FieldType) :
    DecidedByRelevant config field type where
  agree as bs h := generate_congr h
  moved as bs h := by
    refine generate_congr fun p _ => ?_
    rw [Rule.kept_eq_filter p.name as, h p.name, ← Rule.kept_eq_filter]
  unread before after a h := by
    refine generate_congr fun p hp => ?_
    exact Rule.kept_skip (fun ha => h.ne_relevant hp ha.1) before after
  dropped before after a h := by
    refine generate_congr fun p _ => ?_
    have hdropped : ¬a.isKept = true := fun hk => of_decide_eq_true hk h
    exact Rule.kept_skip (fun ha => hdropped ha.2) before after

end Snippet
end InputGuard
