import InputGuard.Proofs.Rule.Documented

/-! # Rules of a known kind

What a record must hold to resolve to a membership check (`resolve_membership_iff`) or
to a default filter (`resolve_default_iff`), and what the rule has in it then. -/

namespace InputGuard.Rule

open Schema (FieldType)

variable {r : Record} {type name text text' : String} {rule : Rule}

theorem Kind.name_inj {k k' : Kind} (h : k.name = k'.name) : k = k' :=
  Option.some.inj (by rw [← ofName?_name k, h, ofName?_name])

theorem FilterKind.name_inj {f f' : FilterKind} (h : f.name = f'.name) : f = f' :=
  Option.some.inj (by rw [← ofName?_name f, h, ofName?_name])

theorem readAs_eq_ok_iff {α : Type} {p : Parameter} {t : FieldType}
    {read : List Char → Option α} {v : α} :
    readAs p t read text = .ok v ↔ read text.toList = some v := by
  unfold readAs
  split
  · next h => simp [h]
  · next h => simp [h]

theorem Record.HasScalar.unique (h : r.HasScalar name text) (h' : r.HasScalar name text') :
    text = text' :=
  Extracted.scalar.inj (Option.some.inj (h.symm.trans h'))

theorem resolve_membership_iff (kind : r.HasScalar "type" "in") :
    resolve r (.ofName type) = .ok rule ↔
      ∃ members texts, rule = .check (.membership members) ∧ members.typeName = type ∧
        r.HasTexts ("array" ++ type) texts ∧ List.Forall₂ (Reads type) texts members.values := by
  rw [resolve_eq_ok_iff]
  constructor
  · intro h
    have hkind : Kind.membership = rule.kind := Kind.name_inj (kind.unique h.named.1)
    cases h with
    | check _ plain =>
      simp only [List.mem_cons, List.not_mem_nil, or_false] at plain
      obtain rfl | rfl | rfl | rfl | rfl | rfl := plain <;> cases hkind
    | membership _ variant recorded read => exact ⟨_, _, rfl, variant, recorded, read⟩
    | regex | filter | default => cases hkind
  · rintro ⟨members, texts, rfl, variant, recorded, read⟩
    exact .membership kind variant recorded read

theorem resolve_default_iff (kind : r.HasScalar "type" "filter")
    (filter : r.HasScalar "filter" "default") :
    resolve r (.ofName type) = .ok rule ↔
      ∃ value text, rule = .filter (.default value) ∧ r.HasScalar ("value" ++ type) text ∧
        Reads type text value := by
  rw [resolve_eq_ok_iff]
  constructor
  · intro h
    have hkind : Kind.filter = rule.kind := Kind.name_inj (kind.unique h.named.1)
    cases h with
    | check _ plain =>
      simp only [List.mem_cons, List.not_mem_nil, or_false] at plain
      obtain rfl | rfl | rfl | rfl | rfl | rfl := plain <;> cases hkind
    | @filter f _ name plain =>
      have hfilter : FilterKind.default = f.kind := FilterKind.name_inj (filter.unique name)
      simp only [List.mem_cons, List.not_mem_nil, or_false] at plain
      obtain rfl | rfl | rfl | rfl | rfl := plain <;> cases hfilter
    | regex | membership => cases hkind
    | default _ _ recorded read => exact ⟨_, _, rfl, recorded, read⟩
  · rintro ⟨value, text, rfl, recorded, read⟩
    exact .default kind filter recorded read

end InputGuard.Rule
