import InputGuard.Proofs.Number.Shortest
import InputGuard.Rule.Resolve

/-! # What a resolved rule says about its record

The texts in a rule are those that the record holds under the parameters of its
kind (`resolve_regex`, ...), and the numbers in it are finite
(`isFinite_of_resolve`). -/

namespace InputGuard

open Schema (FieldType)

namespace Rule

variable {r : Record} {type : FieldType}

theorem forField_eq_ok_iff {field : String} {rule : Rule} :
    forField field type r = .ok rule ↔
      Text.isIdentifier field.toList = true ∧ resolve r type = .ok rule := by
  unfold forField
  split
  · next h => simp [h]
  · next h => simp [h]

theorem resolve_of_kind {kind : Kind} (h : r.scalar? Parameter.kind.name = some kind.name) :
    resolve r type = resolveKind r type kind := by
  simp [resolve, h, Kind.ofName?_name]

theorem resolveFilter_default
    (h : r.scalar? Parameter.filter.name = some FilterKind.default.name) :
    resolveFilter r type = Filter.default <$> resolveDefault r type := by
  simp [resolveFilter, h, FilterKind.ofName?_name]

theorem resolve_regex {rule : Rule}
    (hk : r.scalar? Parameter.kind.name = some Kind.regex.name)
    (h : resolve r type = .ok rule) :
    ∃ expression, r.scalar? Parameter.expression.name = some expression ∧
      rule = .check (.regex expression) := by
  rw [resolve_of_kind hk] at h
  unfold resolveKind at h
  cases he : r.scalar? Parameter.expression.name with
  | none => rw [he] at h; cases h
  | some expression =>
    rw [he] at h
    exact ⟨expression, rfl, (Except.ok.inj h).symm⟩

theorem resolve_membership_string {rule : Rule}
    (hk : r.scalar? Parameter.kind.name = some Kind.membership.name)
    (h : resolve r .string = .ok rule) :
    ∃ members, r.list? Parameter.arrayString.name = some members ∧
      rule = .check (.membership (.strings members)) := by
  rw [resolve_of_kind hk] at h
  simp only [resolveKind, resolveMembers, Kind.parameter?] at h
  cases hm : r.list? Parameter.arrayString.name with
  | none => rw [hm] at h; cases h
  | some members =>
    rw [hm] at h
    exact ⟨members, rfl, (Except.ok.inj h).symm⟩

theorem resolve_default_string {rule : Rule}
    (hk : r.scalar? Parameter.kind.name = some Kind.filter.name)
    (hf : r.scalar? Parameter.filter.name = some FilterKind.default.name)
    (h : resolve r .string = .ok rule) :
    ∃ text, r.scalar? Parameter.valueString.name = some text ∧
      rule = .filter (.default (.string text)) := by
  rw [resolve_of_kind hk] at h
  simp only [resolveKind, resolveFilter_default hf, resolveDefault, FilterKind.parameter?] at h
  cases hv : r.scalar? Parameter.valueString.name with
  | none => rw [hv] at h; cases h
  | some text =>
    rw [hv] at h
    exact ⟨text, rfl, (Except.ok.inj h).symm⟩

/-! ## Values in a rule -/

/-- Only a float can be infinite or no number. -/
def Default.isFinite : Default → Bool
  | .float x => x.isFinite
  | _ => true

def Members.values : Members → List Default
  | .strings ms => ms.map .string
  | .integers ms => ms.map .integer
  | .floats ms => ms.map .float

end Rule

/-- The members of a membership check, or the value of a default. -/
def Rule.values : Rule → List Rule.Default
  | .check (.membership members) => members.values
  | .filter (.default value) => [value]
  | _ => []

namespace Rule

variable {r : Record} {type : FieldType}

theorem isFinite_of_readAs {p : Parameter} {text : String} {x : Number.Binary64}
    (h : readAs p type Number.readFloat? text = .ok x) : x.isFinite = true := by
  unfold readAs at h
  cases hx : Number.readFloat? text.toList with
  | none => rw [hx] at h; cases h
  | some y =>
    rw [hx] at h
    cases h
    exact Number.isFinite_of_readFloat? hx

theorem forall_of_mapM_ok {α β ε : Type} {f : α → Except ε β} {P : β → Prop}
    (hf : ∀ a b, f a = .ok b → P b) {as : List α} {bs : List β} (h : as.mapM f = .ok bs) :
    ∀ b ∈ bs, P b := by
  induction as generalizing bs with
  | nil =>
    cases h
    simp
  | cons a as ih =>
    rw [List.mapM_cons] at h
    cases ha : f a with
    | error e => rw [ha] at h; cases h
    | ok b =>
      cases has : as.mapM f with
      | error e => rw [ha, has] at h; cases h
      | ok bs' =>
        rw [ha, has] at h
        cases h
        exact List.forall_mem_cons.mpr ⟨hf a b ha, ih has⟩

theorem map_eq_ok_iff {α β ε : Type} {g : α → β} {x : Except ε α} {b : β} :
    g <$> x = .ok b ↔ ∃ a, x = .ok a ∧ g a = b := by
  cases x with
  | error e => simp [Functor.map, Except.map]
  | ok a => simp [Functor.map, Except.map]

theorem isFinite_of_resolveMembers {members : Members} (h : resolveMembers r type = .ok members) :
    ∀ v ∈ members.values, v.isFinite = true := by
  unfold resolveMembers at h
  split at h
  · cases h
  · next p _ =>
    split at h
    · cases h
    · next texts _ =>
      split at h
      · obtain ⟨ms, -, rfl⟩ := map_eq_ok_iff.mp h
        simp [Members.values, Default.isFinite]
      · obtain ⟨ms, hms, rfl⟩ := map_eq_ok_iff.mp h
        have hall := forall_of_mapM_ok (fun _ _ => isFinite_of_readAs) hms
        simpa [Members.values, Default.isFinite] using hall
      · cases h
        simp [Members.values, Default.isFinite]

theorem isFinite_of_resolveDefault {value : Default} (h : resolveDefault r type = .ok value) :
    value.isFinite = true := by
  unfold resolveDefault at h
  split at h
  · cases h
  · split at h
    · cases h
    · split at h
      · obtain ⟨v, -, rfl⟩ := map_eq_ok_iff.mp h
        rfl
      · obtain ⟨x, hx, rfl⟩ := map_eq_ok_iff.mp h
        exact isFinite_of_readAs hx
      · obtain ⟨b, -, rfl⟩ := map_eq_ok_iff.mp h
        rfl
      · cases h
        rfl

/-- The values in a resolved rule are finite. -/
theorem isFinite_of_resolve {rule : Rule} (h : resolve r type = .ok rule) :
    ∀ v ∈ rule.values, v.isFinite = true := by
  unfold resolve at h
  split at h
  · cases h
  · split at h
    · cases h
    · next kind _ =>
      cases kind with
      | membership =>
        obtain ⟨members, hm, rfl⟩ := map_eq_ok_iff.mp h
        exact isFinite_of_resolveMembers hm
      | filter =>
        obtain ⟨f, hf, rfl⟩ := map_eq_ok_iff.mp h
        unfold resolveFilter at hf
        split at hf
        · cases hf
        · split at hf
          · cases hf
          · obtain ⟨value, hv, rfl⟩ := map_eq_ok_iff.mp hf
            simpa [Rule.values] using isFinite_of_resolveDefault hv
          all_goals
            cases hf
            simp [Rule.values]
      | regex =>
        simp only [resolveKind] at h
        split at h
        · cases h
        · cases h
          simp [Rule.values]
      | required | number | string | boolean | url | email =>
        cases h
        simp [Rule.values]

end Rule
end InputGuard
