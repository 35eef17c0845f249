import InputGuard.Config.Load
import InputGuard.Proofs.Config.Check
import InputGuard.Proofs.Json.Decode
import InputGuard.Proofs.Toml.Written

/-! # What a configuration file changes

A file that assigns strings to settings, in any order and any notation, gives the
defaults with exactly these settings replaced, provided that the result is accepted.
A name that is unknown or comes twice, or a value that is no string, is refused
before any value is looked at. -/

namespace InputGuard.Config

open Toml (Written Lines Structured)

/-! ## Settings by name -/

@[simp] theorem get_set (c : Config) (value : String) (k k' : Key) :
    (c.set value k).get k' = if k' = k then value else c.get k' := by
  cases k <;> cases k' <;> rfl

theorem eq_of_get {c c' : Config} (h : ∀ k, c.get k = c'.get k) : c = c' := by
  cases c
  cases c'
  simpa [get] using And.intro (h .modelDirective) (And.intro (h .inputPath) (And.intro
    (h .errorType) (And.intro (h .createResolverId) (h .updateResolverId))))

/-- The assignments that give settings their values. -/
def named (pairs : List (Key × String)) : List (String × String) :=
  pairs.map fun p => (p.1.name, p.2)

theorem keyed?_eq_bind (as : List (String × String)) :
    keyed? as = ((as.mapM fun a => (·, a.2) <$> Key.ofName? a.1) >>= fun pairs =>
      if (pairs.map Prod.fst).Nodup then some pairs else none) := rfl

theorem keyed?_eq_some_iff {as : List (String × String)} {pairs : List (Key × String)} :
    keyed? as = some pairs ↔ as = named pairs ∧ (pairs.map Prod.fst).Nodup := by
  have hpair (a : String × String) (p : Key × String) :
      (·, a.2) <$> Key.ofName? a.1 = some p ↔ a = (p.1.name, p.2) := by
    obtain ⟨name, value⟩ := a
    obtain ⟨k, value'⟩ := p
    simp [Key.ofName?_eq_some_iff, eq_comm (a := name)]
  have hmap : (as.mapM fun a => (·, a.2) <$> Key.ofName? a.1) = some pairs ↔ as = named pairs := by
    simp only [Json.mapM_eq_some_iff, hpair]
    rw [named, ← List.forall₂_eq_eq_eq, List.forall₂_map_right_iff]
  rw [← hmap, keyed?_eq_bind]
  constructor
  · intro h
    obtain ⟨found, hfound, h⟩ := Option.bind_eq_some_iff.mp h
    split at h
    · next hnodup =>
      cases h
      exact ⟨hfound, hnodup⟩
    · cases h
  · rintro ⟨hfound, hnodup⟩
    rw [hfound, Option.bind_eq_bind, Option.bind_some, if_pos hnodup]

theorem keyed?_named {pairs : List (Key × String)} (h : (pairs.map Prod.fst).Nodup) :
    keyed? (named pairs) = some pairs :=
  keyed?_eq_some_iff.mpr ⟨rfl, h⟩

theorem keyed?_unknown {as : List (String × String)} {a : String × String} (ha : a ∈ as)
    (h : ∀ k : Key, k.name ≠ a.1) : keyed? as = none := by
  rw [Option.eq_none_iff_forall_ne_some]
  intro pairs hpairs
  obtain ⟨rfl, -⟩ := keyed?_eq_some_iff.mp hpairs
  obtain ⟨p, -, rfl⟩ := List.mem_map.mp ha
  exact h p.1 rfl

theorem keyed?_repeated {as : List (String × String)} (h : ¬(as.map Prod.fst).Nodup) :
    keyed? as = none := by
  rw [Option.eq_none_iff_forall_ne_some]
  intro pairs hpairs
  obtain ⟨rfl, hnodup⟩ := keyed?_eq_some_iff.mp hpairs
  have hnames : (named pairs).map Prod.fst = (pairs.map Prod.fst).map Key.name := by
    simp [named]
  exact h (hnames ▸ hnodup.map Key.name_injective)

/-! ## Replacing settings -/

theorem override_cons (c : Config) (p : Key × String) (pairs : List (Key × String)) :
    override c (p :: pairs) = override (c.set p.2 p.1) pairs := rfl

theorem get_override_of_not_mem {pairs : List (Key × String)} {k : Key}
    (h : k ∉ pairs.map Prod.fst) (c : Config) : (override c pairs).get k = c.get k := by
  induction pairs generalizing c with
  | nil => rfl
  | cons p pairs ih =>
    obtain ⟨hne, hrest⟩ := not_or.mp (List.mem_cons.not.mp h)
    rw [override_cons, ih hrest, get_set, if_neg hne]

theorem get_override_of_mem {pairs : List (Key × String)} (hnodup : (pairs.map Prod.fst).Nodup)
    {p : Key × String} (h : p ∈ pairs) (c : Config) : (override c pairs).get p.1 = p.2 := by
  induction pairs generalizing c with
  | nil => cases h
  | cons q pairs ih =>
    obtain ⟨hfirst, hrest⟩ := List.nodup_cons.mp hnodup
    rw [override_cons]
    rcases List.mem_cons.mp h with rfl | h
    · rw [get_override_of_not_mem hfirst, get_set, if_pos rfl]
    · exact ih hrest h _

/-- The settings that are named have the values given, the others their defaults. -/
structure Overridden (pairs : List (Key × String)) (c : Config) : Prop where
  named : ∀ p ∈ pairs, c.get p.1 = p.2
  unnamed : ∀ k ∉ pairs.map Prod.fst, c.get k = ({} : Config).get k

/-- Exactly one configuration has them. -/
theorem overridden_iff {pairs : List (Key × String)} (h : (pairs.map Prod.fst).Nodup) {c : Config} :
    Overridden pairs c ↔ c = override {} pairs := by
  constructor
  · intro hc
    have hget (k : Key) : c.get k = (override {} pairs).get k := by
      by_cases hk : k ∈ pairs.map Prod.fst
      · obtain ⟨p, hp, rfl⟩ := List.mem_map.mp hk
        rw [hc.named p hp, get_override_of_mem h hp]
      · rw [hc.unnamed k hk, get_override_of_not_mem hk]
    exact eq_of_get hget
  · rintro rfl
    exact ⟨fun _ hp => get_override_of_mem h hp {}, fun _ hk => get_override_of_not_mem hk {}⟩

/-! ## Loading -/

theorem ofToml_of_keyed {document : String} {as : List (String × String)}
    {pairs : List (Key × String)} (h : Written document.toList as) (hpairs : keyed? as = some pairs) :
    ofToml document = (override {} pairs).check.mapError Error.ofProblem := by
  rw [ofToml, Toml.assignments?_written h, Option.bind_eq_bind, Option.bind_some, hpairs]

theorem ofToml_of_not_keyed {document : String} {as : List (String × String)}
    (h : Written document.toList as) (hpairs : keyed? as = none) :
    ofToml document = .error .malformed := by
  rw [ofToml, Toml.assignments?_written h, Option.bind_eq_bind, Option.bind_some, hpairs]

theorem check_of_ofToml {document : String} {c : Config} (h : ofToml document = .ok c) :
    c.check = .ok c := by
  unfold ofToml at h
  split at h
  · cases h
  · next pairs _ =>
    cases hcheck : (override {} pairs).check with
    | error p =>
      rw [hcheck] at h
      cases h
    | ok c' =>
      rw [hcheck] at h
      cases h
      obtain ⟨rfl, haccepted⟩ := check_eq_ok_iff.mp hcheck
      exact hcheck

theorem keyOf_name (k : Key) : Toml.KeyOf k.name.toList k.name := by
  have hall : k.name.toList.all Toml.Mode.isBareKey = true := by
    cases k <;> rfl
  have hbare : ∀ c ∈ k.name.toList, c.isAlphanum = true ∨ c = '_' ∨ c = '-' :=
    fun c hc => Toml.isBareKey_iff.mp (List.all_eq_true.mp hall c hc)
  have hne : k.name.toList ≠ [] := by
    cases k <;> decide
  obtain ⟨c, r, hname⟩ := List.exists_cons_of_ne_nil hne
  have hkey := Toml.KeyOf.bare (hname ▸ hbare)
  rwa [← hname, String.ofList_toList] at hkey

theorem written_write (pairs : List (Key × String)) :
    Written (Toml.write (named pairs)).toList (named pairs) :=
  .lines (Toml.lines_write (List.forall_mem_map.mpr fun p _ => keyOf_name p.1))

/-- What documents change, and which are refused. -/
structure FilesOverride : Prop where
  /-- Settings named once each, in any order, are replaced if the result passes the check;
  otherwise the check's complaint is the outcome. -/
  replaced : ∀ (document : String) (pairs : List (Key × String)), (pairs.map Prod.fst).Nodup →
    Written document.toList (named pairs) → ∃ c, (∀ c', Overridden pairs c' ↔ c' = c) ∧
      (c.check = .ok c ∧ ofToml document = .ok c ∨
        ∃ p, c.check = .error p ∧ ofToml document = .error (.invalid p.key.name p.reason))
  /-- Any values can be written for any settings. -/
  writable : ∀ pairs : List (Key × String), Written (Toml.write (named pairs)).toList (named pairs)
  checked : ∀ (document : String) (c : Config), ofToml document = .ok c → c.check = .ok c
  unknown : ∀ (document : String) (as : List (String × String)), Written document.toList as →
    (∃ a ∈ as, ∀ k : Key, k.name ≠ a.1) → ofToml document = .error .malformed
  repeated : ∀ (document : String) (as : List (String × String)), Written document.toList as →
    ¬(as.map Prod.fst).Nodup → ofToml document = .error .malformed
  /-- A value that is no string, or a table, comes behind assignments and before anything. -/
  structured : ∀ (document : String) (before rest : List Char) (as : List (String × String)),
    document.toList = before ++ rest → Lines before as → Structured rest →
      ofToml document = .error .malformed

theorem files_override : FilesOverride where
  replaced document pairs hnodup h := by
    refine ⟨override {} pairs, fun _ => overridden_iff hnodup, ?_⟩
    rw [ofToml_of_keyed h (keyed?_named hnodup)]
    cases hcheck : (override {} pairs).check with
    | error p => exact .inr ⟨p, rfl, rfl⟩
    | ok c =>
      obtain ⟨rfl, -⟩ := check_eq_ok_iff.mp hcheck
      exact .inl ⟨rfl, rfl⟩
  writable := written_write
  checked _ _ h := check_of_ofToml h
  unknown _ _ h := fun ⟨_, ha, hk⟩ => ofToml_of_not_keyed h (keyed?_unknown ha hk)
  repeated _ _ h hrepeated := ofToml_of_not_keyed h (keyed?_repeated hrepeated)
  structured document before rest as hdocument hbefore hrest := by
    rw [ofToml, hdocument, Toml.assignments?_structured hbefore hrest]
    rfl

end InputGuard.Config
