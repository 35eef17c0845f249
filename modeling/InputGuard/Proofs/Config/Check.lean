import InputGuard.Config.Basic
import Mathlib.Tactic.SplitIfs

/-! # What an accepted configuration guarantees -/

namespace InputGuard.Config

theorem Key.ofName?_eq_some_iff {name : String} {k : Key} :
    Key.ofName? name = some k ↔ k.name = name := by
  constructor
  · intro h
    simpa using List.find?_some h
  · rintro rfl
    cases k <;> rfl

theorem Key.name_injective : Function.Injective Key.name := by
  intro k k' h
  have hk : Key.ofName? k.name = some k := Key.ofName?_eq_some_iff.mpr rfl
  have hk' : Key.ofName? k.name = some k' := Key.ofName?_eq_some_iff.mpr h.symm
  exact Option.some_inj.mp (hk.symm.trans hk')

structure Accepted (c : Config) : Prop where
  modelDirective : c.modelDirective ≠ ""
  inputPath : isReference c.inputPath.toList = true
  errorType : Text.isIdentifier c.errorType.toList = true
  createResolverId : Text.hasPlaceholder c.createResolverId.toList = true
  updateResolverId : Text.hasPlaceholder c.updateResolverId.toList = true
  templates_ne : c.createResolverId ≠ c.updateResolverId

theorem problem?_eq_none_iff {c : Config} : c.problem? = none ↔ Accepted c := by
  constructor
  · intro h
    unfold problem? at h
    split_ifs at h with hd hp he hc hu hs
    simp only [Bool.not_eq_true', Bool.not_eq_false] at hp he hc hu
    exact ⟨hd, hp, he, hc, hu, hs⟩
  · rintro ⟨hd, hp, he, hc, hu, hs⟩
    simp [problem?, hd, hp, he, hc, hu, hs]

theorem check_eq_ok_iff {c c' : Config} : c.check = .ok c' ↔ c' = c ∧ Accepted c := by
  rw [← problem?_eq_none_iff]
  unfold check
  cases c.problem? with
  | none => simp [eq_comm]
  | some p => simp

/-- A reference has a dollar sign, points, and the characters of identifiers. -/
theorem mem_of_isReference {s : List Char} (h : isReference s = true) {x : Char} (hx : x ∈ s) :
    x = '$' ∨ x = '.' ∨ Text.isFollowing x = true := by
  unfold isReference at h
  split at h
  · next r =>
    rcases List.mem_cons.mp hx with rfl | hr
    · exact .inl rfl
    · rcases Text.mem_splitOn '.' hr with rfl | ⟨p, hp, hxp⟩
      · exact .inr (.inl rfl)
      · exact .inr (.inr (Text.isFollowing_of_mem (List.all_eq_true.mp h p hp) hxp))
  · cases h

end InputGuard.Config
