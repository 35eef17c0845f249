import InputGuard.Proofs.Json.Decode

/-! # Members in any order

A reader of a record finds a member wherever it stands among the others, and passes
over members that it does not know. A known name that comes twice is refused. -/

namespace InputGuard.Json

variable {α : Type} {d : Decoder α} {a : α} {n : Nat}

/-- The decoder gives the value wherever so many containers may still be opened. -/
def Gives (d : Decoder α) (n : Nat) (j : Json) (a : α) : Prop :=
  ∀ depth, n ≤ depth → d depth j = some a

/-- An array of the values that are related to some others. -/
inductive ListOf (R : Json → α → Prop) : Json → List α → Prop where
  | mk {js : List Json} {as : List α} (h : List.Forall₂ R js as) : ListOf R (.array js) as

theorem listOf_map {R : Json → α → Prop} {write : α → Json} (as : List α)
    (h : ∀ a, R (write a) a) : ListOf R (.array (as.map write)) as :=
  .mk (List.forall₂_map_left_iff.mpr (List.forall₂_same.mpr fun a _ => h a))

/-- The bound for a list comes from the form that its elements are written in. -/
theorem gives_list {R : Json → α → Prop} {write : α → Json} {j : Json} {as : List α}
    (h : ListOf R j as) (hR : ∀ a ∈ as, ∀ v, R v a → Gives d (write a).depth v a) :
    Gives (asList d) (Json.array (as.map write)).depth j as := by
  obtain ⟨h⟩ := h
  intro depth hdepth
  obtain ⟨m, rfl, hm⟩ := depth_array_le.mp hdepth
  have hm := List.forall_mem_map.mp hm
  have hall := (List.forall₂_and_left _ _).mpr ⟨fun a ha => And.intro (hR a ha) (hm a ha), h.flip⟩
  exact mapM_eq_some_iff.mpr (hall.flip.imp fun v a ⟨hgives, hv⟩ => hgives.1 v hv m hgives.2)

/-! ## The members under a name -/

def under (ms : List (String × Json)) (name : String) : List Json :=
  (ms.filter (·.1 = name)).map Prod.snd

theorem mem_under {ms : List (String × Json)} {name : String} {v : Json} :
    v ∈ under ms name ↔ (name, v) ∈ ms := by
  simp [under]

/-- No name in the list comes twice. -/
def Unrepeated (names : List String) (ms : List (String × Json)) : Prop :=
  ∀ name ∈ names, (under ms name).length ≤ 1

/-- Some name in the list comes twice. -/
def Repeated (names : List String) (ms : List (String × Json)) : Prop :=
  ∃ name ∈ names, 1 < (under ms name).length

theorem not_repeated {names : List String} {ms : List (String × Json)} :
    ¬Repeated names ms ↔ Unrepeated names ms := by
  simp [Repeated, Unrepeated]

namespace Fields

/-- The members whose names are in the list. -/
abbrev known (names : List String) (ms : List (String × Json)) : List (String × Json) :=
  ms.filter (names.contains ·.1)

theorem count_known (names : List String) (ms : List (String × Json)) (name : String) :
    ((known names ms).map Prod.fst).count name =
      if name ∈ names then (under ms name).length else 0 := by
  have hcount : ((known names ms).map Prod.fst).count name =
      ms.countP fun m => decide (m.1 = name) && names.contains m.1 := by
    rw [List.count, List.countP_map, List.countP_filter]
    congr 1
  rw [hcount]
  split
  · next hname =>
    rw [under, List.length_map, ← List.countP_eq_length_filter]
    refine List.countP_congr fun m _ => ?_
    by_cases hm : m.1 = name <;> simp [hm, hname]
  · next hname =>
    rw [List.countP_eq_zero]
    intro m _
    by_cases hm : m.1 = name <;> simp [hm, hname]

theorem nodup_known_iff {names : List String} {ms : List (String × Json)} :
    ((known names ms).map Prod.fst).Nodup ↔ Unrepeated names ms := by
  rw [List.nodup_iff_count_le_one]
  simp only [count_known]
  constructor
  · intro h name hname
    simpa [hname] using h name
  · intro h name
    split
    · next hname => exact h name hname
    · exact Nat.zero_le 1

theorem of?_record {names : List String} {ms : List (String × Json)} (h : Unrepeated names ms)
    (n : Nat) : of? names false (n + 1) (.record ms) = some ⟨n, known names ms⟩ := by
  have hselect : select? names false ms = some (known names ms) :=
    if_pos ⟨nodup_known_iff.mpr h, nofun⟩
  simp only [record, of?, keyed?_record, Option.bind_eq_bind, Option.bind_some, hselect]

theorem unrepeated_of_of? {names : List String} {ms : List (String × Json)} {depth : Nat}
    {f : Fields} (h : of? names false depth (.record ms) = some f) :
    Unrepeated names ms ∧ f.members = known names ms := by
  cases depth with
  | zero => cases h
  | succ depth =>
    simp only [record, of?, keyed?_record, Option.bind_eq_bind, Option.bind_some] at h
    obtain ⟨members, hmembers, h⟩ := Option.bind_eq_some_iff.mp h
    simp only [select?] at hmembers
    split at hmembers
    · next hnodup =>
      cases hmembers
      cases h
      exact ⟨nodup_known_iff.mp hnodup.1, rfl⟩
    · cases hmembers

theorem get?_known {names : List String} {ms : List (String × Json)} {f : Fields}
    (hf : f.members = known names ms) {name : String} (hname : name ∈ names) :
    f.get? name = (under ms name).head? := by
  rw [get?, hf, List.find?_filter, under, List.head?_map, List.head?_filter]
  congr 2
  funext m
  by_cases hm : m.1 = name <;> simp [hm, hname]

end Fields

/-! ## Records that are read -/

/-- Exactly one member has the name, and its value is related to another one. -/
def Once (ms : List (String × Json)) (name : String) (R : Json → α → Prop) (a : α) : Prop :=
  ∃ v, under ms name = [v] ∧ R v a

/-- The same of a member that may be left out in favour of a default. -/
def AtMostOnce (ms : List (String × Json)) (name : String) (R : Json → α → Prop) (default a : α) :
    Prop :=
  Once ms name R a ∨ under ms name = [] ∧ a = default

section

variable {ms : List (String × Json)} {name : String} {R : Json → α → Prop} {default : α}

theorem Once.length_le (h : Once ms name R a) : (under ms name).length ≤ 1 := by
  obtain ⟨v, hv, -⟩ := h
  rw [hv]
  exact Nat.le_refl 1

theorem AtMostOnce.length_le (h : AtMostOnce ms name R default a) :
    (under ms name).length ≤ 1 := by
  rcases h with h | ⟨h, -⟩
  · exact h.length_le
  · rw [h]
    exact Nat.zero_le 1

namespace Fields

variable {f : Fields} {names : List String}

theorem required_once (hf : f.members = known names ms) (hname : name ∈ names)
    (h : Once ms name R a) (hR : ∀ v, R v a → Gives d n v a) (hn : n ≤ f.depth) :
    f.required name d = some a := by
  obtain ⟨v, hv, hrelated⟩ := h
  rw [required, get?_known hf hname, hv]
  exact hR v hrelated f.depth hn

theorem optional_once (hf : f.members = known names ms) (hname : name ∈ names)
    (h : AtMostOnce ms name R default a) (hR : ∀ v, R v a → Gives d n v a) (hn : n ≤ f.depth) :
    f.optional name default d = some a := by
  rcases h with ⟨v, hv, hrelated⟩ | ⟨hnone, rfl⟩
  · rw [optional, get?_known hf hname, hv]
    exact hR v hrelated f.depth hn
  · rw [optional, get?_known hf hname, hnone]
    rfl

/-- A record gives what a reader makes of its members; the bound comes from the form
that the record is written in. -/
theorem gives {k : Fields → Option α} {written : List (String × Json)} (h : Unrepeated names ms)
    (hk : ∀ f : Fields, f.members = known names ms → (∀ m ∈ written, m.2.depth ≤ f.depth) →
      k f = some a) :
    Gives (fun depth j => of? names false depth j >>= k) (record written).depth (.record ms) a := by
  intro depth hdepth
  obtain ⟨n, rfl, hn⟩ := depth_record_le.mp hdepth
  change of? names false (n + 1) (.record ms) >>= k = some a
  rw [of?_record h]
  exact hk ⟨n, known names ms⟩ rfl hn

end Fields

end

/-! ## Records that are refused -/

/-- The decoder gives nothing for any value of the kind. -/
def Refuses (d : Decoder α) (P : Json → Prop) : Prop := ∀ depth j, P j → d depth j = none

/-- An array with an element of the kind. -/
inductive HasElement (P : Json → Prop) : Json → Prop where
  | mk {js : List Json} {v : Json} (hv : v ∈ js) (h : P v) : HasElement P (.array js)

theorem refuses_list {P : Json → Prop} (h : Refuses d P) : Refuses (asList d) (HasElement P) := by
  rintro depth _ ⟨hv, hP⟩
  cases depth with
  | zero => rfl
  | succ depth =>
    have hsome (v : Json) (a : α) (ha : d depth v = some a) : ¬P v := by
      intro hv
      rw [h depth v hv] at ha
      cases ha
    rw [Option.eq_none_iff_forall_ne_some]
    intro as has
    exact forall_of_forall₂ (mapM_eq_some_iff.mp has) hsome _ hv hP

namespace Fields

variable {f : Fields} {names : List String} {ms : List (String × Json)} {name : String} {v : Json}
  {depth : Nat}

theorem bind_repeated {k : Fields → Option α} (h : Repeated names ms) (depth : Nat) :
    of? names false depth (.record ms) >>= k = none := by
  have hnone : of? names false depth (.record ms) = none := by
    rw [Option.eq_none_iff_forall_ne_some]
    intro f hf
    exact not_repeated.mpr (unrepeated_of_of? hf).1 h
  rw [hnone]
  rfl

/-- What stands under a known name is what the name gives. -/
theorem get?_of_mem (hf : of? names false depth (.record ms) = some f) (hname : name ∈ names)
    (hv : (name, v) ∈ ms) : f.get? name = some v := by
  obtain ⟨hunrepeated, hmembers⟩ := unrepeated_of_of? hf
  have hlength := hunrepeated name hname
  have hmem := mem_under.mpr hv
  rw [get?_known hmembers hname]
  match hunder : under ms name with
  | [] => simp [hunder] at hmem
  | [w] =>
    rw [hunder, List.mem_singleton] at hmem
    rw [hmem, List.head?_cons]
  | w :: w' :: ws => simp [hunder] at hlength

theorem required_refused {P : Json → Prop} (hf : of? names false depth (.record ms) = some f)
    (hname : name ∈ names) (hv : (name, v) ∈ ms) (hd : Refuses d P) (h : P v) :
    f.required name d = none := by
  rw [required, get?_of_mem hf hname hv]
  exact hd f.depth v h

theorem optional_refused {P : Json → Prop} {default : α}
    (hf : of? names false depth (.record ms) = some f) (hname : name ∈ names) (hv : (name, v) ∈ ms)
    (hd : Refuses d P) (h : P v) : f.optional name default d = none := by
  rw [optional, get?_of_mem hf hname hv]
  exact hd f.depth v h

end Fields

end InputGuard.Json
