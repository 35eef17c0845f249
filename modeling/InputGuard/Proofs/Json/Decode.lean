import InputGuard.Json.Decode
import InputGuard.Proofs.Json.Parser
import Mathlib.Data.List.Forall2
import Mathlib.Data.List.Nodup

/-! # Encodings

A value encodes something for a decoder if the decoder gets it back wherever the
value may be nested that deep, and if the value can be written. There is one law
for each container, so an encoding follows the decoder's structure. What is
encoded is read from every layout of the value (`Encodes.read`). -/

namespace InputGuard.Json

variable {α β : Type} {d : Decoder α} {j : Json} {a : α} {n : Nat}

theorem mapM_eq_some_iff {f : α → Option β} {as : List α} {bs : List β} :
    as.mapM f = some bs ↔ List.Forall₂ (fun a b => f a = some b) as bs := by
  induction as generalizing bs with
  | nil =>
    rw [List.mapM_nil, List.forall₂_nil_left_iff, eq_comm]
    exact Option.some_inj
  | cons a as ih =>
    rw [List.mapM_cons, List.forall₂_cons_left_iff]
    constructor
    · intro h
      obtain ⟨b, hb, h⟩ := Option.bind_eq_some_iff.mp h
      obtain ⟨bs', hbs, h⟩ := Option.bind_eq_some_iff.mp h
      exact ⟨b, bs', hb, ih.mp hbs, (Option.some.inj h).symm⟩
    · rintro ⟨b, bs', hb, hbs, rfl⟩
      rw [hb, ih.mpr hbs]
      rfl

theorem forall_of_forall₂ {R : α → β → Prop} {P : α → Prop} {as : List α} {bs : List β}
    (h : List.Forall₂ R as bs) (hP : ∀ a b, R a b → P a) : ∀ a ∈ as, P a :=
  ((List.forall₂_and_left _ _).mp (h.imp fun a b hab => And.intro (hP a b hab) hab)).1

/-! ## Depth -/

theorem depthOfElements_le {vs : List Json} : depthOfElements vs ≤ n ↔ ∀ v ∈ vs, v.depth ≤ n := by
  induction vs with
  | nil => simp [depthOfElements]
  | cons v vs ih => rw [depthOfElements, Nat.max_le, ih, List.forall_mem_cons]

theorem depthOfMembers_le {ms : List (Option String × Json)} :
    depthOfMembers ms ≤ n ↔ ∀ m ∈ ms, m.2.depth ≤ n := by
  induction ms with
  | nil => simp [depthOfMembers]
  | cons m ms ih => rw [depthOfMembers, Nat.max_le, ih, List.forall_mem_cons]

theorem depth_array_le {vs : List Json} :
    depth (.array vs) ≤ n ↔ ∃ m, n = m + 1 ∧ ∀ v ∈ vs, v.depth ≤ m := by
  rw [depth]
  cases n with
  | zero => simp
  | succ n =>
    simp only [← depthOfElements_le, Nat.add_comm 1, Nat.add_le_add_iff_right,
      Nat.add_right_cancel_iff, exists_eq_left']

theorem depth_object_le {ms : List (Option String × Json)} :
    depth (.object ms) ≤ n ↔ ∃ m, n = m + 1 ∧ ∀ p ∈ ms, p.2.depth ≤ m := by
  rw [depth]
  cases n with
  | zero => simp
  | succ n =>
    simp only [← depthOfMembers_le, Nat.add_comm 1, Nat.add_le_add_iff_right,
      Nat.add_right_cancel_iff, exists_eq_left']

theorem depth_record_le {ms : List (String × Json)} :
    depth (record ms) ≤ n ↔ ∃ m, n = m + 1 ∧ ∀ p ∈ ms, p.2.depth ≤ m := by
  rw [record, depth_object_le]
  simp only [List.forall_mem_map]

/-! ## The laws -/

structure Encodes (d : Decoder α) (j : Json) (a : α) : Prop where
  writable : Writable j
  decodes : ∀ depth, j.depth ≤ depth → d depth j = some a

theorem Encodes.read {l : Layout} (h : Encodes d j a) (hl : l.Blank) (hd : j.depth ≤ nesting) :
    ofText? (write l j) >>= decode d = some a := by
  rw [ofText?_write hl h.writable]
  exact h.decodes nesting hd

theorem encodes_text (s : String) : Encodes asText (.text s) s :=
  ⟨.string _, fun _ _ => rfl⟩

theorem encodes_list {js : List Json} {as : List α} (h : List.Forall₂ (Encodes d) js as) :
    Encodes (asList d) (.array js) as := by
  constructor
  case writable =>
    exact .array (forall_of_forall₂ h fun _ _ he => he.writable)
  case decodes =>
    intro depth hdepth
    obtain ⟨m, rfl, hm⟩ := depth_array_le.mp hdepth
    have hboth := (List.forall₂_and_left _ _).mpr ⟨hm, h⟩
    exact mapM_eq_some_iff.mpr (hboth.imp fun _ _ hv => hv.2.decodes m hv.1)

theorem encodes_map {f : α → Json} {as : List α} (h : ∀ a ∈ as, Encodes d (f a) a) :
    Encodes (asList d) (.array (as.map f)) as :=
  encodes_list (List.forall₂_map_left_iff.mpr (List.forall₂_same.mpr h))

theorem writable_record {ms : List (String × Json)} (h : ∀ m ∈ ms, Writable m.2) :
    Writable (record ms) :=
  .object (List.forall_mem_map.mpr h)

theorem writable_map {f : α → Json} (as : List α) (h : ∀ a, Writable (f a)) :
    Writable (.array (as.map f)) :=
  .array (List.forall_mem_map.mpr fun a _ => h a)

theorem keyed?_record (ms : List (String × Json)) :
    keyed? (ms.map fun (k, v) => (some k, v)) = some ms := by
  rw [keyed?, mapM_eq_some_iff, List.forall₂_map_left_iff, List.forall₂_same]
  exact fun _ _ => rfl

theorem encodes_entries {ms : List (String × Json)} {ps : List (String × α)}
    (h : List.Forall₂ (fun m p => m.1 = p.1 ∧ Encodes d m.2 p.2) ms ps) :
    Encodes (asEntries d) (record ms) ps := by
  constructor
  case writable =>
    exact writable_record (forall_of_forall₂ h fun _ _ he => he.2.writable)
  case decodes =>
    intro depth hdepth
    obtain ⟨n, rfl, hn⟩ := depth_record_le.mp hdepth
    have hboth := (List.forall₂_and_left _ _).mpr ⟨hn, h⟩
    rw [record, asEntries, keyed?_record, Option.bind_eq_bind, Option.bind_some,
      mapM_eq_some_iff]
    refine hboth.imp fun m p ⟨hm, hkey, hvalue⟩ => ?_
    obtain ⟨k, v⟩ := m
    cases hkey
    have hv : d n v = some p.2 := hvalue.decodes n hm
    change (p.1, ·) <$> d n v = some p
    rw [hv]
    rfl

/-! ### Records -/

namespace Fields

/-- A record gives a reader of fields its members, if they are all known. -/
theorem encodes {names : List String} {closed : Bool} {ms : List (String × Json)}
    {k : Fields → Option α} (hw : ∀ m ∈ ms, Writable m.2) (hknown : ∀ m ∈ ms, m.1 ∈ names)
    (hdistinct : (ms.map Prod.fst).Nodup)
    (hk : ∀ depth, (∀ m ∈ ms, m.2.depth ≤ depth) → k ⟨depth, ms⟩ = some a) :
    Encodes (fun depth j => of? names closed depth j >>= k) (record ms) a := by
  refine ⟨writable_record hw, fun depth hdepth => ?_⟩
  obtain ⟨n, rfl, hn⟩ := depth_record_le.mp hdepth
  have hfilter : (ms.filter fun m => names.contains m.1) = ms := by
    rw [List.filter_eq_self]
    exact fun m hm => List.contains_iff_mem.mpr (hknown m hm)
  have hselect : select? names closed ms = some ms := by
    rw [select?, hfilter, if_pos ⟨hdistinct, fun _ => rfl⟩]
  have hfields : of? names closed (n + 1) (record ms) = some ⟨n, ms⟩ := by
    simp only [record, of?, keyed?_record, Option.bind_eq_bind, Option.bind_some, hselect]
  rw [hfields]
  exact hk n hn

end Fields

/-! ## What a decoder gives -/

/-- Whatever a decoder returns has the property, which may depend on the depth
that it was given. -/
def Yields (d : Decoder α) (P : Nat → α → Prop) : Prop :=
  ∀ depth j a, d depth j = some a → P depth a

theorem yields_list {P : Nat → α → Prop} (h : Yields d P) :
    Yields (asList d) fun depth as => ∃ n, depth = n + 1 ∧ ∀ a ∈ as, P n a := by
  intro depth j as hj
  unfold asList at hj
  split at hj
  · next n vs =>
    exact ⟨n, rfl, forall_of_forall₂ (mapM_eq_some_iff.mp hj).flip fun a v ha => h n v a ha⟩
  · cases hj

namespace Fields

variable {f : Fields} {name : String}

/-- The fields of a record are one level deeper than the record. -/
theorem depth_of? {names : List String} {closed : Bool} (h : of? names closed n j = some f) :
    n = f.depth + 1 := by
  unfold of? at h
  split at h
  · obtain ⟨known, -, hf⟩ := Option.bind_eq_some_iff.mp h
    cases hf
    rfl
  · split at h
    · cases h
      rfl
    · cases h
  · cases h

theorem required_yields {P : Nat → α → Prop} (hd : Yields d P) (h : f.required name d = some a) :
    P f.depth a := by
  obtain ⟨v, -, hv⟩ := Option.bind_eq_some_iff.mp h
  exact hd _ v a hv

theorem optional_yields {P : Nat → α → Prop} {default : α} (hd : Yields d P)
    (h : f.optional name default d = some a) : a = default ∨ P f.depth a := by
  unfold optional at h
  split at h
  · exact .inl (Option.some.inj h).symm
  · next v _ => exact .inr (hd _ v a h)

end Fields

end InputGuard.Json
