import InputGuard.Error
import InputGuard.Proofs.Rule.Complete

/-! # Which directives resolve

A record resolves if and only if it is complete, to the rule that it stands for,
and is refused with what is wrong first otherwise (`resolve_documented`). The
tables that limit a kind to some types and that name its parameter agree with the
resolver's own distinction of types. -/

namespace InputGuard.Rule

open Schema (FieldType)

variable {r : Record} {type : String}

/-! ## Names and the tables of the grammar -/

theorem Kind.ofName?_eq_none {name : String} (h : ∀ k : Kind, k.name ≠ name) :
    Kind.ofName? name = none := by
  simpa [Kind.ofName?] using fun k _ => h k

theorem FilterKind.ofName?_eq_none {name : String} (h : ∀ f : FilterKind, f.name ≠ name) :
    FilterKind.ofName? name = none := by
  simpa [FilterKind.ofName?] using fun f _ => h f

theorem ofName_of_not_mem {type : String} (h : type ∉ defaultTypes) :
    FieldType.ofName type = .other type := by
  simp only [defaultTypes, List.mem_cons, List.not_mem_nil, or_false, not_or] at h
  simp [FieldType.ofName, h]

/-- A table names a parameter by the type of the field, for the types that it supports. -/
structure Named (table : FieldType → Option Parameter) (supported : List String)
    (stem : String) : Prop where
  some : ∀ type ∈ supported, ∃ p, table (.ofName type) = some p ∧ p.name = stem ++ type
  none : ∀ type ∉ supported, table (.ofName type) = none

theorem membership_named : Named Kind.membership.parameter? membershipTypes "array" := by
  refine ⟨fun type h => ?_, fun type h => ?_⟩
  · simp only [membershipTypes, List.mem_cons, List.not_mem_nil, or_false] at h
    obtain rfl | rfl | rfl := h
    · exact ⟨.arrayString, rfl, rfl⟩
    · exact ⟨.arrayInt, rfl, rfl⟩
    · exact ⟨.arrayFloat, rfl, rfl⟩
  · by_cases hb : type = "Boolean"
    · subst hb
      rfl
    · rw [ofName_of_not_mem (by simpa [defaultTypes, membershipTypes, hb] using h)]
      rfl

theorem default_named : Named FilterKind.default.parameter? defaultTypes "value" := by
  refine ⟨fun type h => ?_, fun type h => ?_⟩
  · simp only [defaultTypes, List.mem_cons, List.not_mem_nil, or_false] at h
    obtain rfl | rfl | rfl | rfl := h
    · exact ⟨.valueString, rfl, rfl⟩
    · exact ⟨.valueInt, rfl, rfl⟩
    · exact ⟨.valueFloat, rfl, rfl⟩
    · exact ⟨.valueBoolean, rfl, rfl⟩
  · rw [ofName_of_not_mem h]
    rfl

theorem typeMessage_ofName {type what : String} {supported : Option (List FieldType)}
    {names : List String} (h : (supported.getD []).map FieldType.name = names) :
    Fault.typeMessage (.ofName type) what supported =
      "Unexpected field type " ++ type ++ " for " ++ what ++ "; expected one of " ++
        ", ".intercalate names ++ "." := by
  subst h
  change "Unexpected field type " ++ (FieldType.ofName type).name ++ " for " ++ what ++
    "; expected one of " ++ ", ".intercalate ((supported.getD []).map FieldType.name) ++ "." = _
  rw [FieldType.name_ofName]

theorem message_membershipType (type : String) :
    (Fault.membershipType (.ofName type)).message = "Unexpected field type " ++ type ++ " for " ++
      "in" ++ "; expected one of " ++ ", ".intercalate membershipTypes ++ "." :=
  typeMessage_ofName rfl

theorem message_defaultType (type : String) :
    (Fault.defaultType (.ofName type)).message = "Unexpected field type " ++ type ++ " for " ++
      "default filter" ++ "; expected one of " ++ ", ".intercalate defaultTypes ++ "." :=
  typeMessage_ofName rfl

/-! ## Reading texts -/

theorem mapM_eq_ok {α β ε : Type} {f : α → Except ε β} {as : List α} {bs : List β}
    (h : List.Forall₂ (fun a b => f a = .ok b) as bs) : as.mapM f = .ok bs := by
  induction h with
  | nil => rfl
  | cons ha _ ih =>
    rw [List.mapM_cons, ha, ih]
    rfl

/-- The first failure is that of the whole list. -/
theorem mapM_eq_error {α β ε : Type} {f : α → Except ε β} {before after : List α} {a : α} {e : ε}
    (hb : ∀ b ∈ before, ∃ v, f b = .ok v) (ha : f a = .error e) :
    (before ++ a :: after).mapM f = .error e := by
  induction before with
  | nil =>
    rw [List.nil_append, List.mapM_cons, ha]
    rfl
  | cons b before ih =>
    obtain ⟨v, hv⟩ := hb b List.mem_cons_self
    rw [List.cons_append, List.mapM_cons, hv, ih fun c hc => hb c (List.mem_cons_of_mem b hc)]
    rfl

theorem map_eq_error {α β ε : Type} {g : α → β} {x : Except ε α} {e : ε} (h : x = .error e) :
    g <$> x = .error e := by
  rw [h]
  rfl

theorem readAs_eq_ok {α : Type} {p : Parameter} {t : FieldType} {read : List Char → Option α}
    {text : String} {v : α} (h : read text.toList = some v) : readAs p t read text = .ok v := by
  simp [readAs, h]

theorem readAs_eq_error {α : Type} {p : Parameter} {t : FieldType} {read : List Char → Option α}
    {text : String} (h : ∀ v, read text.toList ≠ some v) :
    readAs p t read text = .error (.unreadable p text t) := by
  simp [readAs, Option.eq_none_iff_forall_ne_some.mpr h]

/-! ## Refusals -/

/-- Refused, with a cause of this wording. -/
def RefusedWith {α : Type} (x : Except Fault α) (message : String) : Prop :=
  ∃ f, x = .error f ∧ f.message = message

theorem RefusedWith.map {α β : Type} {g : α → β} {x : Except Fault α} {message : String}
    (h : RefusedWith x message) : RefusedWith (g <$> x) message := by
  obtain ⟨f, hf, hm⟩ := h
  exact ⟨f, map_eq_error hf, hm⟩

theorem RefusedWith.of_unusable {α : Type} {x : Except Fault α} {cause : Fault}
    {table : FieldType → Option Parameter} {what stem type message : String}
    {supported : List String} {held : List String → Prop} (named : Named table supported stem)
    (wording : cause.message = "Unexpected field type " ++ type ++ " for " ++ what ++
      "; expected one of " ++ ", ".intercalate supported ++ ".")
    (type? : table (.ofName type) = none → x = .error cause)
    (missing? : ∀ p, table (.ofName type) = some p → p.name = stem ++ type →
      (∀ texts, ¬held texts) → x = .error (.missingParameter p))
    (unreadable? : ∀ p before text after, table (.ofName type) = some p → p.name = stem ++ type →
      held (before ++ text :: after) → (∀ t ∈ before, Readable type t) →
      ¬Readable type text → x = .error (.unreadable p text (.ofName type)))
    (h : Unusable what supported (stem ++ type) type held message) : RefusedWith x message := by
  cases h with
  | type unsupported => exact ⟨cause, type? (named.none type unsupported), wording⟩
  | missing supports missing =>
    obtain ⟨p, hp, hn⟩ := named.some type supports
    refine ⟨_, missing? p hp hn missing, ?_⟩
    -- wordings are opened by `change`: `rw [Fault.message]` would compare all their literals
    change p.name ++ " must be defined." = _
    rw [hn]
  | unreadable supports recorded readable unreadable =>
    obtain ⟨p, hp, hn⟩ := named.some type supports
    refine ⟨_, unreadable? p _ _ _ hp hn recorded readable unreadable, ?_⟩
    change p.name ++ " value '" ++ _ ++ "' is not a valid " ++ (FieldType.ofName type).name ++ "."
      = _
    rw [hn, FieldType.name_ofName]

/-! ## Members of a list -/

theorem mapM_readAs {α : Type} {p : Parameter} {t : FieldType} {read : List Char → Option α}
    {wrap : α → Default} {texts : List String} {vs : List α}
    (hr : ∀ text v, Reads type text (wrap v) → read text.toList = some v)
    (h : List.Forall₂ (Reads type) texts (vs.map wrap)) :
    texts.mapM (readAs p t read) = .ok vs := by
  rw [List.forall₂_map_right_iff] at h
  exact mapM_eq_ok (h.imp fun text v hv => readAs_eq_ok (hr text v hv))

theorem resolveMembers_eq_ok {members : Members} {texts : List String}
    (variant : members.typeName = type) (recorded : r.HasTexts ("array" ++ type) texts)
    (read : List.Forall₂ (Reads type) texts members.values) :
    resolveMembers r (.ofName type) = .ok members := by
  subst variant
  obtain ⟨p, hp, hn⟩ := membership_named.some _ members.typeName_mem
  rw [← hn, ← Record.list?_eq_some_iff] at recorded
  simp only [resolveMembers, hp, recorded]
  cases members with
  | strings ms =>
    have hs : texts = ms := by
      rw [Members.values, List.forall₂_map_right_iff] at read
      exact List.forall₂_eq_eq_eq ▸ read.imp fun _ _ h => h.2.symm
    rw [hs]
    rfl
  | integers ms => exact map_eq_ok_iff.mpr ⟨ms, mapM_readAs (fun _ _ => Reads.integer) read, rfl⟩
  | floats ms => exact map_eq_ok_iff.mpr ⟨ms, mapM_readAs (fun _ _ => Reads.float) read, rfl⟩

theorem mapM_readAs_eq_error {α : Type} {p : Parameter} {t : FieldType}
    {read : List Char → Option α} {before after : List String} {text : String}
    (readable : ∀ s ∈ before, ∃ v, read s.toList = some v)
    (unreadable : ∀ v, read text.toList ≠ some v) :
    (before ++ text :: after).mapM (readAs p t read) = .error (.unreadable p text t) := by
  refine mapM_eq_error (fun s hs => ?_) (readAs_eq_error unreadable)
  obtain ⟨v, hv⟩ := readable s hs
  exact ⟨v, readAs_eq_ok hv⟩

theorem resolveMembers_unreadable {p : Parameter} {before after : List String} {text : String}
    (supports : Kind.membership.parameter? (.ofName type) = some p)
    (recorded : r.HasTexts p.name (before ++ text :: after))
    (readable : ∀ t ∈ before, Readable type t) (unreadable : ¬Readable type text) :
    resolveMembers r (.ofName type) = .error (.unreadable p text (.ofName type)) := by
  rw [← Record.list?_eq_some_iff] at recorded
  by_cases hm : type ∈ membershipTypes
  · simp only [membershipTypes, List.mem_cons, List.not_mem_nil, or_false] at hm
    simp only [resolveMembers, supports, recorded]
    obtain rfl | rfl | rfl := hm
    · exact absurd (readable_string _) unreadable
    · simp only [readable_integer, not_exists] at readable unreadable
      exact map_eq_error (mapM_readAs_eq_error readable unreadable)
    · simp only [readable_float, not_exists] at readable unreadable
      exact map_eq_error (mapM_readAs_eq_error readable unreadable)
  · rw [membership_named.none type hm] at supports
    cases supports

theorem resolveMembers_refused {message : String}
    (h : Unusable "in" membershipTypes ("array" ++ type) type
      (r.HasTexts ("array" ++ type)) message) :
    RefusedWith (resolveMembers r (.ofName type)) message := by
  refine .of_unusable membership_named (message_membershipType type) (fun ht => ?_)
    (fun p hp hn hr => ?_) (fun p before text after hp hn hr hb ha => ?_) h
  · simp only [resolveMembers, ht]
  · rw [← hn] at hr
    simp only [resolveMembers, hp, Record.list?_eq_none hr]
  · rw [← hn] at hr
    exact resolveMembers_unreadable hp hr hb ha

/-! ## A default -/

theorem resolveDefault_eq_ok {value : Default} {text : String}
    (recorded : r.HasScalar ("value" ++ type) text) (read : Reads type text value) :
    resolveDefault r (.ofName type) = .ok value := by
  obtain ⟨p, hp, hn⟩ := default_named.some type read.mem_defaultTypes
  rw [← hn, ← Record.scalar?_eq_some_iff] at recorded
  simp only [resolveDefault, hp, recorded]
  cases value with
  | string s =>
    obtain ⟨rfl, rfl⟩ := read
    rfl
  | integer v =>
    obtain ⟨rfl, read⟩ := read
    exact map_eq_ok_iff.mpr ⟨v, readAs_eq_ok read, rfl⟩
  | float x =>
    obtain ⟨rfl, read⟩ := read
    exact map_eq_ok_iff.mpr ⟨x, readAs_eq_ok read, rfl⟩
  | boolean b =>
    obtain ⟨rfl, read⟩ := read
    exact map_eq_ok_iff.mpr ⟨b, readAs_eq_ok (readBoolean?_eq_some_iff.mpr read), rfl⟩

theorem resolveDefault_unreadable {p : Parameter} {text : String}
    (supports : FilterKind.default.parameter? (.ofName type) = some p)
    (recorded : r.HasScalar p.name text) (unreadable : ¬Readable type text) :
    resolveDefault r (.ofName type) = .error (.unreadable p text (.ofName type)) := by
  rw [← Record.scalar?_eq_some_iff] at recorded
  by_cases hd : type ∈ defaultTypes
  · simp only [defaultTypes, List.mem_cons, List.not_mem_nil, or_false] at hd
    simp only [resolveDefault, supports, recorded]
    obtain rfl | rfl | rfl | rfl := hd
    · exact absurd (readable_string _) unreadable
    · rw [readable_integer, not_exists] at unreadable
      exact map_eq_error (readAs_eq_error unreadable)
    · rw [readable_float, not_exists] at unreadable
      exact map_eq_error (readAs_eq_error unreadable)
    · rw [readable_boolean, not_exists] at unreadable
      exact map_eq_error (readAs_eq_error unreadable)
  · rw [default_named.none type hd] at supports
    cases supports

theorem resolveDefault_refused {message : String}
    (h : Unusable "default filter" defaultTypes ("value" ++ type) type
      (r.HasOne ("value" ++ type)) message) :
    RefusedWith (resolveDefault r (.ofName type)) message := by
  refine .of_unusable default_named (message_defaultType type) (fun ht => ?_)
    (fun p hp hn hr => ?_) (fun p before text after hp hn hr _ ha => ?_) h
  · simp only [resolveDefault, ht]
  · have hnone : r.scalar? p.name = none :=
      Record.scalar?_eq_none fun text ht => hr [text] (.scalar (hn ▸ ht))
    simp only [resolveDefault, hp, hnone]
  · generalize hheld : before ++ text :: after = held at hr
    obtain ⟨recorded⟩ := hr
    obtain ⟨rfl, rfl, rfl⟩ := List.append_eq_singleton_iff.mp hheld |>.resolve_right (by simp)
    exact resolveDefault_unreadable hp (hn ▸ recorded) ha

/-! ## The whole record -/

theorem resolve_of_hasScalar {kind : Kind} {t : FieldType} (h : r.HasScalar "type" kind.name) :
    resolve r t = resolveKind r t kind :=
  resolve_of_kind (Record.scalar?_eq_some_iff.mpr h)

theorem resolveFilter_of_name {f : Filter} {t : FieldType} (h : r.HasScalar "filter" f.kind.name)
    (hd : ∀ value, f = .default value → resolveDefault r t = .ok value) :
    resolveFilter r t = .ok f := by
  have hf : r.scalar? Parameter.filter.name = some f.kind.name := Record.scalar?_eq_some_iff.mpr h
  simp only [resolveFilter, hf, FilterKind.ofName?_name]
  cases f with
  | default value =>
    simp only [Filter.kind, hd value rfl]
    rfl
  | lowercase | uppercase | lowerFirst | upperFirst | trim => rfl

theorem Documented.resolve {rule : Rule} (h : Documented r type rule) :
    resolve r (.ofName type) = .ok rule := by
  cases h with
  | @check check kind plain =>
    rw [resolve_of_hasScalar kind]
    simp only [List.mem_cons, List.not_mem_nil, or_false] at plain
    obtain rfl | rfl | rfl | rfl | rfl | rfl := plain <;> rfl
  | @regex expression kind recorded =>
    have he : r.scalar? Parameter.expression.name = some expression :=
      Record.scalar?_eq_some_iff.mpr recorded
    rw [@resolve_of_hasScalar _ .regex _ kind, resolveKind, he]
  | membership kind variant recorded read =>
    rw [@resolve_of_hasScalar _ .membership _ kind, resolveKind,
      resolveMembers_eq_ok variant recorded read]
    rfl
  | filter kind name plain =>
    rw [@resolve_of_hasScalar _ .filter _ kind, resolveKind, resolveFilter_of_name name]
    · rfl
    · rintro value rfl
      simp at plain
  | @default value _ kind name recorded read =>
    rw [@resolve_of_hasScalar _ .filter _ kind, resolveKind,
      @resolveFilter_of_name _ (.default value) _ name]
    · rfl
    · rintro value ⟨⟩
      exact resolveDefault_eq_ok recorded read

theorem Refuses.resolve {message : String} (h : Refuses r type message) :
    RefusedWith (resolve r (.ofName type)) message := by
  cases h with
  | noKind missing =>
    have hk : r.scalar? Parameter.kind.name = none := Record.scalar?_eq_none missing
    exact ⟨.missingKind, by simp only [Rule.resolve, hk], rfl⟩
  | @unknownKind name kind unknown =>
    have hk : r.scalar? Parameter.kind.name = some name := Record.scalar?_eq_some_iff.mpr kind
    refine ⟨.unknownKind name, ?_, String.append_assoc⟩
    simp only [Rule.resolve, hk, Kind.ofName?_eq_none unknown]
  | noExpression kind missing =>
    have he : r.scalar? Parameter.expression.name = none := Record.scalar?_eq_none missing
    refine ⟨.missingExpression, ?_, rfl⟩
    rw [@resolve_of_hasScalar _ .regex _ kind, resolveKind, he]
  | members kind unusable =>
    rw [@resolve_of_hasScalar _ .membership _ kind]
    exact (resolveMembers_refused unusable).map
  | noFilter kind missing =>
    have hf : r.scalar? Parameter.filter.name = none := Record.scalar?_eq_none missing
    refine ⟨.missingFilter, ?_, rfl⟩
    rw [@resolve_of_hasScalar _ .filter _ kind]
    exact map_eq_error (by simp only [resolveFilter, hf])
  | @unknownFilter name kind filter unknown =>
    have hf : r.scalar? Parameter.filter.name = some name := Record.scalar?_eq_some_iff.mpr filter
    refine ⟨.unknownFilter name, ?_, String.append_assoc⟩
    rw [@resolve_of_hasScalar _ .filter _ kind]
    exact map_eq_error (by simp only [resolveFilter, hf, FilterKind.ofName?_eq_none unknown])
  | default kind filter unusable =>
    rw [@resolve_of_hasScalar _ .filter _ kind, resolveKind,
      resolveFilter_default (Record.scalar?_eq_some_iff.mpr filter)]
    exact (resolveDefault_refused unusable).map.map

/-! ## The main result -/

/-- Complete records resolve, to the rule that they stand for, and all others are
refused with what is wrong first. -/
structure ResolvesAsDocumented (r : Record) (type : String) : Prop where
  succeeds : (∃ rule, resolve r (.ofName type) = .ok rule) ↔ Complete r type
  documented : ∀ rule, resolve r (.ofName type) = .ok rule ↔ Documented r type rule
  named : ∀ rule, resolve r (.ofName type) = .ok rule →
    r.HasScalar "type" rule.kind.name ∧ ∀ f, rule = .filter f → r.HasScalar "filter" f.kind.name
  refused : ∀ e, (resolve r (.ofName type)).mapError Error.ofFault = .error e ↔
    ∃ message, Refuses r type message ∧ e = .invalidDirective message

theorem resolve_eq_ok_iff {rule : Rule} :
    resolve r (.ofName type) = .ok rule ↔ Documented r type rule := by
  refine ⟨fun h => ?_, Documented.resolve⟩
  obtain complete | ⟨message, refuses⟩ := complete_or_refuses r type
  · obtain ⟨rule', documented⟩ := complete.documented
    rw [documented.resolve] at h
    cases h
    exact documented
  · obtain ⟨f, hf, -⟩ := refuses.resolve
    rw [hf] at h
    cases h

theorem resolve_refused_iff {message : String} :
    RefusedWith (resolve r (.ofName type)) message ↔ Refuses r type message := by
  refine ⟨fun ⟨f, hf, hm⟩ => ?_, Refuses.resolve⟩
  obtain complete | ⟨message', refuses⟩ := complete_or_refuses r type
  · obtain ⟨rule, documented⟩ := complete.documented
    rw [documented.resolve] at hf
    cases hf
  · obtain ⟨f', hf', rfl⟩ := refuses.resolve
    rw [hf'] at hf
    cases hf
    exact hm ▸ refuses

theorem mapError_eq_error_iff {x : Except Fault Rule} {e : Error} :
    x.mapError Error.ofFault = .error e ↔
      ∃ message, RefusedWith x message ∧ e = .invalidDirective message := by
  cases x with
  | ok rule => simp [Except.mapError, RefusedWith]
  | error f => simp [Except.mapError, RefusedWith, Error.ofFault, eq_comm]

/-- A record resolves if and only if it is complete, and is refused for the first
thing that is wrong otherwise. -/
theorem resolve_documented (r : Record) (type : String) : ResolvesAsDocumented r type where
  succeeds := by
    simp only [resolve_eq_ok_iff]
    exact ⟨fun ⟨_, documented⟩ => documented.complete, Complete.documented⟩
  documented _ := resolve_eq_ok_iff
  named _ h := (resolve_eq_ok_iff.mp h).named
  refused _ := by simp only [mapError_eq_error_iff, resolve_refused_iff]

end InputGuard.Rule
