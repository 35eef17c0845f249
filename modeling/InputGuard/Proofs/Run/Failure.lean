import InputGuard.Proofs.Run.Effect
import InputGuard.Proofs.Schema.Place

/-! # A whole run that fails

A run fails at the first directive in source order that is refused, whatever is
in the store, and leaves the store as a run on the document cut just before that
directive does (`document_fails_at_first_refusal`). -/

namespace InputGuard.Run

open Schema (Occurrence Document Place)
open Resolver (Store Report)
open Rule (Fault)

variable {c : Config}

/-- Why a directive is refused: the marker is missing, or nothing can be generated.
Directives of other names never are. -/
inductive Refused (c : Config) (o : Occurrence) : Fault → Prop where
  | unmarked (ours : o.directive.name = "validator")
      (unmarked : o.parent.hasDirective c.modelDirective = false) :
      Refused c o (.unmarkedParent c.modelDirective)
  | generation {f : Fault} (ours : o.directive.name = "validator")
      (marked : o.parent.hasDirective c.modelDirective = true)
      (failed : Snippet.generate c o.field.name o.field.fieldType
        (.extract o.directive.arguments) = .error f) : Refused c o f

theorem faultOf_eq_some_iff {o : Occurrence} {f : Fault} :
    faultOf c o = some f ↔ Refused c o f := by
  constructor
  · intro h
    unfold faultOf at h
    split at h
    · next ho =>
      have ours : o.directive.name = "validator" := of_decide_eq_true ho
      split at h
      · next hm =>
        cases hs : snippetOf c o with
        | error f' =>
          rw [hs] at h
          cases h
          exact .generation ours hm hs
        | ok s =>
          rw [hs] at h
          cases h
      · next hm =>
        cases h
        exact .unmarked ours (Bool.eq_false_iff.mpr hm)
    · cases h
  · intro h
    cases h with
    | unmarked ours unmarked =>
      have ho : isOurs o = true := decide_eq_true ours
      have hm : isMarked c o = false := unmarked
      simp [faultOf, ho, hm]
    | generation ours marked failed =>
      have ho : isOurs o = true := decide_eq_true ours
      have hm : isMarked c o = true := marked
      have hs : snippetOf c o = .error f := failed
      simp [faultOf, ho, hm, hs]

theorem faultOf_eq_none_iff {o : Occurrence} : faultOf c o = none ↔ ∀ f, ¬Refused c o f := by
  simp only [Option.eq_none_iff_forall_ne_some, ne_eq, faultOf_eq_some_iff]

/-! ## What a run reads of an occurrence -/

theorem occurrences_alone (os : List Occurrence) (store : Store) :
    occurrences c (os.map Occurrence.alone) store = occurrences c os store := by
  induction os generalizing store with
  | nil => rfl
  | cons o os ih =>
    have ho : occurrence c o.alone store = occurrence c o store := rfl
    simp only [List.map_cons, occurrences, ho, ih]
    rfl

theorem document_cut {d : Document} (p : Place d) (store : Store) :
    document c p.cut store = occurrences c p.earlier store := by
  rw [document, ← occurrences_alone, p.alone_occurrences_cut, occurrences_alone]

/-! ## The first refusal -/

/-- The directive at the place is refused and none before it is. -/
structure FirstRefusal (c : Config) {d : Document} (p : Place d) (f : Fault) : Prop where
  refused : Refused c p.occurrence f
  earlier : ∀ o ∈ p.earlier, ∀ f', ¬Refused c o f'

theorem FirstRefusal.faultless {d : Document} {p : Place d} {f : Fault}
    (h : FirstRefusal c p f) : ∀ o ∈ p.earlier, faultOf c o = none :=
  fun o ho => faultOf_eq_none_iff.mpr (h.earlier o ho)

theorem FirstRefusal.document {d : Document} {p : Place d} {f : Fault}
    (h : FirstRefusal c p f) (store : Store) :
    (document c d store).store = (Run.document c p.cut store).store ∧
      (Run.document c d store).result = .error f := by
  rw [document_cut, Run.document, p.occurrences_eq]
  exact occurrences_of_fault h.faultless (faultOf_eq_some_iff.mpr h.refused) store

theorem FirstRefusal.cut {d : Document} {p : Place d} {f : Fault}
    (h : FirstRefusal c p f) (store : Store) :
    ∃ report, (Run.document c p.cut store).result = .ok report := by
  rw [document_cut]
  exact ⟨_, (occurrences_of_faultless h.faultless store).2⟩

/-- A document has no refused directive, or a first one. -/
theorem unrefused_or_firstRefusal (c : Config) (d : Document) :
    (∀ o ∈ d.occurrences, ∀ f, ¬Refused c o f) ∨
      ∃ (p : Place d) (f : Fault), FirstRefusal c p f := by
  rcases faultless_or_first_fault c d.occurrences with hall | ⟨before, o, after, f, h, hbefore, hf⟩
  · exact .inl fun o ho => faultOf_eq_none_iff.mp (hall o ho)
  · obtain ⟨p, rfl, rfl⟩ := Schema.exists_place h
    exact .inr ⟨p, f, faultOf_eq_some_iff.mp hf,
      fun o ho => faultOf_eq_none_iff.mp (hbefore o ho)⟩

theorem result_of_unrefused {d : Document}
    (h : ∀ o ∈ d.occurrences, ∀ f, ¬Refused c o f) (store : Store) :
    ∃ report, (document c d store).result = .ok report :=
  ⟨_, (occurrences_of_faultless (fun o ho => faultOf_eq_none_iff.mpr (h o ho)) store).2⟩

theorem result_eq_error_iff {d : Document} {store : Store} {f : Fault} :
    (document c d store).result = .error f ↔ ∃ p : Place d, FirstRefusal c p f := by
  constructor
  · intro h
    rcases unrefused_or_firstRefusal c d with hall | ⟨p, f', hp⟩
    · obtain ⟨report, hreport⟩ := result_of_unrefused hall store
      rw [hreport] at h
      cases h
    · rw [(hp.document store).2] at h
      cases h
      exact ⟨p, hp⟩
  · rintro ⟨p, hp⟩
    exact (hp.document store).2

/-- How runs on a document fail. -/
structure FailsAtFirstRefusal (c : Config) (d : Document) : Prop where
  /-- a run fails if and only if some directive is refused -/
  fails : ∀ store, (∃ f, (document c d store).result = .error f) ↔
    ∃ o ∈ d.occurrences, ∃ f, Refused c o f
  /-- its fault is that of the first refused directive -/
  first : ∀ store f, (document c d store).result = .error f ↔
    ∃ p : Place d, FirstRefusal c p f
  /-- a missing marker has its message, whatever the field and the arguments -/
  guard : ∀ o ∈ d.occurrences, ∀ f, Refused c o f →
    o.parent.hasDirective c.modelDirective = false →
    Error.ofFault f = .invalidDirective
      ("validator directive requires " ++ c.modelDirective ++ " directive on parent type")
  /-- any other fault is that of the generation -/
  generation : ∀ o ∈ d.occurrences, ∀ f, Refused c o f →
    o.parent.hasDirective c.modelDirective = true →
    Snippet.generate c o.field.name o.field.fieldType (.extract o.directive.arguments) = .error f ∧
      ∃ message, Error.ofFault f = .invalidDirective message
  /-- the store decides neither success nor the fault -/
  storeless : ∀ store store', (document c d store).result.isOk = (document c d store').result.isOk ∧
    ∀ f, (document c d store).result = .error f ↔ (document c d store').result = .error f
  /-- after a fault the store is the one of the run on what stands before it -/
  stopped : ∀ store (p : Place d) f, FirstRefusal c p f →
    (document c d store).store = (document c p.cut store).store ∧
      ∃ report, (document c p.cut store).result = .ok report

theorem document_fails_at_first_refusal (c : Config) (d : Document) :
    FailsAtFirstRefusal c d := by
  constructor
  case fails =>
    intro store
    constructor
    · rintro ⟨f, h⟩
      obtain ⟨p, hp⟩ := result_eq_error_iff.mp h
      refine ⟨p.occurrence, ?_, f, hp.refused⟩
      rw [p.occurrences_eq]
      exact List.mem_append_right _ List.mem_cons_self
    · rintro ⟨o, ho, f, hf⟩
      rcases unrefused_or_firstRefusal c d with hall | ⟨p, f', hp⟩
      · exact absurd hf (hall o ho f)
      · exact ⟨f', (hp.document store).2⟩
  case first =>
    intro store f
    exact result_eq_error_iff
  case guard =>
    intro o _ f hf hm
    cases hf with
    | unmarked => rfl
    | generation _ marked _ => rw [marked] at hm; cases hm
  case generation =>
    intro o _ f hf hm
    cases hf with
    | unmarked _ unmarked => rw [unmarked] at hm; cases hm
    | generation _ _ failed => exact ⟨failed, f.message, rfl⟩
  case storeless =>
    intro store store'
    rcases unrefused_or_firstRefusal c d with hall | ⟨p, f, hp⟩
    · obtain ⟨report, h⟩ := result_of_unrefused hall store
      obtain ⟨report', h'⟩ := result_of_unrefused hall store'
      simp [h, h', Except.isOk, Except.toBool]
    · simp [(hp.document store).2, (hp.document store').2]
  case stopped =>
    intro store p f hp
    exact ⟨(hp.document store).1, hp.cut store⟩

end InputGuard.Run
