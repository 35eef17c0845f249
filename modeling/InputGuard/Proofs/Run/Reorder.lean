import InputGuard.Proofs.Resolver.Target
import InputGuard.Proofs.Run.ClosedForm
import InputGuard.Proofs.Schema.Place

/-! # The order of types does not matter

Types of different names have different ids, so what a resource receives comes from
the types of one name. A run on the same types in another order, in which types of
one name keep theirs, leaves the same store (`document_reordered`): each resource
still receives the same snippets in the same order. -/

namespace InputGuard.Run

open Schema (Document Occurrence TypeDefinition)
open Resolver (Store Report Edit Operation)

variable {c : Config} {d d' : Document}

/-- The same types in another order, in which types of one name keep theirs. -/
structure Reordered (d d' : Document) : Prop where
  types : d.types.Perm d'.types
  sameName : ∀ name, d.types.filter (·.name = name) = d'.types.filter (·.name = name)

/-- Neighbouring types of different names can change places. -/
theorem Reordered.swap {a b : TypeDefinition} (h : a.name ≠ b.name)
    (before after : List TypeDefinition) :
    Reordered ⟨before ++ a :: b :: after⟩ ⟨before ++ b :: a :: after⟩ := by
  constructor
  case types => exact (List.Perm.swap b a after).append_left before
  case sameName =>
    intro name
    rw [List.filter_append, List.filter_append]
    by_cases ha : a.name = name
    · have hb : b.name ≠ name := fun hb => h (ha.trans hb.symm)
      simp [ha, hb]
    · simp [List.filter_cons, ha]

/-- The edits of all occurrences on a type. -/
def typeEdits (c : Config) (t : TypeDefinition) : List Edit := t.occurrences.flatMap (editsOf c)

theorem flatMap_editsOf (c : Config) (d : Document) :
    d.occurrences.flatMap (editsOf c) = d.types.flatMap (typeEdits c) := by
  rw [Document.occurrences_eq, List.flatMap_assoc]
  rfl

theorem parent_of_mem_occurrences {t : TypeDefinition} {o : Occurrence} (h : o ∈ t.occurrences) :
    o.parent = t := by
  obtain ⟨field, -, ho⟩ := List.mem_flatMap.mp h
  obtain ⟨directive, -, rfl⟩ := List.mem_map.mp ho
  rfl

theorem id_of_mem_editsOf {o : Occurrence} {e : Edit} (h : e ∈ editsOf c o) :
    ∃ op : Operation, e.id = op.id c o.parent.name := by
  unfold editsOf at h
  split at h
  · split at h
    · cases h
    · simp only [editsFor, List.mem_cons, List.not_mem_nil, or_false] at h
      rcases h with rfl | rfl
      · exact ⟨.create, rfl⟩
      · exact ⟨.update, rfl⟩
  · cases h

theorem id_of_mem_typeEdits {t : TypeDefinition} {e : Edit} (h : e ∈ typeEdits c t) :
    ∃ op : Operation, e.id = op.id c t.name := by
  obtain ⟨o, ho, he⟩ := List.mem_flatMap.mp h
  obtain ⟨op, hop⟩ := id_of_mem_editsOf he
  exact ⟨op, parent_of_mem_occurrences ho ▸ hop⟩

/-- Parts that all come from the items of one key. -/
theorem flatMap_filter_of_forall {α β : Type _} {p : α → Bool} {f : α → List β} {l : List α}
    (h : ∀ a ∈ l, p a = false → f a = []) : l.flatMap f = (l.filter p).flatMap f := by
  induction l with
  | nil => rfl
  | cons a l ih =>
    obtain ⟨ha, hl⟩ := List.forall_mem_cons.mp h
    cases hp : p a with
    | true => rw [List.filter_cons_of_pos hp, List.flatMap_cons, List.flatMap_cons, ih hl]
    | false =>
      rw [List.filter_cons_of_neg (by simp [hp]), List.flatMap_cons, ha hp, List.nil_append, ih hl]

/-- The edits for an id come from types of one name. -/
theorem exists_owner (hc : Operation.Separated c) (id : String) :
    ∃ name, ∀ t, t.name ≠ name → (typeEdits c t).filter (·.id = id) = [] := by
  by_cases hid : ∃ (op : Operation) (name : String), op.id c name = id
  · obtain ⟨op, name, rfl⟩ := hid
    refine ⟨name, fun t ht => List.filter_eq_nil_iff.mpr fun e he heq => ?_⟩
    obtain ⟨op', hop'⟩ := id_of_mem_typeEdits he
    exact ht (hc op' op t.name name (hop'.symm.trans (of_decide_eq_true heq)))
  · refine ⟨"", fun t _ => List.filter_eq_nil_iff.mpr fun e he heq => ?_⟩
    obtain ⟨op, hop⟩ := id_of_mem_typeEdits he
    exact hid ⟨op, t.name, hop.symm.trans (of_decide_eq_true heq)⟩

theorem filter_edits_reordered (hc : Operation.Separated c) (h : Reordered d d') (id : String) :
    (d.occurrences.flatMap (editsOf c)).filter (·.id = id) =
      (d'.occurrences.flatMap (editsOf c)).filter (·.id = id) := by
  obtain ⟨name, hname⟩ := exists_owner hc id
  have honly : ∀ ts : List TypeDefinition, ∀ t ∈ ts, decide (t.name = name) = false →
      (typeEdits c t).filter (·.id = id) = [] :=
    fun _ t _ ht => hname t (of_decide_eq_false ht)
  rw [flatMap_editsOf, flatMap_editsOf, List.filter_flatMap, List.filter_flatMap,
    flatMap_filter_of_forall (honly d.types), flatMap_filter_of_forall (honly d'.types),
    h.sameName]

theorem applyAll_reordered (hc : Operation.Separated c) (h : Reordered d d') (store : Store) :
    Edit.applyAll store (d.occurrences.flatMap (editsOf c)) =
      Edit.applyAll store (d'.occurrences.flatMap (editsOf c)) := by
  apply OrderedMap.ext
  rw [Edit.entries_applyAll, Edit.entries_applyAll]
  refine List.map_congr_left fun (id, r) _ => ?_
  simp only [Edit.stack, filter_edits_reordered hc h id]

theorem Reordered.occurrences (h : Reordered d d') : d.occurrences.Perm d'.occurrences := by
  rw [Document.occurrences_eq, Document.occurrences_eq]
  exact h.types.flatMap_right _

/-- Both runs succeed or both fail; if they succeed, the stores are the same and the
reports are so but for their order. -/
structure SameOutcome (c : Config) (d d' : Document) (store : Store) : Prop where
  succeeds : (∃ report, (document c d store).result = .ok report) ↔
    ∃ report, (document c d' store).result = .ok report
  stores : ∀ report report', (document c d store).result = .ok report →
    (document c d' store).result = .ok report' →
    (document c d store).store = (document c d' store).store
  reports : ∀ report report', (document c d store).result = .ok report →
    (document c d' store).result = .ok report' →
    report.augmented.Perm report'.augmented ∧ report.skipped.Perm report'.skipped

theorem succeeds_iff {store : Store} :
    (∃ report, (document c d store).result = .ok report) ↔
      ∀ o ∈ d.occurrences, faultOf c o = none :=
  ⟨fun ⟨_, h⟩ => faultless_of_ok h, fun h => ⟨_, (occurrences_of_faultless h store).2⟩⟩

theorem document_reordered (h : Reordered d d') (store : Store) : SameOutcome {} d d' store := by
  constructor
  case succeeds =>
    rw [succeeds_iff, succeeds_iff]
    exact forall_congr' fun o => imp_congr_left h.occurrences.mem_iff
  case stores =>
    intro report report' hd hd'
    have hstore := (occurrences_of_faultless (faultless_of_ok hd) store).1
    have hstore' := (occurrences_of_faultless (faultless_of_ok hd') store).1
    have hsame := applyAll_reordered Operation.separated_default h store
    exact hstore.trans (hsame.trans hstore'.symm)
  case reports =>
    intro report report' hd hd'
    have hreport := hd.symm.trans (occurrences_of_faultless (faultless_of_ok hd) store).2
    have hreport' := hd'.symm.trans (occurrences_of_faultless (faultless_of_ok hd') store).2
    have hids := (h.occurrences.flatMap_right (editsOf {})).map Edit.id
    rw [Except.ok.inj hreport, Except.ok.inj hreport']
    exact ⟨hids.filter _, hids.filter _⟩

def checkedType (name field kind : String) : TypeDefinition :=
  ⟨name, .object, [⟨"model", []⟩],
    [⟨field, .named "String", [⟨"validator", [⟨"type", .enum kind⟩]⟩]⟩]⟩

/-- Two definitions of one type, and another type between them. -/
def commentBetweenPosts : Document :=
  ⟨[checkedType "Post" "title" "required", checkedType "Comment" "body" "string",
    checkedType "Post" "link" "url"]⟩

def commentBeforePosts : Document :=
  ⟨[checkedType "Comment" "body" "string", checkedType "Post" "title" "required",
    checkedType "Post" "link" "url"]⟩

def postAndComment : Store :=
  .ofList [("UpdatePostResolver", ⟨"Mutation", "updatePost", "{}", ""⟩),
    ("CreateCommentResolver", ⟨"Mutation", "createComment", "{}", ""⟩)]

theorem document_reordered_comment :
    Reordered commentBetweenPosts commentBeforePosts ∧
      (∃ report, (document {} commentBetweenPosts postAndComment).result = .ok report) ∧
      SameOutcome {} commentBetweenPosts commentBeforePosts postAndComment := by
  have hreordered : Reordered commentBetweenPosts commentBeforePosts :=
    .swap (by decide) [] [checkedType "Post" "link" "url"]
  have hall : ∀ o ∈ commentBetweenPosts.occurrences, faultOf {} o = none :=
    List.forall_mem_cons.mpr ⟨rfl, List.forall_mem_cons.mpr ⟨rfl,
      List.forall_mem_cons.mpr ⟨rfl, nofun⟩⟩⟩
  exact ⟨hreordered, succeeds_iff.mpr hall, document_reordered hreordered postAndComment⟩

end InputGuard.Run
