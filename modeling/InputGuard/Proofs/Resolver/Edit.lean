import InputGuard.Resolver.Augment

/-! # Prepending in closed form

An edit is a snippet for one id. A row of edits changes a store in one way only:
the ids and their order stay, and so does every resource but for its request
template, which receives the snippets of the edits for its id, the latest first
(`entries_applyAll`). -/

namespace InputGuard

/-- Changing the value under a key, if it is there, changes the entry of the key
and keeps every place. -/
theorem Entries.modify_eq_map {α : Type _} (key : String) (f : α → α) {es : List (String × α)}
    (h : (keys es).Nodup) :
    (match get? key es with
      | some v => put key (f v) es
      | none => es) = es.map fun e => (e.1, if e.1 = key then f e.2 else e.2) := by
  induction es with
  | nil => rfl
  | cons e r ih =>
    obtain ⟨k, v⟩ := e
    obtain ⟨hk, hr⟩ := List.nodup_cons.mp h
    by_cases hkey : k = key
    · subst hkey
      -- the key stands nowhere else
      have hrest : r.map (fun e => (e.1, if e.1 = k then f e.2 else e.2)) = r := by
        refine (List.map_congr_left fun e he => ?_).trans (List.map_id r)
        have hne : e.1 ≠ k := fun hek => hk (List.mem_map.mpr ⟨e, he, hek⟩)
        simp [hne]
      simp [get?, put, hrest]
    · have ih := ih hr
      simp only [get?, hkey, if_false, List.map_cons]
      cases hg : get? key r with
      | none =>
        rw [hg] at ih
        simp only at ih ⊢
        rw [← ih]
      | some w =>
        rw [hg] at ih
        simp only at ih ⊢
        rw [put, if_neg hkey, ih]

/-- The value under a key after every value was changed in its place. -/
theorem Entries.get?_map {α : Type _} (f : String → α → α) (key : String)
    (es : List (String × α)) :
    get? key (es.map fun (k, v) => (k, f k v)) = (get? key es).map (f key) := by
  induction es with
  | nil => rfl
  | cons e r ih =>
    obtain ⟨k, v⟩ := e
    by_cases h : k = key
    · simp [get?, h]
    · simp [get?, h, ih]

namespace Resolver

/-- A snippet for the template under an id. -/
structure Edit where
  id : String
  snippet : String

namespace Edit

def apply (store : Store) (e : Edit) : Store := augmentOne store e.snippet e.id

/-- The store after a row of edits, from left to right. -/
def applyAll (store : Store) (es : List Edit) : Store := es.foldl apply store

/-- What the edits for an id put in front of its template: each snippet with an
empty line after it, the latest edit first. -/
def stack (es : List Edit) (id : String) : String :=
  String.join ((es.filter (·.id = id)).reverse.map fun e => e.snippet ++ "\n\n")

/-- The snippets for an id, the latest first. -/
def received (es : List Edit) (id : String) : List String :=
  ((es.filter (·.id = id)).map snippet).reverse

theorem stack_eq_join (es : List Edit) (id : String) :
    stack es id = String.join ((received es id).map (· ++ "\n\n")) := by
  simp [stack, received, Function.comp_def]

theorem mem_of_mem_received {es : List Edit} {id s : String} (h : s ∈ received es id) :
    ∃ e ∈ es, e.snippet = s := by
  obtain ⟨e, he, rfl⟩ := List.mem_map.mp (List.mem_reverse.mp h)
  exact ⟨e, (List.mem_filter.mp he).1, rfl⟩

/-- The ids of the edits, split into those that are in the store and the others. -/
def report (store : Store) (es : List Edit) : Report :=
  ⟨(es.map id).filter (store.contains ·), (es.map id).filter (!store.contains ·)⟩

theorem entries_apply (store : Store) (e : Edit) :
    (apply store e).entries = store.entries.map fun (k, r) =>
      (k, if k = e.id then r.prepend e.snippet else r) := by
  have h := Entries.modify_eq_map e.id (·.prepend e.snippet) store.distinct
  rw [← h]
  unfold apply augmentOne
  split
  · next r hr =>
    have hr' : Entries.get? e.id store.entries = some r := hr
    rw [hr']
    rfl
  · next hn =>
    have hn' : Entries.get? e.id store.entries = none := hn
    rw [hn']

theorem keys_apply (store : Store) (e : Edit) : (apply store e).keys = store.keys := by
  simp only [OrderedMap.keys, Entries.keys, entries_apply, List.map_map]
  rfl

theorem stack_cons (e : Edit) (es : List Edit) (id : String) :
    stack (e :: es) id = stack es id ++ if e.id = id then e.snippet ++ "\n\n" else "" := by
  unfold stack
  by_cases h : e.id = id
  · simp [h, String.join_append]
  · simp [h]

/-- One snippet for different ids is received once by each of them. -/
theorem stack_map_snippet {ids : List String} (h : ids.Nodup) (snippet id : String) :
    stack (ids.map (⟨·, snippet⟩)) id = if id ∈ ids then snippet ++ "\n\n" else "" := by
  induction ids with
  | nil => rfl
  | cons a ids ih =>
    obtain ⟨ha, hids⟩ := List.nodup_cons.mp h
    rw [List.map_cons, stack_cons, ih hids]
    by_cases hid : a = id
    · subst hid
      simp [ha]
    · have hne : id ≠ a := Ne.symm hid
      simp [hid, hne]

theorem entries_applyAll (store : Store) (es : List Edit) :
    (applyAll store es).entries = store.entries.map fun (k, r) =>
      (k, { r with request := stack es k ++ r.request }) := by
  induction es generalizing store with
  | nil => simp [applyAll, stack]
  | cons e es ih =>
    have hrest := ih (apply store e)
    rw [entries_apply, List.map_map] at hrest
    refine hrest.trans (List.map_congr_left fun (k, r) _ => ?_)
    by_cases h : k = e.id
    · simp [stack_cons, h, Resource.prepend, Resolver.prepend, String.append_assoc]
    · have h' : e.id ≠ k := Ne.symm h
      simp [stack_cons, h, h']

theorem get?_applyAll (store : Store) (es : List Edit) (id : String) :
    (applyAll store es).get? id =
      (store.get? id).map fun r => { r with request := stack es id ++ r.request } := by
  rw [OrderedMap.get?, entries_applyAll]
  exact Entries.get?_map (fun k (r : Resource) => { r with request := stack es k ++ r.request })
    id _

theorem keys_applyAll (store : Store) (es : List Edit) :
    (applyAll store es).keys = store.keys := by
  simp only [OrderedMap.keys, Entries.keys, entries_applyAll, List.map_map]
  rfl

theorem applyAll_append (store : Store) (es es' : List Edit) :
    applyAll store (es ++ es') = applyAll (applyAll store es) es' :=
  List.foldl_append

/-- Whether an id is present depends on the ids of a store only. -/
theorem contains_congr {s t : Store} (h : s.keys = t.keys) (id : String) :
    s.contains id = t.contains id := by
  rw [Bool.eq_iff_iff, OrderedMap.contains_iff, OrderedMap.contains_iff, h]

theorem report_congr {s t : Store} (h : s.keys = t.keys) (es : List Edit) :
    report s es = report t es := by
  simp only [report, contains_congr h]

theorem report_append (store : Store) (es es' : List Edit) :
    report store (es ++ es') = (report store es).merge (report store es') := by
  simp [report, Report.merge]

/-- Prepending a snippet under several ids is a row of edits. -/
theorem augmentAll_eq (typeName snippet : String) (ids : List String) (store : Store) :
    (augmentAll typeName snippet ids store).1 = applyAll store (ids.map (⟨·, snippet⟩)) ∧
      (augmentAll typeName snippet ids store).2.1 = report store (ids.map (⟨·, snippet⟩)) := by
  induction ids generalizing store with
  | nil => exact ⟨rfl, rfl⟩
  | cons id ids ih =>
    obtain ⟨hstore, hreport⟩ := ih (augmentOne store snippet id)
    refine ⟨hstore, ?_⟩
    have hone : reportOne store id = report store [⟨id, snippet⟩] := by
      unfold reportOne report
      cases hc : store.contains id <;> simp [hc]
    have hkeys : (augmentOne store snippet id).keys = store.keys := keys_apply store ⟨id, snippet⟩
    calc (augmentAll typeName snippet (id :: ids) store).2.1
        = (reportOne store id).merge
            (augmentAll typeName snippet ids (augmentOne store snippet id)).2.1 := rfl
      _ = (report store [⟨id, snippet⟩]).merge (report store (ids.map (⟨·, snippet⟩))) := by
          rw [hone, hreport, report_congr hkeys]
      _ = report store ((id :: ids).map (⟨·, snippet⟩)) :=
          (report_append store [⟨id, snippet⟩] _).symm

end Edit
end Resolver
end InputGuard
