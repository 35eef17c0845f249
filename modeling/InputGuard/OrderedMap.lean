/-! Maps from text that remember the order in which their keys first appeared.
Putting a value under a key that is present keeps the key's place. Keys never
repeat, which the type carries as a proof. -/

namespace InputGuard

namespace Entries

variable {α : Type _}

def keys (es : List (String × α)) : List String := es.map Prod.fst

def put (key : String) (value : α) : List (String × α) → List (String × α)
  | [] => [(key, value)]
  | (k, v) :: r => if k = key then (key, value) :: r else (k, v) :: put key value r

def get? (key : String) : List (String × α) → Option α
  | [] => none
  | (k, v) :: r => if k = key then some v else get? key r

theorem keys_put (key : String) (value : α) (es : List (String × α)) :
    keys (put key value es) = if key ∈ keys es then keys es else keys es ++ [key] := by
  induction es with
  | nil => simp [put, keys]
  | cons e r ih =>
    obtain ⟨k, v⟩ := e
    by_cases h : k = key
    · simp [put, keys, h]
    · have h' : key ≠ k := fun e => h e.symm
      simp only [keys] at ih
      by_cases hm : key ∈ r.map Prod.fst <;> simp [put, keys, h, h', ih, hm]

theorem nodup_keys_put (key : String) (value : α) {es : List (String × α)}
    (h : (keys es).Nodup) : (keys (put key value es)).Nodup := by
  rw [keys_put]
  split
  · exact h
  · next hk =>
    rw [List.nodup_append]
    refine ⟨h, by simp, ?_⟩
    intro a ha b hb e
    rw [List.mem_singleton] at hb
    exact hk (hb ▸ e ▸ ha)

theorem get?_put (key : String) (value : α) (es : List (String × α)) (k : String) :
    get? k (put key value es) = if key = k then some value else get? k es := by
  induction es with
  | nil => rfl
  | cons e r ih =>
    obtain ⟨k', v⟩ := e
    by_cases h : k' = key
    · by_cases hk : key = k <;> simp [put, get?, h, hk]
    · by_cases hk : k' = k
      · subst hk
        simp [put, get?, h, Ne.symm h]
      · simp [put, get?, h, hk, ih]

theorem get?_eq_none_iff (key : String) (es : List (String × α)) :
    get? key es = none ↔ key ∉ keys es := by
  induction es with
  | nil => simp [get?, keys]
  | cons e r ih =>
    obtain ⟨k, v⟩ := e
    simp only [keys] at ih
    by_cases h : k = key
    · simp [get?, keys, h]
    · have h' : key ≠ k := fun e => h e.symm
      simp only [get?, keys, h, if_false, ih, List.map_cons, List.mem_cons, h', false_or]

end Entries

structure OrderedMap (α : Type _) where
  entries : List (String × α)
  distinct : (Entries.keys entries).Nodup

namespace OrderedMap

variable {α : Type _}

def empty : OrderedMap α := ⟨[], List.nodup_nil⟩

def put (m : OrderedMap α) (key : String) (value : α) : OrderedMap α :=
  ⟨Entries.put key value m.entries, Entries.nodup_keys_put key value m.distinct⟩

def get? (m : OrderedMap α) (key : String) : Option α := Entries.get? key m.entries

def keys (m : OrderedMap α) : List String := Entries.keys m.entries

def size (m : OrderedMap α) : Nat := m.entries.length

def contains (m : OrderedMap α) (key : String) : Bool := (m.get? key).isSome

/-- The map that a sequence of assignments leaves behind. -/
def ofList (pairs : List (String × α)) : OrderedMap α :=
  pairs.foldl (fun m p => m.put p.1 p.2) empty

@[ext] theorem ext {m n : OrderedMap α} (h : m.entries = n.entries) : m = n := by
  obtain ⟨e, d⟩ := m
  obtain ⟨f, d'⟩ := n
  cases h
  rfl

theorem get?_put (m : OrderedMap α) (key : String) (value : α) (k : String) :
    (m.put key value).get? k = if key = k then some value else m.get? k :=
  Entries.get?_put key value m.entries k

theorem keys_put (m : OrderedMap α) (key : String) (value : α) :
    (m.put key value).keys = if key ∈ m.keys then m.keys else m.keys ++ [key] :=
  Entries.keys_put key value m.entries

theorem contains_iff (m : OrderedMap α) (key : String) : m.contains key = true ↔ key ∈ m.keys := by
  rw [contains, Option.isSome_iff_ne_none, get?, ne_eq, Entries.get?_eq_none_iff,
    Classical.not_not, keys]

end OrderedMap
end InputGuard
