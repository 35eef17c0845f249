import InputGuard.OrderedMap
import Mathlib.Data.List.Forall2
import Mathlib.Data.List.Induction

/-! # What a sequence of assignments leaves behind

The keys stand where they first appeared (`keys_ofList`), each with the value it
was assigned last (`get?_ofList`). A map is what its own entries leave behind
(`ofList_entries`), one for each key (`forall₂_entries`). -/

namespace InputGuard

/-- The value that the last of the pairs under a key has. -/
def Entries.last? {α : Type _} (key : String) (pairs : List (String × α)) : Option α :=
  (pairs.filter (·.1 = key)).getLast?.map Prod.snd

namespace Entries

variable {α : Type _}

theorem last?_append (key : String) (ps qs : List (String × α)) :
    last? key (ps ++ qs) = (last? key qs).or (last? key ps) := by
  unfold last?
  rw [List.filter_append, List.getLast?_append]
  cases (qs.filter (·.1 = key)).getLast? <;> rfl

theorem last?_singleton (key : String) (p : String × α) :
    last? key [p] = if p.1 = key then some p.2 else none := by
  by_cases h : p.1 = key
  · simp [last?, h]
  · simp [last?, h]

theorem put_of_notMem {key : String} {es : List (String × α)} (h : key ∉ keys es) (value : α) :
    put key value es = es ++ [(key, value)] := by
  induction es with
  | nil => rfl
  | cons e r ih =>
    obtain ⟨k, v⟩ := e
    obtain ⟨hk, hr⟩ : ¬key = k ∧ key ∉ keys r := by simpa [keys] using h
    simp [put, Ne.symm hk, ih hr]

theorem get?_of_mem {es : List (String × α)} (h : (keys es).Nodup) {e : String × α}
    (he : e ∈ es) : get? e.1 es = some e.2 := by
  induction es with
  | nil => cases he
  | cons a r ih =>
    obtain ⟨k, v⟩ := a
    obtain ⟨hk, hr⟩ := List.nodup_cons.mp h
    rcases List.mem_cons.mp he with rfl | her
    · simp [get?]
    · have hne : k ≠ e.1 := fun heq => hk (List.mem_map.mpr ⟨e, her, heq.symm⟩)
      rw [get?, if_neg hne, ih hr her]

end Entries

namespace OrderedMap

variable {α : Type _}

/-- The entries in their order: one for each key, with the value under the key. -/
theorem forall₂_entries (m : OrderedMap α) :
    List.Forall₂ (fun key entry => entry.1 = key ∧ m.get? key = some entry.2) m.keys m.entries := by
  rw [keys, Entries.keys, List.forall₂_map_left_iff, List.forall₂_same]
  exact fun e he => ⟨rfl, Entries.get?_of_mem m.distinct he⟩

theorem ofList_concat (ps : List (String × α)) (p : String × α) :
    ofList (ps ++ [p]) = (ofList ps).put p.1 p.2 := by
  simp [ofList]

/-- Every key has the value it was assigned last. -/
theorem get?_ofList (ps : List (String × α)) (key : String) :
    (ofList ps).get? key = Entries.last? key ps := by
  induction ps using List.reverseRecOn with
  | nil => rfl
  | append_singleton ps p ih =>
    rw [ofList_concat, get?_put, ih, Entries.last?_append, Entries.last?_singleton]
    split <;> rfl

/-- Every key stands where it first appeared. -/
theorem keys_ofList (ps : List (String × α)) :
    (ofList ps).keys = (ps.map Prod.fst).eraseDups := by
  induction ps using List.reverseRecOn with
  | nil => rfl
  | append_singleton ps p ih =>
    rw [ofList_concat, keys_put, ih, List.map_append, List.eraseDups_append]
    by_cases h : p.1 ∈ ps.map Prod.fst
    · simp [h, List.removeAll]
    · simp [h, List.removeAll, List.eraseDups_cons]

theorem entries_ofList {ps : List (String × α)} (h : (Entries.keys ps).Nodup) :
    (ofList ps).entries = ps := by
  induction ps using List.reverseRecOn with
  | nil => rfl
  | append_singleton ps p ih =>
    simp only [Entries.keys, List.map_append, List.nodup_append, List.map_cons, List.map_nil,
      List.mem_singleton] at h
    obtain ⟨hps, -, hp⟩ := h
    have hnew : p.1 ∉ Entries.keys (ofList ps).entries := by
      rw [ih hps]
      intro hm
      exact hp p.1 hm p.1 rfl rfl
    calc (ofList (ps ++ [p])).entries
        = Entries.put p.1 p.2 (ofList ps).entries := by rw [ofList_concat]; rfl
      _ = (ofList ps).entries ++ [p] := Entries.put_of_notMem hnew p.2
      _ = ps ++ [p] := by rw [ih hps]

theorem ofList_entries (m : OrderedMap α) : ofList m.entries = m := ext (entries_ofList m.distinct)

end OrderedMap
end InputGuard
