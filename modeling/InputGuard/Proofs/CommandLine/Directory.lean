import InputGuard.CommandLine.Directory
import InputGuard.Proofs.Text.Split

/-! # Files in a directory

Writing a file where a path leads changes no folder, so every path leads where it
led before (`SameFolders.locate`). Files with different names, written into one
folder, stand at different places (`getLast?_of_locate_join`). Making a folder
leaves the files as they are (`files_makeFolder`). -/

namespace InputGuard.CommandLine

/-! ## Written paths -/

namespace Path

/-- Names that lead one step down from any folder. -/
structure Plain (name : String) : Prop where
  slash : '/' ∉ name.toList
  nonempty : name ≠ ""
  dot : name ≠ "."
  dots : name ≠ ".."

theorem enter_plain {name : String} (h : Plain name) (here : Path) :
    enter here name = here ++ [name] := by
  simp [enter, h.nonempty, h.dot, h.dots]

theorem components_of_slash {path : String} {before : List Char} {name : String}
    (h : path.toList = before ++ '/' :: name.toList) (hname : '/' ∉ name.toList) :
    components path = (if (before ++ ['/']).head? = some '/' then ["/"] else [],
      (Text.splitOn '/' before).map String.ofList ++ [name]) := by
  have hhead : path.toList.head? = (before ++ ['/']).head? := by rw [h]; cases before <;> rfl
  have hparts : (Text.splitOn '/' path.toList).map String.ofList =
      (Text.splitOn '/' before).map String.ofList ++ [name] := by
    rw [h, Text.splitOn_append_cons, Text.splitOn_of_not_mem _ _ hname, List.map_append,
      List.map_singleton, String.ofList_toList]
  unfold components
  simp only [hhead, hparts]
  split <;> rfl

/-- The names of files in a folder come last in their paths, behind the same components. -/
theorem components_join (folder : String) :
    ∃ start parts, ∀ name : String, '/' ∉ name.toList →
      components (join folder name) = (start, parts ++ [name]) := by
  by_cases hempty : folder = ""
  · refine ⟨[], [], fun name hname => ?_⟩
    have hhead : name.toList.head? ≠ some '/' := fun h => hname (List.mem_of_head? h)
    simp [join, hempty, components, hhead, Text.splitOn_of_not_mem _ _ hname]
  · by_cases hlast : folder.toList.getLast? = some '/'
    · obtain ⟨before, hbefore⟩ := List.getLast?_eq_some_iff.mp hlast
      have htext (name : String) : (join folder name).toList = before ++ '/' :: name.toList := by
        simp [join, hempty, hbefore]
      exact ⟨_, _, fun name hname => components_of_slash (htext name) hname⟩
    · have htext (name : String) :
          (join folder name).toList = folder.toList ++ '/' :: name.toList := by
        simp [join, hempty, hlast]
      exact ⟨_, _, fun name hname => components_of_slash (htext name) hname⟩

end Path

namespace Directory

variable {d d' : Directory} {p : Path}

/-! ## One file -/

theorem file?_setFile (d : Directory) (p : Path) (content : Content) (q : Path) :
    (d.setFile p content).file? q = if q = p then some content else d.file? q := by
  have hfilter (hq : q ≠ p) (files : List (Path × Content)) :
      (files.filter (·.1 ≠ p)).lookup q = files.lookup q := by
    induction files with
    | nil => rfl
    | cons f files ih =>
      by_cases hf : f.1 = p
      · have hne : (q == f.1) = false := by simpa [hf] using hq
        rw [List.filter_cons_of_neg (by simp [hf]), ih, List.lookup_cons, hne]
      · rw [List.filter_cons_of_pos (by simp [hf]), List.lookup_cons, List.lookup_cons, ih]
  unfold file? setFile
  rw [List.lookup_cons]
  by_cases hq : q = p
  · simp [hq]
  · simp only [beq_eq_false_iff_ne.mpr hq, if_neg hq]
    exact hfilter hq d.files

/-- The same paths are folders. -/
def SameFolders (d d' : Directory) : Prop := ∀ p, d'.isFolder p = d.isFolder p

/-- Every folder on the way to a path. -/
def Reached (d : Directory) (p : Path) : Prop := ∀ q, q <+: p → q ≠ p → d.isFolder q = true

theorem isFolder_iff : d.isFolder p = true ↔
    (p.all (· == "..") || p == ["/"] || d.folders.contains p) = true ∨
      ∃ f ∈ d.files, p <+: f.1 ∧ p ≠ f.1 := by
  unfold isFolder
  rw [Bool.or_eq_true, List.any_eq_true]
  simp only [Bool.and_eq_true, List.isPrefixOf_iff_prefix, bne_iff_ne, ne_eq]

theorem sameFolders_setFile (h : d.Reached p) (content : Content) :
    d.SameFolders (d.setFile p content) := by
  intro q
  rw [Bool.eq_iff_iff, isFolder_iff, isFolder_iff]
  constructor
  · rintro (hbase | ⟨f, hf, hq⟩)
    · exact .inl hbase
    · rcases List.mem_cons.mp hf with rfl | hf
      · exact isFolder_iff.mp (h q hq.1 hq.2)
      · exact .inr ⟨f, (List.mem_filter.mp hf).1, hq⟩
  · rintro (hbase | ⟨f, hf, hq⟩)
    · exact .inl hbase
    · by_cases hfp : f.1 = p
      · exact .inr ⟨(p, content), List.mem_cons_self, hfp ▸ hq⟩
      · exact .inr ⟨f, List.mem_cons_of_mem _ (List.mem_filter.mpr ⟨hf, by simpa using hfp⟩), hq⟩

/-! ## Where paths lead -/

theorem reached_enter {here : Path} (h : d.Reached here) (hfolder : d.isFolder here = true)
    (part : String) : d.Reached (Path.enter here part) := by
  unfold Path.enter
  split
  · exact h
  · split
    · intro q hq hne
      have hhere : q <+: here := hq.trans (List.dropLast_prefix here)
      by_cases heq : q = here
      · exact heq ▸ hfolder
      · exact h q hhere heq
    · intro q hq hne
      rcases List.prefix_concat_iff.mp hq with rfl | hq
      · exact absurd rfl hne
      · by_cases heq : q = here
        · exact heq ▸ hfolder
        · exact h q hq heq

theorem walk_cons_eq_ok {here : Path} {part : String} {parts : List String} :
    d.walk here (part :: parts) = .ok p ↔
      d.isFolder here = true ∧ part.utf8ByteSize ≤ Path.longestName ∧
        d.walk (Path.enter here part) parts = .ok p := by
  rw [walk]
  by_cases hfolder : d.isFolder here = true
  · by_cases hlong : Path.longestName < part.utf8ByteSize
    · simp [hfolder, hlong, Nat.not_le.mpr hlong]
    · simp [hfolder, hlong, Nat.le_of_not_lt hlong]
  · rw [if_neg hfolder]
    split <;> simp [hfolder]

theorem reached_of_walk {here : Path} {parts : List String} (h : d.Reached here)
    (hwalk : d.walk here parts = .ok p) : d.Reached p := by
  induction parts generalizing here with
  | nil =>
    cases hwalk
    exact h
  | cons part parts ih =>
    obtain ⟨hfolder, -, hrest⟩ := walk_cons_eq_ok.mp hwalk
    exact ih (reached_enter h hfolder part) hrest

theorem walk_concat_eq_ok {here : Path} {parts : List String} {part : String}
    (h : d.walk here (parts ++ [part]) = .ok p) : ∃ folder, p = Path.enter folder part := by
  induction parts generalizing here with
  | nil =>
    obtain ⟨-, -, hp⟩ := walk_cons_eq_ok.mp h
    cases hp
    exact ⟨here, rfl⟩
  | cons first parts ih => exact ih (walk_cons_eq_ok.mp h).2.2

theorem SameFolders.walk (h : d.SameFolders d') {here : Path} {parts : List String}
    (hwalk : d.walk here parts = .ok p) : d'.walk here parts = .ok p := by
  induction parts generalizing here with
  | nil => exact hwalk
  | cons part parts ih =>
    obtain ⟨hfolder, hlength, hrest⟩ := walk_cons_eq_ok.mp hwalk
    exact walk_cons_eq_ok.mpr ⟨(h here).trans hfolder, hlength, ih hrest⟩

theorem locate_eq_ok {path : String} : d.locate path = .ok p ↔
    Path.fault? path = none ∧ path ≠ "" ∧
      d.walk (Path.components path).1 (Path.components path).2 = .ok p := by
  unfold locate
  cases Path.fault? path with
  | some e => simp
  | none => by_cases hpath : path = "" <;> simp [hpath]

theorem SameFolders.locate (h : d.SameFolders d') {path : String} (hp : d.locate path = .ok p) :
    d'.locate path = .ok p := by
  obtain ⟨hfault, hpath, hwalk⟩ := locate_eq_ok.mp hp
  exact locate_eq_ok.mpr ⟨hfault, hpath, h.walk hwalk⟩

theorem reached_of_locate {path : String} (h : d.locate path = .ok p) : d.Reached p := by
  refine reached_of_walk ?_ (locate_eq_ok.mp h).2.2
  unfold Path.components
  split
  · intro q hq hne
    have hroot : q <+: [] ++ ["/"] := hq
    rcases List.prefix_concat_iff.mp hroot with rfl | habove
    · exact absurd rfl hne
    · rw [List.prefix_nil.mp habove]
      rfl
  · intro q hq hne
    exact absurd (List.prefix_nil.mp hq) hne

/-- A file in a folder stands at a place that ends with its name. -/
theorem getLast?_of_locate_join {folder name : String} (hname : Path.Plain name)
    (h : d.locate (Path.join folder name) = .ok p) : p.getLast? = some name := by
  obtain ⟨start, parts, hparts⟩ := Path.components_join folder
  have hwalk := (locate_eq_ok.mp h).2.2
  rw [hparts name hname.slash] at hwalk
  obtain ⟨place, rfl⟩ := walk_concat_eq_ok hwalk
  rw [Path.enter_plain hname, List.getLast?_concat]

/-! ## Writing and making folders -/

theorem write_eq_ok {path text : String} (h : d.write path text = .ok d') :
    ∃ p, d.locate path = .ok p ∧ d' = d.setFile p text := by
  unfold write at h
  split at h
  · cases h
  · next p hp =>
    split at h
    · cases h
    · cases h
      exact ⟨p, hp, rfl⟩

theorem files_ensureFolder {start : Path} {parts : List String}
    (h : d.ensureFolder start parts = .ok d') : d'.files = d.files := by
  unfold ensureFolder at h
  split at h
  · cases h
  · split at h
    · cases h
      rfl
    · split at h
      · cases h
      · cases h
        rfl

theorem files_makeAfter {above : Made} (habove : above.directory.files = d.files) (start : Path)
    (parts : List String) : (d.makeAfter start parts above).directory.files = d.files := by
  unfold makeAfter
  split
  · next h => exact files_ensureFolder h
  · split
    · exact habove
    · split
      · next h => exact (files_ensureFolder h).trans habove
      · exact habove
  · rfl

theorem files_makeFolders (d : Directory) (start : Path) (parts : List String) :
    (d.makeFolders start parts).directory.files = d.files := by
  induction parts with
  | nil => rfl
  | cons part parts ih => exact files_makeAfter ih start _

theorem files_makeFolder (d : Directory) (path : String) :
    (d.makeFolder path).directory.files = d.files := by
  unfold makeFolder
  split
  · rfl
  · exact files_makeAfter (files_makeFolders d _ _) _ _

end Directory
end InputGuard.CommandLine
