import Pingweave.Format
import Pingweave.Library.Pattern

/-!
# The directories of the plots

The three directories that `ctrl_heatmap_plotter.py` writes its plots to, and
`clear_directory_conditional`, which removes what is not excepted: files by the name in front of the
format, and whole directories bottom up as `os.walk(topdown=False)` yields them.
-/

namespace Pingweave
open Pattern
set_option autoImplicit false

/-- The entries of a directory as `os.listdir` gives them. -/
inductive Listing (α : Type) where
  | nil
  | file (name : Text) (content : α) (rest : Listing α)
  | dir (name : Text) (sub rest : Listing α)

namespace Listing
variable {α : Type}

/-- The content of the file of this name. -/
def file? (name : Text) : Listing α → Option α
  | nil => none
  | file n c rest => if n = name then some c else file? name rest
  | dir _ _ rest => file? name rest

/-- `open(name, "w")`; a directory cannot be written to. -/
def put (name : Text) (c : α) : Listing α → Option (Listing α)
  | nil => some (file name c nil)
  | file n c' rest => if n = name then some (file n c rest) else (put name c rest).map (file n c')
  | dir n sub rest => if n = name then none else (put name c rest).map (dir n sub)

/-- `os.listdir` -/
def names : Listing α → List Text
  | nil => []
  | file n _ rest => n :: names rest
  | dir n _ rest => n :: names rest

/-- The names of all files in the tree. -/
def basenames : Listing α → List Text
  | nil => []
  | file n _ rest => n :: basenames rest
  | dir _ sub rest => basenames sub ++ basenames rest

section Clear
variable (except_files : List Text)

def removeFiles : Listing α → Listing α
  | nil => nil
  | file n c rest => if n ∈ except_files then file n c (removeFiles rest) else removeFiles rest
  | dir n sub rest => dir n sub (removeFiles rest)

/-- `os.rmdir` on every directory. A directory that is not empty raises: then the second part is `true`
and the rest is left as it is. -/
def removeDirs : Listing α → Listing α × Bool
  | nil => (nil, false)
  | file n c rest => ((removeDirs rest).map (file n c) id)
  | dir _ nil rest => removeDirs rest
  | dir n sub rest => (dir n sub rest, true)

/-- What `os.walk` yields below a directory, in its order. -/
def walkDirs : Listing α → Listing α × Bool
  | nil => (nil, false)
  | file n c rest => (walkDirs rest).map (file n c) id
  | dir n sub rest =>
    match walkDirs sub with
    | (sub', true) => (dir n sub' rest, true)
    | (sub', false) =>
      match removeDirs (removeFiles except_files sub') with
      | (left, true) => (dir n left rest, true)
      | (left, false) => (walkDirs rest).map (dir n left) id

/-- The loop over `os.walk(entry_path, topdown=False)`, whose last root is the directory itself. -/
def walk (sub : Listing α) : Listing α × Bool :=
  match walkDirs except_files sub with
  | (sub', true) => (sub', true)
  | (sub', false) => removeDirs (removeFiles except_files sub')

/-- An exception ends the loop over the entries. -/
def clearDirectoryConditional (file_format : Text) : Listing α → Listing α
  | nil => nil
  | file n c rest =>
    if cut ('.' :: file_format) n ∈ except_files then file n c (clearDirectoryConditional file_format rest)
    else clearDirectoryConditional file_format rest
  | dir n sub rest =>
    if cut ('.' :: file_format) n ∈ except_files then dir n sub (clearDirectoryConditional file_format rest)
    else
      match walk except_files sub with
      | (nil, false) => clearDirectoryConditional file_format rest
      | (left, _) => dir n left rest

end Clear

/-- No directories. -/
def Flat : Listing α → Prop
  | nil => True
  | file _ _ rest => Flat rest
  | dir _ _ _ => False

/-- No name is there twice. Of the names in `P` the directory has files only, each named in full, and no
directory has one. -/
def Tidy (P : Text → Prop) (ext : Text) : Listing α → Prop
  | nil => True
  | file n _ rest => (P (cut ext n) → n = cut ext n ++ ext) ∧ n ∉ rest.names ∧ Tidy P ext rest
  | dir n sub rest =>
    (¬ P (cut ext n) ∧ ∀ name ∈ sub.basenames, ¬ P name) ∧ n ∉ rest.names ∧ Tidy P ext rest

theorem file?_put {name n : Text} {c : α} {l l' : Listing α} (h : l.put n c = some l') :
    l'.file? name = if n = name then some c else l.file? name := by
  induction l generalizing l' with
  | nil =>
    cases h
    rfl
  | file n' c' rest ih =>
    rw [put] at h
    split at h
    · rename_i heq
      cases h
      rw [file?, file?, heq]
      split
      · rfl
      · rfl
    · rename_i hne
      obtain ⟨rest', hrest, rfl⟩ := Option.map_eq_some_iff.mp h
      rw [file?, file?, ih hrest]
      by_cases hname : n' = name
      · rw [if_pos hname, if_pos hname, if_neg fun hn => hne (hname.trans hn.symm)]
      · rw [if_neg hname, if_neg hname]
  | dir n' sub rest _ ih =>
    rw [put] at h
    split at h
    · cases h
    · obtain ⟨rest', hrest, rfl⟩ := Option.map_eq_some_iff.mp h
      have hrest' := ih hrest
      exact hrest'

theorem mem_names_put {n : Text} {c : α} {l l' : Listing α} (h : l.put n c = some l') {name : Text} :
    name ∈ l'.names ↔ name = n ∨ name ∈ l.names := by
  induction l generalizing l' with
  | nil =>
    cases h
    exact List.mem_cons
  | file n' c' rest ih =>
    rw [put] at h
    split at h
    · rename_i heq
      cases h
      rw [names, names, heq, List.mem_cons, or_self_left]
    · obtain ⟨rest', hrest, rfl⟩ := Option.map_eq_some_iff.mp h
      rw [names, names, List.mem_cons, List.mem_cons, ih hrest, or_left_comm]
  | dir n' sub rest _ ih =>
    rw [put] at h
    split at h
    · cases h
    · obtain ⟨rest', hrest, rfl⟩ := Option.map_eq_some_iff.mp h
      rw [names, names, List.mem_cons, List.mem_cons, ih hrest, or_left_comm]

theorem tidy_put {P : Text → Prop} {ext n : Text} {c : α} {l l' : Listing α} (h : l.put n c = some l')
    (hn : P (cut ext n) → n = cut ext n ++ ext) (htidy : l.Tidy P ext) : l'.Tidy P ext := by
  induction l generalizing l' with
  | nil =>
    cases h
    exact ⟨hn, List.not_mem_nil, trivial⟩
  | file n' c' rest ih =>
    obtain ⟨hname, hnew, hrest'⟩ := htidy
    rw [put] at h
    split at h
    · cases h
      exact ⟨hname, hnew, hrest'⟩
    · rename_i hne
      obtain ⟨rest', hrest, rfl⟩ := Option.map_eq_some_iff.mp h
      refine ⟨hname, ?_, ih hrest hrest'⟩
      rw [mem_names_put hrest, not_or]
      exact ⟨hne, hnew⟩
  | dir n' sub rest _ ih =>
    obtain ⟨hdir, hnew, hrest'⟩ := htidy
    rw [put] at h
    split at h
    · cases h
    · rename_i hne
      obtain ⟨rest', hrest, rfl⟩ := Option.map_eq_some_iff.mp h
      refine ⟨hdir, ?_, ih hrest hrest'⟩
      rw [mem_names_put hrest, not_or]
      exact ⟨hne, hnew⟩

theorem nodup_of_tidy {P : Text → Prop} {ext : Text} {l : Listing α} (htidy : l.Tidy P ext) : l.names.Nodup := by
  induction l with
  | nil => exact List.nodup_nil
  | file n c rest ih => exact List.nodup_cons.mpr ⟨htidy.2.1, ih htidy.2.2⟩
  | dir n sub rest _ ih => exact List.nodup_cons.mpr ⟨htidy.2.1, ih htidy.2.2⟩

theorem name_of_tidy {P : Text → Prop} {ext name : Text} {c : α} {l : Listing α} (htidy : l.Tidy P ext)
    (h : l.file? name = some c) (hp : P (cut ext name)) : name = cut ext name ++ ext := by
  induction l with
  | nil => cases h
  | file n c' rest ih =>
    rw [file?] at h
    split at h
    · rename_i heq
      exact heq ▸ htidy.1 (heq ▸ hp)
    · exact ih htidy.2.2 h
  | dir n sub rest _ ih => exact ih htidy.2.2 h

theorem mem_names {name : Text} {l : Listing α} (hflat : l.Flat) : name ∈ l.names ↔ ∃ c, l.file? name = some c := by
  induction l with
  | nil => exact ⟨nofun, nofun⟩
  | file n c rest ih =>
    rw [names, file?, List.mem_cons]
    by_cases hn : n = name
    · rw [if_pos hn]
      exact ⟨fun _ => ⟨c, rfl⟩, fun _ => .inl hn.symm⟩
    · rw [if_neg hn, ← ih hflat]
      exact ⟨fun h => h.resolve_left (Ne.symm hn), .inr⟩
  | dir n sub rest => exact hflat.elim

/-- A tree without an excepted name goes as a whole. -/
theorem walk_eq {except_files : List Text} {sub : Listing α} (h : ∀ name ∈ sub.basenames, name ∉ except_files) :
    walk except_files sub = (nil, false) := by
  have hdirs : (walkDirs except_files sub).2 = false ∧
      removeDirs (removeFiles except_files (walkDirs except_files sub).1) = (nil, false) := by
    induction sub with
    | nil => exact ⟨rfl, rfl⟩
    | file n c rest ih =>
      obtain ⟨hraised, hleft⟩ := ih fun name hname => h name (List.mem_cons_of_mem n hname)
      refine ⟨hraised, ?_⟩
      change removeDirs (removeFiles except_files (file n c _)) = _
      rw [removeFiles, if_neg (h n List.mem_cons_self)]
      exact hleft
    | dir n sub rest ihsub ih =>
      obtain ⟨hraised, hleft⟩ := ihsub fun name hname => h name (List.mem_append_left _ hname)
      obtain ⟨hraised', hleft'⟩ := ih fun name hname => h name (List.mem_append_right _ hname)
      have hstep : walkDirs except_files (dir n sub rest) = (walkDirs except_files rest).map (dir n nil) id := by
        rw [walkDirs]
        generalize hw : walkDirs except_files sub = w at hraised hleft
        obtain ⟨sub', raised⟩ := w
        cases hraised
        dsimp only at hleft ⊢
        rw [hleft]
      rw [hstep]
      exact ⟨hraised', hleft'⟩
  unfold walk
  generalize hw : walkDirs except_files sub = w at hdirs
  obtain ⟨sub', raised⟩ := w
  obtain ⟨hraised, hleft⟩ := hdirs
  cases hraised
  exact hleft

section Cleared
variable {P : Text → Prop} {except_files : List Text} {file_format : Text} {l : Listing α}

theorem flat_clear (htidy : l.Tidy P ('.' :: file_format)) (hexcept : ∀ name ∈ except_files, P name) :
    (l.clearDirectoryConditional except_files file_format).Flat := by
  induction l with
  | nil => trivial
  | file n c rest ih =>
    rw [clearDirectoryConditional]
    split
    · exact ih htidy.2.2
    · exact ih htidy.2.2
  | dir n sub rest _ ih =>
    rw [clearDirectoryConditional, if_neg fun hmem => htidy.1.1 (hexcept _ hmem),
      walk_eq fun name hname hmem => htidy.1.2 name hname (hexcept _ hmem)]
    exact ih htidy.2.2

theorem file?_clear (htidy : l.Tidy P ('.' :: file_format)) (hexcept : ∀ name ∈ except_files, P name)
    (name : Text) : (l.clearDirectoryConditional except_files file_format).file? name =
      if cut ('.' :: file_format) name ∈ except_files then l.file? name else none := by
  induction l with
  | nil => rw [clearDirectoryConditional, file?, ite_self]
  | file n c rest ih =>
    rw [clearDirectoryConditional, file?]
    by_cases hn : n = name
    · subst hn
      rw [if_pos rfl]
      split
      · exact if_pos rfl
      · rename_i hcut
        rw [ih htidy.2.2, if_neg hcut]
    · rw [if_neg hn, ← ih htidy.2.2]
      split
      · exact if_neg hn
      · rfl
  | dir n sub rest _ ih =>
    rw [clearDirectoryConditional, if_neg fun hmem => htidy.1.1 (hexcept _ hmem),
      walk_eq fun name hname hmem => htidy.1.2 name hname (hexcept _ hmem)]
    exact ih htidy.2.2

theorem names_clear (except_files : List Text) (file_format : Text) (l : Listing α) :
    (l.clearDirectoryConditional except_files file_format).names.Sublist l.names := by
  induction l with
  | nil => exact List.Sublist.slnil
  | file n c rest ih =>
    rw [clearDirectoryConditional]
    split
    · exact ih.cons_cons n
    · exact ih.cons n
  | dir n sub rest _ ih =>
    rw [clearDirectoryConditional]
    split
    · exact ih.cons_cons n
    · split
      · exact ih.cons n
      · exact List.Sublist.refl _

theorem tidy_clear (htidy : l.Tidy P ('.' :: file_format)) (hexcept : ∀ name ∈ except_files, P name) :
    (l.clearDirectoryConditional except_files file_format).Tidy P ('.' :: file_format) := by
  induction l with
  | nil => trivial
  | file n c rest ih =>
    rw [clearDirectoryConditional]
    split
    · exact ⟨htidy.1, fun hmem => htidy.2.1 ((names_clear except_files file_format rest).subset hmem), ih htidy.2.2⟩
    · exact ih htidy.2.2
  | dir n sub rest _ ih =>
    rw [clearDirectoryConditional, if_neg fun hmem => htidy.1.1 (hexcept _ hmem),
      walk_eq fun name hname hmem => htidy.1.2 name hname (hexcept _ hmem)]
    exact ih htidy.2.2

end Cleared
end Listing
end Pingweave
