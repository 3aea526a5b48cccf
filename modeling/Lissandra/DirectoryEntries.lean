import Lissandra.FileTree
import Mathlib.Data.Set.Finite.Lattice

/-! # What is in a directory

The library of `FileTree`, continued: `opendir` and `readdir`, and `unlink` and `rmdir`, with which
a directory is taken away after all that is in it.

`readdir` gives the names in an order of its own, `.` and `..` among them, so it is a parameter
(`Dirent`).  What such calls leave is said by places (`Cleared`), and a path can be followed while
what is below it is taken away (`Leads`).
-/
namespace Lissandra

instance : DecidablePred EntryName := fun name =>
  decidable_of_iff (name ≠ [] ∧ slash ∉ name ∧ name ≠ dot ∧ name ≠ dotDot)
    ⟨fun ⟨h₁, h₂, h₃, h₄⟩ => ⟨h₁, h₂, h₃, h₄⟩, fun ⟨h₁, h₂, h₃, h₄⟩ => ⟨h₁, h₂, h₃, h₄⟩⟩

namespace FileTree

/-! ## Reading directories -/

/-- There is a directory or a file at a place. -/
def Has (tree : FileTree) (place : Place) : Prop :=
  place ∈ tree.directories ∨ (tree.files place).isSome

/-- `readdir`, called until it returns `NULL`: the names of what is in the directory, and `.` and
`..`. -/
structure Dirent where
  readdir : FileTree → Place → List Bytes
  nodup : ∀ tree place, (readdir tree place).Nodup
  mem_readdir : ∀ (tree : FileTree) (place : Place), {name | tree.Has (place ++ [name])}.Finite →
    ∀ name, name ∈ readdir tree place ↔ name = dot ∨ name = dotDot ∨ tree.Has (place ++ [name])

/-- One that lists them in some order. -/
noncomputable def someDirent : Dirent where
  readdir tree place := open Classical in
    if h : {name | tree.Has (place ++ [name])}.Finite then
      (insert dot (insert dotDot h.toFinset)).toList
    else []
  nodup tree place := by
    split
    · exact Finset.nodup_toList _
    · exact List.nodup_nil
  mem_readdir tree place h name := by
    rw [dif_pos h]
    simp

variable (tree : FileTree)

/-- `stat` with `S_ISDIR`. -/
def isDirectory (place : Place) : Bool := tree.directories.contains place

/-- `opendir`. -/
def opendir (path : Bytes) : Option Place := tree.walk [] (components path)

/-! ## Removing -/

/-- No file at a place. -/
def clearFile (place : Place) : FileTree where
  directories := tree.directories
  files := Function.update tree.files place none
  root := tree.root
  closed := tree.closed
  parent other hother := by
    by_cases heq : other = place
    · rw [heq, Function.update_self] at hother
      cases hother
    · rw [Function.update_of_ne heq] at hother
      exact tree.parent other hother
  apart other hother := by
    by_cases heq : other = place
    · rw [heq, Function.update_self]
    · rw [Function.update_of_ne heq]
      exact tree.apart other hother

/-- `remove` of a file.  Where there is none nothing happens. -/
def removeFile (path : Bytes) : FileTree :=
  match tree.locate path with
  | none => tree
  | some place => tree.clearFile place

/-- Nothing at a place or below it. -/
def clearDirectory (place : Place) (hne : place ≠ []) : FileTree where
  directories := tree.directories.filter fun other => ¬ place <+: other
  files other := if place <+: other then none else tree.files other
  root := by
    refine List.mem_filter.mpr ⟨tree.root, decide_eq_true fun hinner => hne ?_⟩
    exact List.prefix_nil.mp hinner
  closed other hother := by
    obtain ⟨hmem, hout⟩ := List.mem_filter.mp hother
    refine List.mem_filter.mpr ⟨tree.closed other hmem, decide_eq_true fun hinner => ?_⟩
    exact of_decide_eq_true hout (hinner.trans (List.dropLast_prefix other))
  parent other hother := by
    by_cases hinner : place <+: other
    · rw [if_pos hinner] at hother
      cases hother
    · rw [if_neg hinner] at hother
      refine List.mem_filter.mpr ⟨tree.parent other hother, decide_eq_true fun hdropLast => ?_⟩
      exact hinner (hdropLast.trans (List.dropLast_prefix other))
  apart other hother := by
    obtain ⟨hmem, hout⟩ := List.mem_filter.mp hother
    rw [if_neg (of_decide_eq_true hout)]
    exact tree.apart other hmem

variable {tree} {tree' : FileTree} {place : Place} {path name first second content : Bytes}

theorem isDirectory_iff : tree.isDirectory place = true ↔ place ∈ tree.directories :=
  List.contains_iff_mem

theorem files_clearFile (place other : Place) :
    (tree.clearFile place).files other = if other = place then none else tree.files other :=
  Function.update_apply ..

theorem locate_ne_nil (h : tree.locate path = some place) : place ≠ [] := by
  obtain ⟨directory, last, -, -, -, rfl⟩ := locate_eq_some h
  exact List.concat_ne_nil _ _

variable (tree) in
/-- `unlink`. -/
def unlink (path : Bytes) : Option FileTree :=
  match tree.locate path with
  | none => none
  | some place => if (tree.files place).isSome then some (tree.clearFile place) else none

variable (tree) in
/-- `rmdir`, which removes a directory only if `.` and `..` are all its entries. -/
def rmdir (dirent : Dirent) (path : Bytes) : Option FileTree :=
  match hplace : tree.locate path with
  | none => none
  | some place =>
    if tree.isDirectory place ∧
        ∀ name ∈ dirent.readdir tree place, name = dot ∨ name = dotDot then
      some (tree.clearDirectory place (locate_ne_nil hplace))
    else none

variable (tree) in
/-- How deep directories are nested. -/
def height : Nat := (tree.directories.map List.length).foldr max 0

/-! ## Paths into a directory -/

section Paths

theorem components_concat_slash : components (path ++ [slash]) = components path := by
  have hsplit : (path ++ slash :: []).splitOn slash = path.splitOn slash ++ [].splitOn slash :=
    List.splitOn_append_cons_self ..
  rw [components, hsplit, List.filter_append]
  exact List.append_nil _

/-- What `opendir` finds at the path of a directory, with and without a slash at its end. -/
theorem opendir_of_locate (h : tree.locate path = some place) (hmem : place ∈ tree.directories) :
    tree.opendir path = some place := by
  obtain ⟨directory, last, hlast, hname, hwalk, rfl⟩ := locate_eq_some h
  obtain ⟨front, hfront⟩ := List.getLast?_eq_some_iff.mp hlast
  rw [hfront, List.dropLast_concat] at hwalk
  rw [opendir, hfront, walk_append, hwalk, Option.bind_some, walk,
    if_neg fun heq => hname (Or.inl heq), if_neg fun heq => hname (Or.inr heq), if_pos hmem]
  rfl

theorem opendir_slash (path : Bytes) : tree.opendir (path ++ [slash]) = tree.opendir path := by
  rw [opendir, opendir, components_concat_slash]

/-- A name without a slash that gives a new place is the name of an entry. -/
theorem entry_of_locate {new : Place} (h : tree.locate path = some place)
    (hmem : place ∈ tree.directories) (hslash : slash ∉ name)
    (hnew : tree.locate (path ++ slash :: name) = some new) (hfree : new ∉ tree.directories) :
    EntryName name ∧ new = place ++ [name] := by
  have hone : (path ++ slash :: name).splitOn slash = path.splitOn slash ++ [name] := by
    rw [List.splitOn_append_cons_self, List.splitOn_eq_singleton hslash]
  have hne : name ≠ [] := by
    rintro rfl
    rw [locate, components_concat_slash] at hnew
    exact hfree (Option.some.inj (h.symm.trans hnew) ▸ hmem)
  have hnames : components (path ++ slash :: name) = components path ++ [name] := by
    rw [components, hone, List.filter_append, List.filter_cons_of_pos (by simpa using hne)]
    rfl
  obtain ⟨directory, last, hlast, hlastName, -, -⟩ := locate_eq_some hnew
  rw [hnames, List.getLast?_concat] at hlast
  obtain rfl := Option.some.inj hlast
  have hname : EntryName name :=
    ⟨hne, hslash, fun heq => hlastName (Or.inl heq), fun heq => hlastName (Or.inr heq)⟩
  exact ⟨hname, Option.some.inj (hnew.symm.trans (locate_child h hmem hname))⟩

/-- A path through an entry needs the entry to be a directory. -/
theorem locate_grandchild (h : tree.locate path = some place) (hmem : place ∈ tree.directories)
    (hfirst : EntryName first) (hsecond : EntryName second) :
    tree.locate (path ++ slash :: first ++ slash :: second) =
      if place ++ [first] ∈ tree.directories then some (place ++ [first] ++ [second])
      else none := by
  by_cases hdirectory : place ++ [first] ∈ tree.directories
  · rw [if_pos hdirectory]
    exact locate_child (locate_child h hmem hfirst) hdirectory hsecond
  · rw [if_neg hdirectory]
    have hopen := opendir_of_locate h hmem
    rw [opendir] at hopen
    have hwalk : tree.walk [] (components path ++ [first]) = none := by
      rw [walk_append, hopen, Option.bind_some, walk, if_neg hfirst.ne_dot,
        if_neg hfirst.ne_dotDot, if_neg hdirectory]
    rw [locate, components_append hsecond, components_append hfirst, List.getLast?_concat]
    dsimp only
    rw [List.dropLast_concat, hwalk, if_neg]
    · rfl
    · rintro (heq | heq)
      · exact hsecond.ne_dot heq
      · exact hsecond.ne_dotDot heq

end Paths

/-! ## What the calls leave as it was -/

section Frames

theorem writeFile_eq_some (h : tree.writeFile path content = some tree') :
    ∃ place, tree.locate path = some place ∧ tree'.directories = tree.directories ∧
      tree'.files = Function.update tree.files place (some content) := by
  rw [writeFile] at h
  split at h
  · cases h
  · rename_i place hplace
    split at h
    · cases h
    · obtain rfl := Option.some.inj h
      exact ⟨place, hplace, rfl, rfl⟩

/-- Directories on the way to a directory. -/
theorem mem_directories_of_above {outer : Place} (hinner : outer <+: place)
    (h : place ∈ tree.directories) : outer ∈ tree.directories := by
  induction place using List.reverseRecOn with
  | nil =>
    obtain rfl := List.prefix_nil.mp hinner
    exact h
  | append_singleton front last ih =>
    rcases List.prefix_concat_iff.mp hinner with rfl | hfront
    · exact h
    · have hparent := tree.closed _ h
      rw [List.dropLast_concat] at hparent
      exact ih hfront hparent

theorem length_le_height (h : place ∈ tree.directories) : place.length ≤ tree.height := by
  have hall : ∀ (lengths : List Nat), ∀ n ∈ lengths, n ≤ lengths.foldr max 0 := by
    intro lengths
    induction lengths with
    | nil => exact fun n hn => absurd hn List.not_mem_nil
    | cons first rest ih =>
      intro n hn
      rw [List.foldr_cons]
      rcases List.mem_cons.mp hn with rfl | hn
      · exact le_max_left _ _
      · exact (ih n hn).trans (le_max_right _ _)
  exact hall _ _ (List.mem_map_of_mem h)

end Frames

/-! ## Ordinary trees -/

/-- Entries have names, and there are finitely many files. -/
structure Ordinary (tree : FileTree) : Prop where
  name : ∀ place name, tree.Has (place ++ [name]) → EntryName name
  finite : {place | (tree.files place).isSome}.Finite

section Ordinary

theorem slash_not_mem_of_mem_splitOn {text piece : Bytes} (h : piece ∈ text.splitOn slash) :
    slash ∉ piece := by
  induction text generalizing piece with
  | nil =>
    rw [List.splitOn_nil, List.mem_singleton] at h
    rw [h]
    exact List.not_mem_nil
  | cons b rest ih =>
    rw [List.splitOn_cons_eq_if_modifyHead] at h
    split at h
    · rcases List.mem_cons.mp h with rfl | h
      · exact List.not_mem_nil
      · exact ih h
    · rename_i hb
      cases hsplit : rest.splitOn slash with
      | nil => exact absurd hsplit (List.splitOn_ne_nil _ _)
      | cons first others =>
        rw [hsplit] at h ih
        rw [List.modifyHead_cons] at h
        rcases List.mem_cons.mp h with rfl | h
        · intro hmem
          rcases List.mem_cons.mp hmem with rfl | hmem
          · exact hb (beq_self_eq_true _)
          · exact ih List.mem_cons_self hmem
        · exact ih (List.mem_cons_of_mem _ h)

/-- The last name of a place that a path has. -/
theorem entryName_of_locate (h : tree.locate path = some place) :
    ∃ directory name, place = directory ++ [name] ∧ EntryName name := by
  obtain ⟨directory, name, hlast, hname, -, rfl⟩ := locate_eq_some h
  obtain ⟨hpiece, hne⟩ := List.mem_filter.mp (List.mem_of_getLast? hlast)
  exact ⟨directory, name, rfl, of_decide_eq_true hne, slash_not_mem_of_mem_splitOn hpiece,
    fun heq => hname (Or.inl heq), fun heq => hname (Or.inr heq)⟩

theorem Ordinary.entries_finite (h : tree.Ordinary) (place : Place) :
    {name | tree.Has (place ++ [name])}.Finite := by
  have hinjective : Function.Injective fun name : Bytes => place ++ [name] := by
    intro first second heq
    exact List.singleton_inj.mp (List.append_inj' heq rfl).2
  have hall : {place | tree.Has place}.Finite :=
    (List.finite_toSet tree.directories).union h.finite
  exact hall.preimage hinjective.injOn

/-- Less in the tree. -/
theorem Ordinary.of_has (h : tree.Ordinary)
    (hfiles : ∀ place, (tree'.files place).isSome → (tree.files place).isSome)
    (hdirectories : tree'.directories ⊆ tree.directories) : tree'.Ordinary := by
  refine ⟨fun place name hhas => h.name place name ?_, h.finite.subset hfiles⟩
  exact hhas.imp (fun hmem => hdirectories hmem) (hfiles _)

theorem Ordinary.removeFile (h : tree.Ordinary) (path : Bytes) :
    (tree.removeFile path).Ordinary := by
  rw [FileTree.removeFile]
  split
  · exact h
  · rename_i place hplace
    refine h.of_has (fun other hother => ?_) (List.Subset.refl _)
    rw [files_clearFile] at hother
    split at hother
    · cases hother
    · exact hother

theorem Ordinary.writeFile (h : tree.Ordinary) (hwrite : tree.writeFile path content = some tree') :
    tree'.Ordinary := by
  obtain ⟨place, hplace, hdirectories, hfiles⟩ := writeFile_eq_some hwrite
  obtain ⟨directory, last, rfl, hlast⟩ := entryName_of_locate hplace
  have hone : ∀ other, (tree'.files other).isSome →
      other = directory ++ [last] ∨ (tree.files other).isSome := by
    intro other hother
    by_cases heq : other = directory ++ [last]
    · exact Or.inl heq
    · rw [hfiles, Function.update_of_ne heq] at hother
      exact Or.inr hother
  refine ⟨fun place name hhas => ?_, ((Set.finite_singleton _).union h.finite).subset hone⟩
  rcases hhas with hmem | hfile
  · rw [hdirectories] at hmem
    exact h.name place name (Or.inl hmem)
  · rcases hone _ hfile with heq | hfile
    · rw [List.singleton_inj.mp (List.append_inj' heq rfl).2]
      exact hlast
    · exact h.name place name (Or.inr hfile)

theorem Ordinary.mkdir (h : tree.Ordinary) (hmkdir : tree.mkdir path = some tree') :
    tree'.Ordinary := by
  obtain ⟨place, hplace, -, -, hdirectories, hfiles⟩ := mkdir_eq_some hmkdir
  obtain ⟨directory, last, rfl, hlast⟩ := entryName_of_locate hplace
  refine ⟨fun other name hhas => ?_, hfiles.symm ▸ h.finite⟩
  rw [Has, hdirectories, hfiles, List.mem_cons, or_assoc] at hhas
  rcases hhas with heq | hhas
  · rw [List.singleton_inj.mp (List.append_inj' heq rfl).2]
    exact hlast
  · exact h.name other name hhas

end Ordinary

/-! ## What is left -/

/-- The tree without some of its places. -/
structure Cleared (gone : Place → Prop) (tree tree' : FileTree) : Prop where
  directories : ∀ other, other ∈ tree'.directories ↔ other ∈ tree.directories ∧ ¬ gone other
  cleared : ∀ other, gone other → tree'.files other = none
  kept : ∀ other, ¬ gone other → tree'.files other = tree.files other

/-- The path leads to the place through directories that are not below it. -/
def Leads (tree : FileTree) (path : Bytes) (place : Place) : Prop :=
  ∀ tree' : FileTree, (∀ other ∈ tree.directories, ¬ place <+: other → other ∈ tree'.directories) →
    tree'.locate path = some place

section Clearing
variable {tree'' : FileTree} {gone gone' : Place → Prop}

theorem Cleared.congr (h : Cleared gone tree tree') (heq : ∀ other, gone other ↔ gone' other) :
    Cleared gone' tree tree' where
  directories other := by
    rw [h.directories, heq]
  cleared other hgone := h.cleared other ((heq other).mpr hgone)
  kept other hkept := h.kept other fun hgone => hkept ((heq other).mp hgone)

theorem Cleared.trans (h : Cleared gone tree tree') (h' : Cleared gone' tree' tree'') :
    Cleared (fun other => gone other ∨ gone' other) tree tree'' := by
  refine ⟨fun other => ?_, fun other hgone => ?_, fun other hkept => ?_⟩
  · rw [h'.directories, h.directories, not_or, and_assoc]
  · by_cases hsecond : gone' other
    · exact h'.cleared other hsecond
    · rw [h'.kept other hsecond]
      exact h.cleared other (hgone.resolve_right hsecond)
  · rw [not_or] at hkept
    rw [h'.kept other hkept.2, h.kept other hkept.1]

theorem Cleared.has (h : Cleared gone tree tree') (place : Place) :
    tree'.Has place ↔ tree.Has place ∧ ¬ gone place := by
  rw [Has, Has, h.directories]
  by_cases hgone : gone place
  · rw [h.cleared place hgone]
    simp [hgone]
  · rw [h.kept place hgone]
    simp [hgone]

theorem Cleared.ordinary (h : Cleared gone tree tree') (hordinary : tree.Ordinary) :
    tree'.Ordinary := by
  have hdirectories : tree'.directories ⊆ tree.directories :=
    fun place hmem => ((h.directories place).mp hmem).1
  refine hordinary.of_has (fun place hfile => ?_) hdirectories
  by_cases hgone : gone place
  · rw [h.cleared place hgone] at hfile
    cases hfile
  · rwa [h.kept place hgone] at hfile

/-- Nothing is below a file. -/
theorem cleared_unlink (hplace : tree.locate path = some place)
    (hfile : (tree.files place).isSome) :
    ∃ tree', tree.unlink path = some tree' ∧ Cleared (place <+: ·) tree tree' := by
  have hdirectory : place ∉ tree.directories := by
    intro hmem
    rw [tree.apart place hmem] at hfile
    cases hfile
  refine ⟨tree.clearFile place, ?_, fun other => ?_, fun other hbelow => ?_, fun other hout => ?_⟩
  · rw [unlink, hplace]
    exact if_pos hfile
  · refine (and_iff_left_of_imp fun hmem hbelow => hdirectory ?_).symm
    exact mem_directories_of_above hbelow hmem
  · rw [files_clearFile]
    split
    · rfl
    · rename_i heq
      by_contra hsome
      have hparent := tree.parent other (Option.isSome_iff_ne_none.mpr hsome)
      obtain ⟨rest, rfl⟩ := hbelow
      rcases List.eq_nil_or_concat' rest with rfl | ⟨front, last, rfl⟩
      · exact heq (List.append_nil _)
      · rw [← List.append_assoc, List.dropLast_concat] at hparent
        exact hdirectory (mem_directories_of_above (List.prefix_append _ _) hparent)
  · have hne : other ≠ place := by
      rintro rfl
      exact hout (List.prefix_refl _)
    rw [files_clearFile, if_neg hne]

theorem cleared_rmdir {dirent : Dirent} (hplace : tree.locate path = some place)
    (hmem : place ∈ tree.directories)
    (hempty : ∀ name ∈ dirent.readdir tree place, name = dot ∨ name = dotDot) :
    ∃ tree', tree.rmdir dirent path = some tree' ∧ Cleared (place <+: ·) tree tree' := by
  rw [rmdir]
  split
  · rename_i hnone
    rw [hplace] at hnone
    cases hnone
  · rename_i other hother
    obtain rfl := Option.some.inj (hplace.symm.trans hother)
    refine ⟨_, if_pos ⟨isDirectory_iff.mpr hmem, hempty⟩, fun other => ?_,
      fun other hbelow => if_pos hbelow, fun other hout => if_neg hout⟩
    rw [clearDirectory, List.mem_filter, decide_eq_true_eq]

theorem Leads.locate (h : tree.Leads path place) : tree.locate path = some place :=
  h tree fun _ hmem _ => hmem

theorem not_child_above (place : Place) (name : Bytes) : ¬ place ++ [name] <+: place := by
  intro hbelow
  have hlength := hbelow.length_le
  rw [List.length_append, List.length_singleton] at hlength
  omega

/-- A path into the directory. -/
theorem Leads.child (h : tree.Leads path place) (hmem : place ∈ tree.directories)
    (hname : EntryName name) : tree.Leads (path ++ slash :: name) (place ++ [name]) := by
  intro tree' hkept
  have hplace : tree'.locate path = some place := by
    refine h tree' fun other hother hout => hkept other hother fun hbelow => hout ?_
    exact (List.prefix_append _ _).trans hbelow
  exact locate_child hplace (hkept place hmem (not_child_above place name)) hname

/-- While something below the place is taken away. -/
theorem Leads.cleared (h : tree.Leads path place) (hcleared : Cleared gone tree tree')
    (hgone : ∀ other, gone other → place <+: other) : tree'.Leads path place := by
  intro tree'' hkept
  refine h tree'' fun other hother hout => hkept other ?_ hout
  exact (hcleared.directories other).mpr ⟨hother, fun hother => hout (hgone other hother)⟩

end Clearing

end FileTree

end Lissandra
