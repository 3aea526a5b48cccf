import Lissandra.ByteCodec
import Mathlib.Logic.Function.Basic

/-! # A tree of files

Directories and files under a root, and the calls that find them by a path, as a small library:
`mkdir`, a file that is written whole (`fopen` with `wb`, `fwrite`, `fclose`) and one that is read.
A path is taken apart at its slashes and walked from the root on; `.` stays and `..` goes back, and
every directory on the way has to exist.  There are no links, so a place has one name.

A directory that `mkdir` has made is empty, so a file that is written into it is a new one
(`FileTree.files_child`).
-/
namespace Lissandra

/-- The names from the root to a file or a directory. -/
abbrev Place := List Bytes

/-- The root is a directory, and everything is in a directory and is one thing. -/
structure FileTree where
  directories : List Place
  files : Place → Option Bytes
  root : [] ∈ directories
  closed : ∀ place ∈ directories, place.dropLast ∈ directories
  parent : ∀ place, (files place).isSome → place.dropLast ∈ directories
  apart : ∀ place ∈ directories, files place = none

/-! ## Paths -/

/-- `.` and `..`. -/
def dot : Bytes := [46]
def dotDot : Bytes := [46, 46]

/-- `/`. -/
def slash : Byte := 47

/-- The names of a path. -/
def components (path : Bytes) : List Bytes := (path.splitOn slash).filter (· ≠ [])

/-- A name that is not part of the syntax of paths. -/
structure EntryName (name : Bytes) : Prop where
  nonempty : name ≠ []
  noSlash : slash ∉ name
  ne_dot : name ≠ dot
  ne_dotDot : name ≠ dotDot

namespace FileTree
variable (tree : FileTree)

/-- Through the directories of the tree. -/
def walk : Place → List Bytes → Option Place
  | place, [] => some place
  | place, name :: rest =>
    if name = dot then walk place rest
    else if name = dotDot then walk place.dropLast rest
    else if place ++ [name] ∈ tree.directories then walk (place ++ [name]) rest
    else none

/-- The place of a path, which need not exist, in a directory that does. -/
def locate (path : Bytes) : Option Place :=
  match (components path).getLast? with
  | none => none
  | some name =>
    if name = dot ∨ name = dotDot then none
    else (tree.walk [] (components path).dropLast).map (· ++ [name])

section Paths
variable {tree} {tree' : FileTree} {place start : Place} {path name : Bytes}

theorem components_append (hname : EntryName name) :
    components (path ++ slash :: name) = components path ++ [name] := by
  have hone : name.splitOn slash = [name] := List.splitOn_eq_singleton hname.noSlash
  rw [components, List.splitOn_append_cons_self, List.filter_append, hone,
    List.filter_cons_of_pos (by simpa using hname.nonempty)]
  rfl

theorem walk_append (front back : List Bytes) :
    tree.walk start (front ++ back) = (tree.walk start front).bind fun place =>
      tree.walk place back := by
  induction front generalizing start with
  | nil => rfl
  | cons name front ih =>
    rw [List.cons_append, walk, walk]
    split
    · exact ih
    · split
      · exact ih
      · split
        · exact ih
        · rfl

/-- A walk ends in a directory. -/
theorem walk_mem {names : List Bytes} (hstart : start ∈ tree.directories)
    (h : tree.walk start names = some place) : place ∈ tree.directories := by
  induction names generalizing start with
  | nil =>
    obtain rfl := Option.some.inj h
    exact hstart
  | cons name names ih =>
    rw [walk] at h
    split at h
    · exact ih hstart h
    · split at h
      · exact ih (tree.closed start hstart) h
      · split at h
        · rename_i hmem
          exact ih hmem h
        · cases h

/-- More directories do not change a walk. -/
theorem walk_mono {names : List Bytes} (hsub : tree.directories ⊆ tree'.directories)
    (h : tree.walk start names = some place) : tree'.walk start names = some place := by
  induction names generalizing start with
  | nil => exact h
  | cons name names ih =>
    rw [walk] at h ⊢
    split at h
    · rename_i hdot
      rw [if_pos hdot]
      exact ih h
    · rename_i hdot
      rw [if_neg hdot]
      split at h
      · rename_i hdotDot
        rw [if_pos hdotDot]
        exact ih h
      · rename_i hdotDot
        rw [if_neg hdotDot]
        split at h
        · rename_i hmem
          rw [if_pos (hsub hmem)]
          exact ih h
        · cases h

theorem locate_eq_some (h : tree.locate path = some place) :
    ∃ directory name, (components path).getLast? = some name ∧ ¬ (name = dot ∨ name = dotDot) ∧
      tree.walk [] (components path).dropLast = some directory ∧ place = directory ++ [name] := by
  rw [locate] at h
  split at h
  · cases h
  · rename_i name hlast
    split at h
    · cases h
    · rename_i hname
      obtain ⟨directory, hwalk, rfl⟩ := Option.map_eq_some_iff.mp h
      exact ⟨directory, name, hlast, hname, hwalk, rfl⟩

theorem locate_of_walk {directory : Place} (hlast : (components path).getLast? = some name)
    (hname : ¬ (name = dot ∨ name = dotDot))
    (hwalk : tree.walk [] (components path).dropLast = some directory) :
    tree.locate path = some (directory ++ [name]) := by
  rw [locate, hlast]
  dsimp only
  rw [if_neg hname, hwalk]
  rfl

theorem locate_mono (hsub : tree.directories ⊆ tree'.directories)
    (h : tree.locate path = some place) : tree'.locate path = some place := by
  obtain ⟨directory, name, hlast, hname, hwalk, rfl⟩ := locate_eq_some h
  exact locate_of_walk hlast hname (walk_mono hsub hwalk)

/-- What a path names is in a directory. -/
theorem locate_parent (h : tree.locate path = some place) : place.dropLast ∈ tree.directories := by
  obtain ⟨directory, name, -, -, hwalk, rfl⟩ := locate_eq_some h
  rw [List.dropLast_concat]
  exact walk_mem tree.root hwalk

/-- The entries of a directory that a path names. -/
theorem locate_child (h : tree.locate path = some place) (hmem : place ∈ tree.directories)
    (hname : EntryName name) :
    tree.locate (path ++ slash :: name) = some (place ++ [name]) := by
  obtain ⟨directory, last, hlast, hlastName, hwalk, rfl⟩ := locate_eq_some h
  have hnames := @components_append path name hname
  have hsplit : components path = (components path).dropLast ++ [last] := by
    obtain ⟨front, hfront⟩ := List.getLast?_eq_some_iff.mp hlast
    rw [hfront, List.dropLast_concat]
  apply locate_of_walk
  · rw [hnames, List.getLast?_concat]
  · rintro (heq | heq)
    · exact hname.ne_dot heq
    · exact hname.ne_dotDot heq
  · rw [hnames, List.dropLast_concat, hsplit, walk_append, hwalk, Option.bind_some, walk,
      if_neg fun heq => hlastName (Or.inl heq), if_neg fun heq => hlastName (Or.inr heq),
      if_pos hmem]
    rfl

end Paths

/-! ## Directories and files -/

/-- A new directory in one that exists. -/
def addDirectory (place : Place) (hparent : place.dropLast ∈ tree.directories)
    (hfile : tree.files place = none) : FileTree where
  directories := place :: tree.directories
  files := tree.files
  root := List.mem_cons_of_mem _ tree.root
  closed other hother := by
    rcases List.mem_cons.mp hother with rfl | hother
    · exact List.mem_cons_of_mem _ hparent
    · exact List.mem_cons_of_mem _ (tree.closed other hother)
  parent other hother := List.mem_cons_of_mem _ (tree.parent other hother)
  apart other hother := by
    rcases List.mem_cons.mp hother with rfl | hother
    · exact hfile
    · exact tree.apart other hother

/-- What a file contains. -/
def setFile (place : Place) (content : Bytes) (hparent : place.dropLast ∈ tree.directories)
    (hdirectory : place ∉ tree.directories) : FileTree where
  directories := tree.directories
  files := Function.update tree.files place (some content)
  root := tree.root
  closed := tree.closed
  parent other hother := by
    by_cases heq : other = place
    · rw [heq]
      exact hparent
    · rw [Function.update_of_ne heq] at hother
      exact tree.parent other hother
  apart other hother := by
    have hne : other ≠ place := fun heq => hdirectory (heq ▸ hother)
    rw [Function.update_of_ne hne]
    exact tree.apart other hother

/-- `mkdir`. -/
def mkdir (path : Bytes) : Option FileTree :=
  match hplace : tree.locate path with
  | none => none
  | some place =>
    if hfree : place ∉ tree.directories ∧ tree.files place = none then
      some (tree.addDirectory place (locate_parent hplace) hfree.2)
    else none

/-- `fopen(path, "wb")`, a `fwrite` of the content, and `fclose`. -/
def writeFile (path content : Bytes) : Option FileTree :=
  match hplace : tree.locate path with
  | none => none
  | some place =>
    if hdirectory : place ∈ tree.directories then none
    else some (tree.setFile place content (locate_parent hplace) hdirectory)

/-- `fopen(path, "rb")`, and all that `fread` can read. -/
def readFile (path : Bytes) : Option Bytes := tree.locate path >>= tree.files

section Files
variable {tree} {tree' : FileTree} {place : Place} {path content : Bytes}

/-- What a `mkdir` that succeeds does. -/
theorem mkdir_eq_some (h : tree.mkdir path = some tree') :
    ∃ place, tree.locate path = some place ∧ place ∉ tree.directories ∧
      tree.files place = none ∧ tree'.directories = place :: tree.directories ∧
      tree'.files = tree.files := by
  rw [mkdir] at h
  split at h
  · cases h
  · rename_i place hplace
    split at h
    · rename_i hfree
      obtain rfl := Option.some.inj h
      exact ⟨place, hplace, hfree.1, hfree.2, rfl, rfl⟩
    · cases h

/-- A file is written wherever there is no directory. -/
theorem writeFile_of_locate (hplace : tree.locate path = some place)
    (hdirectory : place ∉ tree.directories) (content : Bytes) :
    ∃ tree', tree.writeFile path content = some tree' ∧ tree'.directories = tree.directories ∧
      tree'.files = Function.update tree.files place (some content) := by
  rw [writeFile]
  split
  · rename_i hnone
    rw [hplace] at hnone
    cases hnone
  · rename_i other hother
    obtain rfl := Option.some.inj (hplace.symm.trans hother)
    rw [dif_neg hdirectory]
    exact ⟨_, rfl, rfl, rfl⟩

theorem readFile_of_locate (hplace : tree.locate path = some place) :
    tree.readFile path = tree.files place := by
  rw [readFile, hplace]
  rfl

/-- Where a file can be read its path has a place, which is no directory. -/
theorem locate_of_readFile (h : tree.readFile path = some content) :
    ∃ place, tree.locate path = some place ∧ tree.files place = some content ∧
      place ∉ tree.directories := by
  obtain ⟨place, hplace, hfile⟩ := Option.bind_eq_some_iff.mp h
  refine ⟨place, hplace, hfile, fun hmem => ?_⟩
  rw [tree.apart place hmem] at hfile
  cases hfile

/-- There are no files in what is not a directory. -/
theorem files_child (h : place ∉ tree.directories) (name : Bytes) :
    tree.files (place ++ [name]) = none := by
  by_contra hfile
  have hparent := tree.parent (place ++ [name]) (Option.isSome_iff_ne_none.mpr hfile)
  rw [List.dropLast_concat] at hparent
  exact h hparent

theorem not_mem_directories_child (h : place ∉ tree.directories) (name : Bytes) :
    place ++ [name] ∉ tree.directories := by
  intro hmem
  have hparent := tree.closed (place ++ [name]) hmem
  rw [List.dropLast_concat] at hparent
  exact h hparent

/-! ## Several files in one directory -/

/-- Files that are written one after the other, with their names and contents. -/
def writeEntries (tree : FileTree) (path : Bytes) : List (Bytes × Bytes) → Option FileTree
  | [] => some tree
  | (name, content) :: rest => do
    let tree ← tree.writeFile (path ++ slash :: name) content
    writeEntries tree path rest

/-- The directory has the files with these names and contents, and all else is as it was. -/
structure HasEntries (tree tree' : FileTree) (place : Place) (entries : List (Bytes × Bytes)) :
    Prop where
  directories : tree'.directories = tree.directories
  written : ∀ entry ∈ entries, tree'.files (place ++ [entry.1]) = some entry.2
  kept : ∀ other, (∀ entry ∈ entries, other ≠ place ++ [entry.1]) →
    tree'.files other = tree.files other

theorem writeEntries_spec {entries : List (Bytes × Bytes)} (hplace : tree.locate path = some place)
    (hmem : place ∈ tree.directories) (hnames : ∀ entry ∈ entries, EntryName entry.1)
    (hfree : ∀ name, place ++ [name] ∉ tree.directories)
    (hnodup : (entries.map Prod.fst).Nodup) :
    ∃ tree', tree.writeEntries path entries = some tree' ∧ HasEntries tree tree' place entries := by
  induction entries generalizing tree with
  | nil => exact ⟨tree, rfl, rfl, fun _ hentry => absurd hentry List.not_mem_nil, fun _ _ => rfl⟩
  | cons entry entries ih =>
    obtain ⟨name, content⟩ := entry
    obtain ⟨hnot, hnodup⟩ := List.nodup_cons.mp hnodup
    have hchild := locate_child hplace hmem (hnames _ List.mem_cons_self)
    obtain ⟨next, hwrite, hdirectories, hfiles⟩ := writeFile_of_locate hchild (hfree name) content
    have hsub : tree.directories ⊆ next.directories := hdirectories.symm ▸ List.Subset.refl _
    obtain ⟨tree', hrun, hentries⟩ := @ih next (locate_mono hsub hplace) (hdirectories ▸ hmem)
      (fun entry hentry => hnames entry (List.mem_cons_of_mem _ hentry)) (hdirectories ▸ hfree)
      hnodup
    refine ⟨tree', ?_, hentries.directories.trans hdirectories, ?_, fun other hother => ?_⟩
    · rw [writeEntries, hwrite]
      exact hrun
    · intro entry hentry
      rcases List.mem_cons.mp hentry with rfl | hentry
      · -- the names behind it are other ones
        rw [hentries.kept, hfiles, Function.update_self]
        intro later hlater heq
        apply hnot
        rw [List.append_cancel_left_eq, List.cons.injEq] at heq
        rw [heq.1]
        exact List.mem_map_of_mem hlater
      · exact hentries.written entry hentry
    · rw [hentries.kept other fun entry hentry => hother entry (List.mem_cons_of_mem _ hentry),
        hfiles, Function.update_of_ne (hother _ List.mem_cons_self)]

end Files

end FileTree

end Lissandra
