import Lissandra.TableCatalog

/-! # Directories that are removed

`remove_directory` goes through the entries of a directory, calls itself for the directories among
them and `unlink` for the files, and then has `rmdir` remove the directory.  In a tree whose entries
have names it always gets to the end, and takes away what is below the directory and nothing else
(`removeDirectory_spec`).
-/
namespace Lissandra
namespace DirectorySetting

open FileTree

variable {setting : DirectorySetting} {tree : FileTree} {place : Place} {path name : Bytes}
  {names : List Bytes} {depth : Nat} {inner : FileTree → Bytes → Int32 × FileTree}

/-- A call that answers 0 and takes away what is below a place. -/
def Removes (place : Place) (tree : FileTree) (result : Int32 × FileTree) : Prop :=
  result.1 = 0 ∧ Cleared (place <+: ·) tree result.2

/-- Directories below the place are nested less deep than this. -/
def Shallow (depth : Nat) (tree : FileTree) (place : Place) : Prop :=
  ∀ other ∈ tree.directories, place <+: other → other.length < place.length + depth

theorem Shallow.child (h : Shallow (depth + 1) tree place) (name : Bytes) :
    Shallow depth tree (place ++ [name]) := by
  intro other hother hbelow
  have hlength := h other hother ((List.prefix_append _ _).trans hbelow)
  rw [List.length_append, List.length_singleton]
  omega

theorem Shallow.cleared {tree' : FileTree} {gone : Place → Prop} (h : Shallow depth tree place)
    (hcleared : Cleared gone tree tree') : Shallow depth tree' place :=
  fun other hother => h other ((hcleared.directories other).mp hother).1

theorem shallow_height (tree : FileTree) (place : Place) :
    Shallow (tree.height + 1) tree place := by
  intro other hother _
  have hlength := length_le_height hother
  omega

/-- One entry. -/
theorem removes_entry (hinner : ∀ tree path place, place ∈ tree.directories →
      Shallow depth tree place → tree.Leads path place → tree.Ordinary →
        Removes place tree (inner tree path))
    (hmem : place ∈ tree.directories) (hshallow : Shallow (depth + 1) tree place)
    (hleads : tree.Leads path place) (hordinary : tree.Ordinary)
    (hhas : tree.Has (place ++ [name])) :
    Removes (place ++ [name]) tree (removeEntry inner tree (path ++ slash :: name)) := by
  have hchild := hleads.child hmem (hordinary.name place name hhas)
  rw [removeEntry, hchild.locate]
  dsimp only
  by_cases hdirectory : place ++ [name] ∈ tree.directories
  · rw [if_pos (isDirectory_iff.mpr hdirectory)]
    exact hinner tree _ _ hdirectory (hshallow.child name) hchild hordinary
  · rw [if_neg fun hmem => hdirectory (isDirectory_iff.mp hmem)]
    obtain ⟨tree', hunlink, hcleared⟩ :=
      cleared_unlink hchild.locate (hhas.resolve_left hdirectory)
    rw [hunlink]
    exact ⟨rfl, hcleared⟩

/-- **The loop**: it does not stop before the end. -/
theorem removeEntries_spec (hinner : ∀ tree path place, place ∈ tree.directories →
      Shallow depth tree place → tree.Leads path place → tree.Ordinary →
        Removes place tree (inner tree path))
    (hmem : place ∈ tree.directories) (hshallow : Shallow (depth + 1) tree place)
    (hleads : tree.Leads path place) (hordinary : tree.Ordinary) (hnodup : names.Nodup)
    (hhas : ∀ name ∈ names, name = dot ∨ name = dotDot ∨ tree.Has (place ++ [name])) :
    (removeEntries inner path names tree).1 = 0 ∧
      Cleared (fun other => ∃ name ∈ names, EntryName name ∧ place ++ [name] <+: other) tree
        (removeEntries inner path names tree).2 := by
  induction names generalizing tree with
  | nil =>
    refine ⟨rfl, fun other => ?_, fun other hgone => ?_, fun other _ => rfl⟩
    · simp [removeEntries]
    · obtain ⟨name, hname, -⟩ := hgone
      cases hname
  | cons name rest ih =>
    obtain ⟨hnew, hnodup⟩ := List.nodup_cons.mp hnodup
    have hrest : ∀ other ∈ rest, other = dot ∨ other = dotDot ∨ tree.Has (place ++ [other]) :=
      fun other hother => hhas other (List.mem_cons_of_mem _ hother)
    rw [removeEntries]
    by_cases hdots : name = dot ∨ name = dotDot
    · rw [if_pos hdots]
      obtain ⟨hresult, hcleared⟩ := ih hmem hshallow hleads hordinary hnodup hrest
      refine ⟨hresult, hcleared.congr fun other => ?_⟩
      rw [List.exists_mem_cons_iff]
      refine (or_iff_right_of_imp fun hboth => ?_).symm
      rcases hdots with heq | heq
      · exact absurd heq hboth.1.ne_dot
      · exact absurd heq hboth.1.ne_dotDot
    · rw [if_neg hdots]
      rw [not_or] at hdots
      have hthere : tree.Has (place ++ [name]) :=
        ((hhas name List.mem_cons_self).resolve_left hdots.1).resolve_left hdots.2
      have hname := hordinary.name place name hthere
      obtain ⟨hresult, hcleared⟩ :=
        removes_entry hinner hmem hshallow hleads hordinary hthere
      dsimp only
      generalize removeEntry inner tree (path ++ slash :: name) = first at hresult hcleared
      obtain ⟨r, next⟩ := first
      obtain rfl : r = 0 := hresult
      rw [if_pos rfl]
      -- The directory and its other entries are still there.
      have hinside : ∀ other, place ++ [name] <+: other → place <+: other :=
        fun other hbelow => (List.prefix_append _ _).trans hbelow
      have hstill : place ∈ next.directories :=
        (hcleared.directories place).mpr ⟨hmem, not_child_above place name⟩
      have hlater : ∀ other ∈ rest, other = dot ∨ other = dotDot ∨ next.Has (place ++ [other]) := by
        intro other hother
        rcases hrest other hother with hdot | hdot | hhas
        · exact Or.inl hdot
        · exact Or.inr (Or.inl hdot)
        · refine Or.inr (Or.inr ((hcleared.has _).mpr ⟨hhas, fun hbelow => hnew ?_⟩))
          have heq := hbelow.eq_of_length (by simp)
          rw [List.singleton_inj.mp (List.append_cancel_left heq)]
          exact hother
      obtain ⟨hlast, hothers⟩ := ih hstill (hshallow.cleared hcleared)
        (hleads.cleared hcleared hinside) (hcleared.ordinary hordinary) hnodup hlater
      refine ⟨hlast, (hcleared.trans hothers).congr fun other => ?_⟩
      rw [List.exists_mem_cons_iff]
      exact or_congr_left (and_iff_right hname).symm

/-- **A directory is removed** with what is below it, and nothing else. -/
theorem removeDirectory_spec (hmem : place ∈ tree.directories)
    (hshallow : Shallow depth tree place) (hleads : tree.Leads path place)
    (hordinary : tree.Ordinary) : Removes place tree (setting.removeDirectory depth tree path) := by
  induction depth generalizing tree path place with
  | zero =>
    have hlength := hshallow place hmem (List.prefix_refl _)
    omega
  | succ depth ih =>
    have hreaddir := fun name => setting.dirent.mem_readdir tree place
      (hordinary.entries_finite place) name
    obtain ⟨hresult, hcleared⟩ := removeEntries_spec
      (fun tree path place hmem hshallow hleads hordinary => ih hmem hshallow hleads hordinary)
      hmem hshallow hleads hordinary (setting.dirent.nodup tree place)
      fun name hname => (hreaddir name).mp hname
    rw [removeDirectory, opendir_of_locate hleads.locate hmem]
    dsimp only
    generalize removeEntries (setting.removeDirectory depth) path
      (setting.dirent.readdir tree place) tree = entries at hresult hcleared
    obtain ⟨r, next⟩ := entries
    obtain rfl : r = 0 := hresult
    rw [if_pos rfl]
    have hinside : ∀ other, (∃ name ∈ setting.dirent.readdir tree place, EntryName name ∧
        place ++ [name] <+: other) → place <+: other := by
      rintro other ⟨name, -, -, hbelow⟩
      exact (List.prefix_append _ _).trans hbelow
    have hstill : place ∈ next.directories := by
      refine (hcleared.directories place).mpr ⟨hmem, ?_⟩
      rintro ⟨name, -, -, hbelow⟩
      exact not_child_above place name hbelow
    have hempty : ∀ name ∈ setting.dirent.readdir next place, name = dot ∨ name = dotDot := by
      intro name hname
      rcases (setting.dirent.mem_readdir next place
        ((hcleared.ordinary hordinary).entries_finite place) name).mp hname with hdot | hdot | hhas
      · exact Or.inl hdot
      · exact Or.inr hdot
      · obtain ⟨hhad, hkept⟩ := (hcleared.has _).mp hhas
        refine absurd ⟨name, (hreaddir name).mpr (Or.inr (Or.inr hhad)), ?_, ?_⟩ hkept
        · exact hordinary.name place name hhad
        · exact List.prefix_refl _
    obtain ⟨tree', hrmdir, hremoved⟩ :=
      cleared_rmdir (hleads.cleared hcleared hinside).locate hstill hempty
    rw [hrmdir]
    refine ⟨rfl, (hcleared.trans hremoved).congr fun other => ?_⟩
    exact or_iff_right_of_imp (hinside other)

end DirectorySetting
end Lissandra
