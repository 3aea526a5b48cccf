import Lissandra.DirectoryRemoval
import Lissandra.TablesDirectory

/-! # Which tables exist

The entries of `Tables` are the tables that were created and not dropped since, as long as nothing
else makes entries there.  Two kinds of names do.  `.` and `..` are entries of every directory, so
an INSERT finds them and the next dump writes an archive into `Tables` itself; and a CREATE of a
name with a `/` makes a directory in another place than the one its name is looked for.

In runs without them the archives of dumps and compactions stay below the directories of the tables
(`KeepsTables`), a CREATE adds one entry and a DROP takes one away, so the entries say what the
answers said (`Catalogued`).
-/
namespace Lissandra

/-! ## What the answers say -/

section Answers
variable {answers : List CatalogAnswer} {answer : CatalogAnswer} {tableName : Bytes}

/-- Names are compared ignoring case. -/
theorem isTable_congr {other : Bytes} (h : toUppercase tableName = toUppercase other) :
    IsTable answers tableName ↔ IsTable answers other := by
  rw [IsTable, IsTable, h]

/-- The last answer decides, or those before it. -/
theorem isTable_concat : IsTable (answers ++ [answer]) tableName ↔
    (∃ created, answer = .create created 0 ∧ toUppercase created = toUppercase tableName) ∨
      IsTable answers tableName ∧
        ∀ dropped, answer = .drop dropped 0 → toUppercase dropped ≠ toUppercase tableName := by
  constructor
  · rintro ⟨before, created, after, hanswers, hname, hafter⟩
    rcases List.eq_nil_or_concat' after with rfl | ⟨front, last, rfl⟩
    · obtain ⟨-, hlast⟩ := List.append_inj' hanswers rfl
      exact Or.inl ⟨created, List.singleton_inj.mp hlast, hname⟩
    · rw [← List.cons_append, ← List.append_assoc] at hanswers
      obtain ⟨rfl, hlast⟩ := List.append_inj' hanswers rfl
      obtain rfl := List.singleton_inj.mp hlast
      refine Or.inr ⟨⟨before, created, front, rfl, hname, fun dropped hdropped => ?_⟩, ?_⟩
      · exact hafter dropped (List.mem_append_left _ hdropped)
      · rintro dropped rfl
        exact hafter dropped (List.mem_append_right _ List.mem_cons_self)
  · rintro (⟨created, rfl, hname⟩ | ⟨⟨before, created, after, rfl, hname, hafter⟩, hlast⟩)
    · exact ⟨answers, created, [], rfl, hname, fun _ hdropped => absurd hdropped List.not_mem_nil⟩
    · refine ⟨before, created, after ++ [answer], by simp, hname, fun dropped hdropped => ?_⟩
      rcases List.mem_append.mp hdropped with hdropped | hdropped
      · exact hafter dropped hdropped
      · exact hlast dropped (List.mem_singleton.mp hdropped).symm

/-- An answer that is not 0 says nothing. -/
theorem isTable_concat_refused (h : ∀ name, answer ≠ .create name 0 ∧ answer ≠ .drop name 0) :
    IsTable (answers ++ [answer]) tableName ↔ IsTable answers tableName := by
  rw [isTable_concat]
  constructor
  · rintro (⟨created, heq, -⟩ | ⟨htable, -⟩)
    · exact absurd heq (h created).1
    · exact htable
  · exact fun htable => Or.inr ⟨htable, fun dropped heq => absurd heq (h dropped).2⟩

theorem isTable_concat_create (created : Bytes) :
    IsTable (answers ++ [.create created 0]) tableName ↔
      toUppercase created = toUppercase tableName ∨ IsTable answers tableName := by
  rw [isTable_concat]
  constructor
  · rintro (⟨other, heq, hname⟩ | ⟨htable, -⟩)
    · obtain ⟨rfl, -⟩ := CatalogAnswer.create.inj heq
      exact Or.inl hname
    · exact Or.inr htable
  · rintro (hname | htable)
    · exact Or.inl ⟨created, rfl, hname⟩
    · exact Or.inr ⟨htable, fun _ heq => by cases heq⟩

theorem isTable_concat_drop (dropped : Bytes) :
    IsTable (answers ++ [.drop dropped 0]) tableName ↔
      toUppercase dropped ≠ toUppercase tableName ∧ IsTable answers tableName := by
  rw [isTable_concat]
  constructor
  · rintro (⟨_, heq, -⟩ | ⟨htable, hlast⟩)
    · cases heq
    · exact ⟨hlast dropped rfl, htable⟩
  · rintro ⟨hname, htable⟩
    refine Or.inr ⟨htable, fun other heq => ?_⟩
    obtain ⟨rfl, -⟩ := CatalogAnswer.drop.inj heq
    exact hname

end Answers

/-! ## Names -/

/-- `Tables`, `Bloques`, `Metadata` and `Bitmap.bin`. -/
def tablesEntry : Bytes := [84, 97, 98, 108, 101, 115]
def blocksEntry : Bytes := [66, 108, 111, 113, 117, 101, 115]
def metadataEntry : Bytes := [77, 101, 116, 97, 100, 97, 116, 97]
def bitmapEntry : Bytes := [66, 105, 116, 109, 97, 112, 46, 98, 105, 110]

section Names
variable {name : Bytes}

theorem entryName_bitmapEntry : EntryName bitmapEntry := by decide

theorem entryName_getTmpcName : EntryName getTmpcName := by decide

theorem entryName_getTmpName (tmpNumber : Nat) : EntryName (getTmpName tmpNumber) := by
  refine ⟨List.cons_ne_nil _ _, ?_, fun heq => ?_, fun heq => ?_⟩
  · rw [getTmpName, List.mem_cons, List.mem_append, not_or, not_or]
    exact ⟨by decide, not_mem_decimal (by decide), by decide⟩
  · exact absurd (List.cons.inj heq).1 (by decide)
  · exact absurd (List.cons.inj heq).1 (by decide)

/-- The files of archives have other names than the metadata. -/
theorem archiveName_spec (setting : DirectorySetting) (tree : FileTree) (directory : Bytes)
    (archiveFlag : ArchiveFlag) :
    EntryName (setting.archiveName tree directory archiveFlag) ∧
      setting.archiveName tree directory archiveFlag ≠ metadataName := by
  cases archiveFlag with
  | tmpc => exact ⟨entryName_getTmpcName, show getTmpcName ≠ metadataName by decide⟩
  | tmp => exact ⟨entryName_getTmpName _, fun heq => absurd (List.cons.inj heq).1 (by decide)⟩
  | partition partitionNumber =>
    exact ⟨entryName_partitionName _, partitionName_ne_metadataName _⟩

end Names

/-! ## Places -/

/-- The directories under the mount point in a tree without tables: what later trees still have. -/
structure Mounts (setting : DirectorySetting) (tables blocks metadata : Place) (base : FileTree) :
    Prop where
  locate_tables : base.locate (setting.mountPoint ++ tablesEntry) = some tables
  locate_blocks : base.locate (setting.mountPoint ++ blocksEntry) = some blocks
  locate_metadata : base.locate (setting.mountPoint ++ metadataEntry) = some metadata
  tables_mem : tables ∈ base.directories
  blocks_mem : blocks ∈ base.directories
  metadata_mem : metadata ∈ base.directories
  blocks_ne : blocks ≠ tables
  metadata_ne : metadata ≠ tables
  empty : ∀ name, ¬ base.Has (tables ++ [name])

/-- A place that is no entry of `Tables`, and not the metadata of one. -/
structure Elsewhere (tables place : Place) : Prop where
  ne_entry : ∀ name, place ≠ tables ++ [name]
  ne_metadata : ∀ name, place ≠ tables ++ [name] ++ [metadataName]

/-- The entries of `Tables` and their metadata are what they were. -/
structure KeepsTables (tables : Place) (tree tree' : FileTree) : Prop where
  directories : tree'.directories = tree.directories
  files : ∀ place, ¬ Elsewhere tables place → tree'.files place = tree.files place
  ordinary : tree.Ordinary → tree'.Ordinary

section Keeping
variable {setting : DirectorySetting} {tables blocks metadata place : Place}
  {base tree tree' tree'' : FileTree} {path content name : Bytes}

theorem KeepsTables.refl (tree : FileTree) : KeepsTables tables tree tree :=
  ⟨rfl, fun _ _ => rfl, id⟩

theorem KeepsTables.trans (h : KeepsTables tables tree tree')
    (h' : KeepsTables tables tree' tree'') : KeepsTables tables tree tree'' :=
  ⟨h'.directories.trans h.directories, fun place hplace =>
    (h'.files place hplace).trans (h.files place hplace), h'.ordinary ∘ h.ordinary⟩

theorem keepsTables_of_update {value : Option Bytes} (helsewhere : Elsewhere tables place)
    (hdirectories : tree'.directories = tree.directories)
    (hfiles : tree'.files = Function.update tree.files place value)
    (hordinary : tree.Ordinary → tree'.Ordinary) : KeepsTables tables tree tree' := by
  refine ⟨hdirectories, fun other hother => ?_, hordinary⟩
  have hne : other ≠ place := by
    rintro rfl
    exact hother helsewhere
  rw [hfiles, Function.update_of_ne hne]

theorem keepsTables_writeFile (helsewhere : ∀ place ∈ tree.locate path, Elsewhere tables place)
    (h : tree.writeFile path content = some tree') : KeepsTables tables tree tree' := by
  obtain ⟨place, hplace, hdirectories, hfiles⟩ := FileTree.writeFile_eq_some h
  exact keepsTables_of_update (helsewhere place hplace) hdirectories hfiles fun hordinary =>
    hordinary.writeFile h

theorem keepsTables_removeFile (helsewhere : ∀ place ∈ tree.locate path, Elsewhere tables place) :
    KeepsTables tables tree (tree.removeFile path) := by
  have hordinary : tree.Ordinary → (tree.removeFile path).Ordinary :=
    fun hordinary => hordinary.removeFile path
  rw [FileTree.removeFile] at hordinary ⊢
  split
  · exact .refl tree
  · rename_i place hplace
    rw [hplace] at hordinary
    exact keepsTables_of_update (helsewhere place hplace) rfl rfl hordinary

/-- Something that is done for each element of a list. -/
theorem keepsTables_foldlM {α : Type} {f : FileTree → α → Option FileTree} {l : List α}
    (hbase : base.directories ⊆ tree.directories)
    (hone : ∀ a ∈ l, ∀ tree tree', base.directories ⊆ tree.directories → f tree a = some tree' →
      KeepsTables tables tree tree') (h : l.foldlM f tree = some tree') :
    KeepsTables tables tree tree' := by
  induction l generalizing tree with
  | nil =>
    obtain rfl := Option.some.inj h
    exact .refl tree
  | cons a l ih =>
    rw [List.foldlM_cons] at h
    obtain ⟨middle, hfirst, hrest⟩ := Option.bind_eq_some_iff.mp h
    have hkeeps := hone a List.mem_cons_self tree middle hbase hfirst
    refine hkeeps.trans (ih (hkeeps.directories ▸ hbase) ?_ hrest)
    exact fun other hother => hone other (List.mem_cons_of_mem _ hother)

/-! ## What is written elsewhere -/

theorem Mounts.locate_bitmap (hmount : Mounts setting tables blocks metadata base)
    (hbase : base.directories ⊆ tree.directories) :
    tree.locate (getBitmapDirectory setting.mountPoint) = some (metadata ++ [bitmapEntry]) := by
  have hpath : getBitmapDirectory setting.mountPoint =
      setting.mountPoint ++ metadataEntry ++ slash :: bitmapEntry := by
    rw [List.append_assoc]
    rfl
  rw [hpath]
  exact FileTree.locate_child (FileTree.locate_mono hbase hmount.locate_metadata)
    (hbase hmount.metadata_mem) entryName_bitmapEntry

theorem Mounts.locate_block (hmount : Mounts setting tables blocks metadata base)
    (hbase : base.directories ⊆ tree.directories) (blockNumber : Nat) :
    tree.locate (setting.createBlockDirectory blockNumber) =
      some (blocks ++ [partitionName blockNumber]) := by
  have hpath : setting.createBlockDirectory blockNumber =
      setting.mountPoint ++ blocksEntry ++ slash :: partitionName blockNumber := by
    rw [DirectorySetting.createBlockDirectory, List.append_assoc, List.append_assoc]
    rfl
  rw [hpath]
  exact FileTree.locate_child (FileTree.locate_mono hbase hmount.locate_blocks)
    (hbase hmount.blocks_mem) (entryName_partitionName _)

theorem tableDirectory_eq (mountPoint name : Bytes) :
    tableDirectory mountPoint name = mountPoint ++ tablesEntry ++ slash :: name := by
  rw [tableDirectory, List.append_assoc, List.append_assoc]
  rfl

theorem Mounts.locate_table (hmount : Mounts setting tables blocks metadata base)
    (hbase : base.directories ⊆ tree.directories) (hname : EntryName name) :
    tree.locate (tableDirectory setting.mountPoint name) = some (tables ++ [name]) := by
  rw [tableDirectory_eq]
  exact FileTree.locate_child (FileTree.locate_mono hbase hmount.locate_tables)
    (hbase hmount.tables_mem) hname

/-- The directory of a table can be removed through its path. -/
theorem Mounts.leads_table (hmount : Mounts setting tables blocks metadata base)
    (hbase : base.directories ⊆ tree.directories) (hname : EntryName name) :
    tree.Leads (tableDirectory setting.mountPoint name) (tables ++ [name]) := by
  intro tree' hkept
  refine hmount.locate_table (fun place hplace => hkept place (hbase hplace) fun hbelow => ?_) hname
  exact hmount.empty name (Or.inl (FileTree.mem_directories_of_above hbelow hplace))

/-- A file of a table has a place only while the table has a directory. -/
theorem Mounts.locate_file (hmount : Mounts setting tables blocks metadata base)
    (hbase : base.directories ⊆ tree.directories) (hname : EntryName name) {file : Bytes}
    (hfile : EntryName file) :
    tree.locate (tableDirectory setting.mountPoint name ++ slash :: file) =
      if tables ++ [name] ∈ tree.directories then some (tables ++ [name] ++ [file]) else none := by
  rw [tableDirectory_eq]
  exact FileTree.locate_grandchild (FileTree.locate_mono hbase hmount.locate_tables)
    (hbase hmount.tables_mem) hname hfile

theorem elsewhere_of_ne {directory : Place} {file : Bytes} (hdirectory : directory ≠ tables)
    (hfile : file ≠ metadataName) : Elsewhere tables (directory ++ [file]) where
  ne_entry _ heq := hdirectory (List.append_inj' heq rfl).1
  ne_metadata _ heq := hfile (List.singleton_inj.mp (List.append_inj' heq rfl).2)

theorem elsewhere_file {file : Bytes} (hfile : file ≠ metadataName) :
    Elsewhere tables (tables ++ [name] ++ [file]) := by
  refine elsewhere_of_ne (fun heq => ?_) hfile
  have hlength := congrArg List.length heq
  simp at hlength

theorem Mounts.elsewhere_bitmap (hmount : Mounts setting tables blocks metadata base)
    (hbase : base.directories ⊆ tree.directories) :
    ∀ place ∈ tree.locate (getBitmapDirectory setting.mountPoint), Elsewhere tables place := by
  rintro place hplace
  obtain rfl := Option.some.inj ((hmount.locate_bitmap hbase).symm.trans hplace)
  exact elsewhere_of_ne hmount.metadata_ne (by decide)

theorem Mounts.elsewhere_block (hmount : Mounts setting tables blocks metadata base)
    (hbase : base.directories ⊆ tree.directories) (blockNumber : Nat) :
    ∀ place ∈ tree.locate (setting.createBlockDirectory blockNumber), Elsewhere tables place := by
  rintro place hplace
  obtain rfl := Option.some.inj ((hmount.locate_block hbase blockNumber).symm.trans hplace)
  exact elsewhere_of_ne hmount.blocks_ne (partitionName_ne_metadataName _)

theorem Mounts.elsewhere_file (hmount : Mounts setting tables blocks metadata base)
    (hbase : base.directories ⊆ tree.directories) (hname : EntryName name) {file : Bytes}
    (hfile : EntryName file) (hne : file ≠ metadataName) :
    ∀ place ∈ tree.locate (tableDirectory setting.mountPoint name ++ slash :: file),
      Elsewhere tables place := by
  intro place hplace
  rw [hmount.locate_file hbase hname hfile] at hplace
  split at hplace
  · obtain rfl := Option.some.inj hplace
    exact Lissandra.elsewhere_file hne
  · cases hplace

/-! ## Blocks and archives -/

theorem Mounts.writeBlock (hmount : Mounts setting tables blocks metadata base)
    (hbase : base.directories ⊆ tree.directories) {block : BlockWrite}
    (h : setting.writeBlock tree block = some tree') : KeepsTables tables tree tree' := by
  obtain ⟨middle, hbitmap, hblock⟩ := Option.bind_eq_some_iff.mp h
  have hkeeps := keepsTables_writeFile (hmount.elsewhere_bitmap hbase) hbitmap
  refine hkeeps.trans (keepsTables_writeFile ?_ hblock)
  exact hmount.elsewhere_block (hkeeps.directories ▸ hbase) block.number

theorem Mounts.freeBlock (hmount : Mounts setting tables blocks metadata base)
    (hbase : base.directories ⊆ tree.directories) {blockNumber : Nat}
    (h : setting.freeBlock tree blockNumber = some tree') : KeepsTables tables tree tree' := by
  have hkeeps := keepsTables_removeFile (hmount.elsewhere_block hbase blockNumber)
  refine hkeeps.trans (keepsTables_writeFile ?_ h)
  exact hmount.elsewhere_block (hkeeps.directories ▸ hbase) blockNumber

theorem Mounts.createFsArchive (hmount : Mounts setting tables blocks metadata base)
    (hbase : base.directories ⊆ tree.directories) (hname : EntryName (toUppercase name))
    {archiveFlag : ArchiveFlag}
    (h : setting.createFsArchive tree name content archiveFlag = some tree') :
    KeepsTables tables tree tree' := by
  obtain ⟨hfile, hne⟩ := archiveName_spec setting tree
    (tableDirectory setting.mountPoint (toUppercase name)) archiveFlag
  exact keepsTables_writeFile (hmount.elsewhere_file hbase hname hfile hne) h

theorem Mounts.writeArchive (hmount : Mounts setting tables blocks metadata base)
    (hbase : base.directories ⊆ tree.directories) (hname : EntryName (toUppercase name))
    {archive : ArchiveWrite} {archiveFlag : ArchiveFlag}
    (h : setting.writeArchive tree name archive archiveFlag = some tree') :
    KeepsTables tables tree tree' := by
  obtain ⟨middle, hblocks, harchive⟩ := Option.bind_eq_some_iff.mp h
  have hkeeps := keepsTables_foldlM hbase
    (fun block _ tree tree' hbase hblock => hmount.writeBlock hbase hblock) hblocks
  exact hkeeps.trans (hmount.createFsArchive (hkeeps.directories ▸ hbase) hname harchive)

theorem Mounts.destroyAllTmps (hmount : Mounts setting tables blocks metadata base)
    (hbase : base.directories ⊆ tree.directories) (hname : EntryName name)
    (turns tmpNumber : Nat) :
    KeepsTables tables tree (setting.destroyAllTmps (tableDirectory setting.mountPoint name) turns
      tmpNumber tree) := by
  induction turns generalizing tmpNumber tree with
  | zero => exact .refl tree
  | succ turns ih =>
    rw [DirectorySetting.destroyAllTmps]
    split
    · have hkeeps := keepsTables_removeFile (hmount.elsewhere_file hbase hname
        (entryName_getTmpName tmpNumber) fun heq => absurd (List.cons.inj heq).1 (by decide))
      exact hkeeps.trans (ih (hkeeps.directories ▸ hbase) (tmpNumber + 1))
    · exact .refl tree

theorem Mounts.startCompaction (hmount : Mounts setting tables blocks metadata base)
    (hbase : base.directories ⊆ tree.directories) (hname : EntryName name)
    (hupper : toUppercase name = name) {stored : StoredMetadata} {writes : CompactionWrites}
    {tmpDestroyFlag : Bool}
    (h : setting.startCompaction tree name stored writes tmpDestroyFlag = some tree') :
    KeepsTables tables tree tree' := by
  obtain ⟨freed, hfreed, h⟩ := Option.bind_eq_some_iff.mp h
  obtain ⟨written, hbitmap, hpartitions⟩ := Option.bind_eq_some_iff.mp h
  have hkeeps₁ := keepsTables_foldlM hbase
    (fun blockNumber _ tree tree' hbase hblock => hmount.freeBlock hbase hblock) hfreed
  have hkeeps₂ : KeepsTables tables freed (if tmpDestroyFlag then
      setting.destroyAllTmps (tableDirectory setting.mountPoint name)
        (setting.entriesOf freed (tableDirectory setting.mountPoint name)) 1 freed
      else freed) := by
    split
    · exact hmount.destroyAllTmps (hkeeps₁.directories ▸ hbase) hname _ _
    · exact .refl freed
  have hkeeps₁₂ := hkeeps₁.trans hkeeps₂
  have hkeeps₃ := hkeeps₁₂.trans (keepsTables_writeFile
    (hmount.elsewhere_bitmap (hkeeps₁₂.directories ▸ hbase)) hbitmap)
  have hkeeps₄ := hkeeps₃.trans (keepsTables_removeFile (hmount.elsewhere_file
    (hkeeps₃.directories ▸ hbase) hname entryName_getTmpcName (by decide)))
  refine hkeeps₄.trans (keepsTables_foldlM (hkeeps₄.directories ▸ hbase) ?_ hpartitions)
  intro i _ tree tree' hbase harchive
  exact hmount.writeArchive hbase (hupper.symm ▸ hname) harchive

/-- **A compaction changes no entry.** -/
theorem Mounts.compaction (hmount : Mounts setting tables blocks metadata base)
    (hbase : base.directories ⊆ tree.directories) (hname : EntryName name)
    (hupper : toUppercase name = name) {writes : CompactionWrites}
    (h : setting.compaction name writes tree = some tree') : KeepsTables tables tree tree' := by
  rw [DirectorySetting.compaction] at h
  split at h
  · obtain ⟨stored, -, h⟩ := Option.bind_eq_some_iff.mp h
    split at h
    · exact hmount.startCompaction hbase hname hupper h
    · split at h
      · obtain ⟨middle, htmpc, hstart⟩ := Option.bind_eq_some_iff.mp h
        have hkeeps := hmount.createFsArchive hbase (hupper.symm ▸ hname) htmpc
        exact hkeeps.trans
          (hmount.startCompaction (hkeeps.directories ▸ hbase) hname hupper hstart)
      · obtain rfl := Option.some.inj h
        exact .refl tree
  · obtain rfl := Option.some.inj h
    exact .refl tree

end Keeping

/-! ## The entries are the tables -/

/-- The entries of `Tables` are the tables, each with metadata that can be read, and the names in
`mem_table` and of the threads are names that a table can have. -/
structure Catalogued (tables : Place) (base : FileTree) (history : CatalogHistory) : Prop where
  base : base.directories ⊆ history.1.tree.directories
  entries : ∀ name, tables ++ [name] ∈ history.1.tree.directories ↔
    IsTable history.2 name ∧ toUppercase name = name
  names : ∀ name, tables ++ [name] ∈ history.1.tree.directories → EntryName name
  files : ∀ name, history.1.tree.files (tables ++ [name]) = none
  metadata : ∀ name, tables ++ [name] ∈ history.1.tree.directories → ∃ content stored,
    history.1.tree.files (tables ++ [name] ++ [metadataName]) = some content ∧
      readMetadata content = some stored
  memTable : ∀ table ∈ history.1.memTable, EntryName (toUppercase table.name)
  states : ∀ state ∈ history.1.tableStateList,
    EntryName state.name ∧ toUppercase state.name = state.name
  ordinary : history.1.tree.Ordinary

section Catalog
variable {setting : DirectorySetting} {tables blocks metadata : Place} {base tree' : FileTree}
  {s : MountedTables} {answers : List CatalogAnswer} {name : Bytes}

/-- What keeps the tables keeps all this. -/
theorem Catalogued.keeps (h : Catalogued tables base (s, answers))
    (hkeeps : KeepsTables tables s.tree tree') :
    Catalogued tables base ({ s with tree := tree' }, answers) := by
  obtain ⟨hdirectories, hfiles, hordinary⟩ := hkeeps
  have hentry : ∀ name, tree'.files (tables ++ [name]) = s.tree.files (tables ++ [name]) :=
    fun name => hfiles _ fun helsewhere => helsewhere.ne_entry name rfl
  have hstored : ∀ name, tree'.files (tables ++ [name] ++ [metadataName]) =
      s.tree.files (tables ++ [name] ++ [metadataName]) :=
    fun name => hfiles _ fun helsewhere => helsewhere.ne_metadata name rfl
  refine ⟨?_, fun name => ?_, fun name hname => ?_, fun name => ?_, fun name hname => ?_,
    h.memTable, h.states, hordinary h.ordinary⟩
  · exact hdirectories ▸ h.base
  · rw [← h.entries name]
    exact (congrArg (tables ++ [name] ∈ ·) hdirectories).to_iff
  · exact h.names name (hdirectories ▸ hname)
  · exact (hentry name).trans (h.files name)
  · obtain ⟨content, stored, hcontent, hread⟩ := h.metadata name (hdirectories ▸ hname)
    exact ⟨content, stored, (hstored name).trans hcontent, hread⟩

theorem Catalogued.opendir (h : Catalogued tables base (s, answers))
    (hmount : Mounts setting tables blocks metadata base) :
    s.tree.opendir setting.getTableDirectory = some tables := by
  have hpath : setting.getTableDirectory = setting.mountPoint ++ tablesEntry ++ [slash] := by
    rw [List.append_assoc]
    rfl
  rw [hpath, FileTree.opendir_slash]
  exact FileTree.opendir_of_locate (FileTree.locate_mono h.base hmount.locate_tables)
    (h.base hmount.tables_mem)

/-- What `readdir` gives for `Tables`. -/
theorem Catalogued.mem_readdir (h : Catalogued tables base (s, answers)) :
    name ∈ setting.dirent.readdir s.tree tables ↔
      name = dot ∨ name = dotDot ∨ tables ++ [name] ∈ s.tree.directories := by
  have hhas : ∀ name, s.tree.Has (tables ++ [name]) ↔ tables ++ [name] ∈ s.tree.directories := by
    intro name
    refine ⟨fun hhas => ?_, Or.inl⟩
    rcases hhas with hdirectory | hfile
    · exact hdirectory
    · rw [show s.tree.files (tables ++ [name]) = none from h.files name] at hfile
      cases hfile
  rw [setting.dirent.mem_readdir s.tree tables (h.ordinary.entries_finite tables), hhas]

/-- **A name is found if it is that of a table**, and `.` and `..` always are. -/
theorem Catalogued.existInDirectory (h : Catalogued tables base (s, answers))
    (hmount : Mounts setting tables blocks metadata base) :
    setting.existInDirectory s.tree name setting.getTableDirectory = true ↔
      name = dot ∨ name = dotDot ∨ IsTable answers name := by
  rw [DirectorySetting.existInDirectory, h.opendir hmount]
  dsimp only
  rw [List.any_eq_true]
  constructor
  · rintro ⟨entry, hentry, hname⟩
    have hname := of_decide_eq_true hname
    rcases h.mem_readdir.mp hentry with rfl | rfl | hdirectory
    · exact Or.inl (toUppercase_eq_dot.mp hname.symm)
    · exact Or.inr (Or.inl (toUppercase_eq_dotDot.mp hname.symm))
    · exact Or.inr (Or.inr ((isTable_congr hname).mp ((h.entries entry).mp hdirectory).1))
  · have hupper : toUppercase (toUppercase name) = toUppercase name := toUppercase_toUppercase name
    rintro (rfl | rfl | htable)
    · exact ⟨dot, h.mem_readdir.mpr (Or.inl rfl), decide_eq_true rfl⟩
    · exact ⟨dotDot, h.mem_readdir.mpr (Or.inr (Or.inl rfl)), decide_eq_true rfl⟩
    · have hentry := (h.entries (toUppercase name)).mpr ⟨(isTable_congr hupper).mpr htable, hupper⟩
      exact ⟨toUppercase name, h.mem_readdir.mpr (Or.inr (Or.inr hentry)), decide_eq_true hupper⟩

/-- The directory of a table has the name in capital letters. -/
theorem Catalogued.directory (h : Catalogued tables base (s, answers))
    (htable : IsTable answers name) :
    tables ++ [toUppercase name] ∈ s.tree.directories ∧ EntryName (toUppercase name) := by
  have hupper := toUppercase_toUppercase name
  have hentry := (h.entries (toUppercase name)).mpr ⟨(isTable_congr hupper).mpr htable, hupper⟩
  exact ⟨hentry, h.names _ hentry⟩

theorem Catalogued.readTableMetadata (h : Catalogued tables base (s, answers))
    (hmount : Mounts setting tables blocks metadata base)
    (hentry : tables ++ [name] ∈ s.tree.directories) :
    ∃ stored, setting.readTableMetadata s.tree name = some stored := by
  obtain ⟨content, stored, hcontent, hread⟩ := h.metadata name hentry
  have hplace := hmount.locate_file h.base (h.names name hentry) entryName_metadataName
  rw [if_pos hentry] at hplace
  refine ⟨stored, ?_⟩
  rw [DirectorySetting.readTableMetadata, FileTree.readFile_of_locate hplace]
  exact Option.bind_eq_some_iff.mpr ⟨content, hcontent, hread⟩

/-! ## Steps -/

theorem Catalogued.insert (h : Catalogued tables base (s, answers))
    (hmount : Mounts setting tables blocks metadata base) {input : InsertInput} (now : Int64)
    (hdot : input.tableName.bytes ≠ dot) (hdotDot : input.tableName.bytes ≠ dotDot) :
    Catalogued tables base ((setting.processInsert now input s).2, answers) := by
  rw [DirectorySetting.processInsert]
  dsimp only
  split
  · rename_i hexist
    split
    · exact h
    · rcases (h.existInDirectory hmount).mp hexist with hname | hname | htable
      · exact absurd hname hdot
      · exact absurd hname hdotDot
      · refine ⟨h.base, h.entries, h.names, h.files, h.metadata, fun table hmem => ?_, h.states,
          h.ordinary⟩
        rcases name_of_mem_insertTkv hmem with ⟨old, hold, hname⟩ | hname
        · exact hname ▸ h.memTable old hold
        · rw [hname, toUppercase_toUppercase]
          exact (h.directory htable).2
  · exact h

theorem Catalogued.dump (h : Catalogued tables base (s, answers))
    (hmount : Mounts setting tables blocks metadata base) {archives : MemTable → ArchiveWrite}
    {s' : MountedTables} (hdump : setting.dump archives s = some s') :
    Catalogued tables base (s', answers) := by
  obtain ⟨tree', hwrite, heq⟩ := Option.bind_eq_some_iff.mp hdump
  obtain rfl := Option.some.inj heq
  have hkeeps := keepsTables_foldlM h.base
    (fun table hmem tree tree' hbase harchive =>
      hmount.writeArchive hbase (h.memTable table hmem) harchive) hwrite
  have hkept := h.keeps hkeeps
  exact ⟨hkept.base, hkept.entries, hkept.names, hkept.files, hkept.metadata,
    fun table hmem => absurd hmem List.not_mem_nil, hkept.states, hkept.ordinary⟩

/-- An answer other than 0. -/
theorem Catalogued.refused (h : Catalogued tables base (s, answers)) {answer : CatalogAnswer}
    (hanswer : ∀ name, answer ≠ .create name 0 ∧ answer ≠ .drop name 0) :
    Catalogued tables base (s, answers ++ [answer]) := by
  refine ⟨h.base, fun name => ?_, h.names, h.files, h.metadata, h.memTable, h.states, h.ordinary⟩
  rw [isTable_concat_refused hanswer]
  exact h.entries name

/-- A directory that is removed takes its entry away, and what is below it. -/
theorem Catalogued.remove (h : Catalogued tables base (s, answers))
    (hempty : ∀ name, ¬ base.Has (tables ++ [name])) {dropped : Bytes}
    (hcleared : FileTree.Cleared (tables ++ [toUppercase dropped] <+: ·) s.tree tree') :
    Catalogued tables base ({ s with tree := tree' }, answers ++ [.drop dropped 0]) := by
  have hdirectories := hcleared.directories
  have hother : ∀ name, toUppercase dropped ≠ name → ∀ rest : Place,
      ¬ tables ++ [toUppercase dropped] <+: tables ++ [name] ++ rest := by
    rintro name hne rest ⟨tail, htail⟩
    rw [List.append_assoc, List.append_assoc, List.append_cancel_left_eq] at htail
    exact hne (List.cons.inj htail).1
  refine ⟨fun place hplace => ?_, fun name => ?_, fun name hname => ?_, fun name => ?_,
    fun name hname => ?_, h.memTable, h.states, hcleared.ordinary h.ordinary⟩
  · refine (hdirectories place).mpr ⟨h.base hplace, fun hinner => ?_⟩
    exact hempty _ (Or.inl (FileTree.mem_directories_of_above hinner hplace))
  · refine (hdirectories _).trans ?_
    rw [isTable_concat_drop, and_assoc, ← h.entries name]
    constructor
    · rintro ⟨hmem, hout⟩
      refine ⟨fun hname => hout ?_, hmem⟩
      rw [hname, ((h.entries name).mp hmem).2]
    · rintro ⟨hname, hmem⟩
      have hne : toUppercase dropped ≠ name := ((h.entries name).mp hmem).2 ▸ hname
      have hout := hother name hne []
      rw [List.append_nil] at hout
      exact ⟨hmem, hout⟩
  · exact h.names name ((hdirectories _).mp hname).1
  · by_cases hbelow : tables ++ [toUppercase dropped] <+: tables ++ [name]
    · exact hcleared.cleared _ hbelow
    · exact (hcleared.kept _ hbelow).trans (h.files name)
  · obtain ⟨hmem, hout⟩ := (hdirectories _).mp hname
    obtain ⟨content, stored, hcontent, hread⟩ := h.metadata name hmem
    refine ⟨content, stored, (hcleared.kept _ ?_).trans hcontent, hread⟩
    refine hother name (fun heq => hout ?_) [metadataName]
    rw [heq]

/-- **A DROP takes the entry of its table away.** -/
theorem Catalogued.drop (h : Catalogued tables base (s, answers))
    (hmount : Mounts setting tables blocks metadata base) {input : DropInput} {writes : DropWrites}
    {status : Int32} {s' : MountedTables} (hdot : input.tableName.bytes ≠ dot)
    (hdotDot : input.tableName.bytes ≠ dotDot)
    (hdrop : setting.processDrop writes input s = some (status, s')) :
    Catalogued tables base (s', answers ++ [.drop input.tableName.bytes status]) := by
  rw [DirectorySetting.processDrop] at hdrop
  split at hdrop
  · rename_i hexist
    rcases (h.existInDirectory hmount).mp hexist with hname | hname | htable
    · exact absurd hname hdot
    · exact absurd hname hdotDot
    obtain ⟨stored, -, hdrop⟩ := Option.bind_eq_some_iff.mp hdrop
    obtain ⟨freed, hfreed, hdrop⟩ := Option.bind_eq_some_iff.mp hdrop
    obtain ⟨written, hbitmap, heq⟩ := Option.bind_eq_some_iff.mp hdrop
    obtain ⟨rfl, rfl⟩ := Prod.mk.inj (Option.some.inj heq)
    have hkept := h.keeps (keepsTables_foldlM h.base
      (fun blockNumber _ tree tree' hbase hblock => hmount.freeBlock hbase hblock) hfreed)
    obtain ⟨hentry, hname⟩ := hkept.directory htable
    have hremoves : DirectorySetting.Removes (tables ++ [toUppercase input.tableName.bytes]) freed
        (setting.removeDirectory (freed.height + 1) freed
          (tableDirectory setting.mountPoint (toUppercase input.tableName.bytes))) :=
      DirectorySetting.removeDirectory_spec hentry (DirectorySetting.shallow_height freed _)
        (hmount.leads_table hkept.base hname) hkept.ordinary
    have hremoved := hkept.remove hmount.empty hremoves.2
    exact hremoved.keeps (keepsTables_writeFile (hmount.elsewhere_bitmap hremoved.base) hbitmap)
  · obtain ⟨rfl, rfl⟩ := Prod.mk.inj (Option.some.inj hdrop)
    refine h.refused fun name => ⟨fun heq => (by cases heq), fun heq => ?_⟩
    exact absurd (CatalogAnswer.drop.inj heq).2 (by decide)

/-! ## CREATE -/

/-- The way of a CREATE that answers 0: there were blocks, `mkdir` made a directory, and then the
files were written. -/
structure CreateSetting.Succeeded (create : CreateSetting) (input : CreateInput)
    (files : MountedFiles) (bitmap : Bytes) (tree listed written : FileTree) : Prop where
  stored : create.bitmap files.tree = some bitmap
  count : (create.commons.assignFreeBlocks bitmap input.partitions.toInt.toNat).1.length =
    input.partitions.toInt.toNat
  folder : create.createTableFolder files.tree (toUppercase input.tableName.bytes) = some tree
  entries : (create.createTableMetadata tree
      ⟨input.compactionTime, input.consistency, input.partitions⟩
      (toUppercase input.tableName.bytes) >>= create.createPartitions
      (toUppercase input.tableName.bytes) 0
      (create.commons.assignFreeBlocks bitmap input.partitions.toInt.toNat).1) = some listed
  marked : listed.writeFile (getBitmapDirectory create.mountPoint)
    (bitmapContent create.commons.lsbFirst
      (create.commons.assignFreeBlocks bitmap input.partitions.toInt.toNat).2) = some written

theorem CreateSetting.processCreate_eq_some {create : CreateSetting} {input : CreateInput}
    {files files' : MountedFiles} {status : Int32}
    (h : create.processCreate input files = some (status, files')) :
    (status ≠ 0 ∧ files' = files) ∨ status = 0 ∧ ∃ bitmap tree listed written,
      create.Succeeded input files bitmap tree listed written ∧
      files' = create.addTableToTableStateList { files with tree := written }
        (toUppercase input.tableName.bytes) := by
  rw [CreateSetting.processCreate] at h
  obtain ⟨content, hcontent, h⟩ := Option.bind_eq_some_iff.mp h
  obtain ⟨bitmap, hbitmap, h⟩ := Option.bind_eq_some_iff.mp h
  split at h
  · cases h
  · dsimp only at h
    split at h
    · rename_i hcount
      split at h
      · obtain ⟨rfl, rfl⟩ := Prod.mk.inj (Option.some.inj h)
        exact Or.inl ⟨by decide, rfl⟩
      · rename_i tree hfolder
        obtain ⟨withMetadata, hmetadata, h⟩ := Option.bind_eq_some_iff.mp h
        obtain ⟨listed, hlisted, h⟩ := Option.bind_eq_some_iff.mp h
        obtain ⟨written, hwritten, heq⟩ := Option.bind_eq_some_iff.mp h
        obtain ⟨rfl, rfl⟩ := Prod.mk.inj (Option.some.inj heq)
        refine Or.inr ⟨rfl, bitmap, tree, listed, written, ⟨?_, hcount, hfolder, ?_, hwritten⟩, rfl⟩
        · exact Option.bind_eq_some_iff.mpr ⟨content, hcontent, hbitmap⟩
        · exact Option.bind_eq_some_iff.mpr ⟨withMetadata, hmetadata, hlisted⟩
    · obtain ⟨rfl, rfl⟩ := Prod.mk.inj (Option.some.inj h)
      exact Or.inl ⟨by decide, rfl⟩

/-- What it has written. -/
theorem CreateSetting.Succeeded.writes {create : CreateSetting} {input : CreateInput}
    {files : MountedFiles} {bitmap : Bytes} {tree listed written : FileTree}
    (h : create.Succeeded input files bitmap tree listed written) :
    create.Writes files.tree written (toUppercase input.tableName.bytes)
      (bitmapContent create.commons.lsbFirst
        (create.commons.assignFreeBlocks bitmap input.partitions.toInt.toNat).2)
      (tableEntries ⟨input.compactionTime, input.consistency, input.partitions⟩
        (create.commons.assignFreeBlocks bitmap input.partitions.toInt.toNat).1) := by
  obtain ⟨hstored, -, hfolder, hlisted, hmarked⟩ := h
  obtain ⟨content, hcontent, -⟩ := Option.bind_eq_some_iff.mp hstored
  obtain ⟨listed', written', hlisted', hmarked', hwrites⟩ :=
    @CreateSetting.create_writes create files.tree tree (toUppercase input.tableName.bytes)
      (create.commons.assignFreeBlocks bitmap input.partitions.toInt.toNat).1
      ⟨input.compactionTime, input.consistency, input.partitions⟩ content hfolder hcontent
      (bitmapContent create.commons.lsbFirst
        (create.commons.assignFreeBlocks bitmap input.partitions.toInt.toNat).2)
  obtain rfl := Option.some.inj (hlisted.symm.trans hlisted')
  obtain rfl := Option.some.inj (hmarked.symm.trans hmarked')
  exact hwrites

theorem CreateSetting.Succeeded.ordinary {create : CreateSetting} {input : CreateInput}
    {files : MountedFiles} {bitmap : Bytes} {tree listed written : FileTree}
    (h : create.Succeeded input files bitmap tree listed written)
    (hordinary : files.tree.Ordinary) : written.Ordinary := by
  have hpartitions : ∀ (blocks : List Nat) (i : Nat) (tree tree' : FileTree), tree.Ordinary →
      create.createPartitions (toUppercase input.tableName.bytes) i blocks tree = some tree' →
        tree'.Ordinary := by
    intro blocks
    induction blocks with
    | nil =>
      intro i tree tree' htree hrun
      obtain rfl := Option.some.inj hrun
      exact htree
    | cons block blocks ih =>
      intro i tree tree' htree hrun
      obtain ⟨next, hwrite, hrest⟩ := Option.bind_eq_some_iff.mp hrun
      exact ih (i + 1) next tree' (htree.writeFile hwrite) hrest
  obtain ⟨-, -, hfolder, hentries, hmarked⟩ := h
  obtain ⟨withMetadata, hmetadata, hlisted⟩ := Option.bind_eq_some_iff.mp hentries
  rw [CreateSetting.createTableFolder] at hfolder
  split at hfolder
  · cases hfolder
  · have hmade := (hordinary.mkdir hfolder).writeFile hmetadata
    exact (hpartitions _ _ _ _ hmade hlisted).writeFile hmarked

/-- A CREATE of a name without a slash, or one that fails for want of blocks or because `mkdir`
does. -/
def CreateSetting.Plain (create : CreateSetting) (input : CreateInput) (files : MountedFiles) :
    Prop :=
  slash ∈ input.tableName.bytes →
    create.createTableFolder files.tree (toUppercase input.tableName.bytes) = none ∨
      ∀ bitmap, create.bitmap files.tree = some bitmap →
        (create.commons.assignFreeBlocks bitmap input.partitions.toInt.toNat).1.length ≠
          input.partitions.toInt.toNat

/-- The directory of a new table is an entry of `Tables`, and what was there stays. -/
theorem Catalogued.written (h : Catalogued tables base (s, answers))
    (hmount : Mounts setting tables blocks metadata base) {refused : Bool} {thread : Nat}
    {created marked : Bytes} {stored : StoredMetadata} {numbers : List Nat}
    (hslash : slash ∉ toUppercase created) (hordinary : tree'.Ordinary)
    (hwrites : (CreateSetting.mk setting.mountPoint setting.commons refused thread).Writes s.tree
      tree' (toUppercase created) marked (CreateSetting.tableEntries stored numbers)) :
    EntryName (toUppercase created) ∧
      Catalogued tables base ({ s with tree := tree' }, answers ++ [.create created 0]) := by
  obtain ⟨place, hnew, hplace, hdirectories, hfiles⟩ := hwrites.directory
  rw [tableDirectory_eq] at hplace
  obtain ⟨hname, rfl⟩ := FileTree.entry_of_locate
    (FileTree.locate_mono h.base hmount.locate_tables) (h.base hmount.tables_mem) hslash hplace hnew
  have hbase : base.directories ⊆ tree'.directories := by
    rw [hdirectories]
    exact List.Subset.trans h.base (List.subset_cons_self _ _)
  have hentries : ∀ name, tables ++ [name] ∈ tree'.directories ↔
      name = toUppercase created ∨ tables ++ [name] ∈ s.tree.directories := by
    intro name
    rw [hdirectories, List.mem_cons, List.append_cancel_left_eq, List.cons.injEq]
    simp only [and_true]
  -- The metadata can be read by its path, before and after.
  have hread : ∀ name content, EntryName name → tables ++ [name] ∈ tree'.directories →
      tree'.readFile (tableDirectory setting.mountPoint name ++ slash :: metadataName) =
        some content → tree'.files (tables ++ [name] ++ [metadataName]) = some content := by
    intro name content hname hmem hread
    have hfile := hmount.locate_file hbase hname entryName_metadataName
    rw [if_pos hmem] at hfile
    rwa [FileTree.readFile_of_locate hfile] at hread
  refine ⟨hname, hbase, fun name => (hentries name).trans ?_, fun name hmem => ?_, fun name => ?_,
    fun name hmem => ?_, h.memTable, h.states, hordinary⟩
  · rw [isTable_concat_create, h.entries name]
    constructor
    · rintro (rfl | ⟨htable, hupper⟩)
      · exact ⟨Or.inl (toUppercase_toUppercase _).symm, toUppercase_toUppercase _⟩
      · exact ⟨Or.inr htable, hupper⟩
    · rintro ⟨heq | htable, hupper⟩
      · exact Or.inl (hupper.symm.trans heq.symm)
      · exact Or.inr ⟨htable, hupper⟩
  · rcases (hentries name).mp hmem with rfl | hold
    · exact hname
    · exact h.names name hold
  · by_contra hfile
    obtain ⟨file, heq⟩ := hfiles _ (h.files name) hfile
    have hlength := congrArg List.length heq
    simp at hlength
  · rcases (hentries name).mp hmem with rfl | hold
    · have hentry := hwrites.entries _ List.mem_cons_self
      exact ⟨_, _, hread _ _ hname hmem hentry, readMetadata_metadataContent _⟩
    · obtain ⟨content, old, hcontent, hreadable⟩ := h.metadata name hold
      have hfile := hmount.locate_file h.base (h.names name hold) entryName_metadataName
      rw [if_pos hold] at hfile
      have hbefore : s.tree.readFile
          (tableDirectory setting.mountPoint name ++ slash :: metadataName) = some content :=
        (FileTree.readFile_of_locate hfile).trans hcontent
      have hafter := hwrites.others _ content hbefore ?_
      · exact ⟨content, old, hread _ _ (h.names name hold) hmem hafter, hreadable⟩
      · rw [hfile, hmount.locate_bitmap h.base]
        intro heq
        have hlast := (List.append_inj' (Option.some.inj heq) rfl).2
        exact absurd (List.singleton_inj.mp hlast) (by decide)

/-- The thread of a new table. -/
theorem Catalogued.addTableState (h : Catalogued tables base (s, answers)) (create : CreateSetting)
    (hname : EntryName (toUppercase name)) :
    Catalogued tables base
      ({ s with toMountedFiles := create.addTableToTableStateList s.toMountedFiles name },
        answers) := by
  refine ⟨h.base, h.entries, h.names, h.files, h.metadata, h.memTable, fun state hstate => ?_,
    h.ordinary⟩
  rcases List.mem_append.mp hstate with hold | hnew
  · exact h.states state hold
  · rw [List.mem_singleton.mp hnew]
    exact ⟨hname, toUppercase_toUppercase _⟩

/-- **A CREATE adds the entry of its table.** -/
theorem Catalogued.create (h : Catalogued tables base (s, answers))
    (hmount : Mounts setting tables blocks metadata base) {input : CreateInput} {refused : Bool}
    {thread : Nat} {status : Int32} {s' : MountedTables}
    (hplain : (CreateSetting.mk setting.mountPoint setting.commons refused thread).Plain input
      s.toMountedFiles)
    (hcreate : setting.processCreate refused thread input s = some (status, s')) :
    Catalogued tables base (s', answers ++ [.create input.tableName.bytes status]) := by
  obtain ⟨⟨status, files⟩, hrun, heq⟩ := Option.bind_eq_some_iff.mp hcreate
  obtain ⟨rfl, rfl⟩ := Prod.mk.inj (Option.some.inj heq)
  rcases CreateSetting.processCreate_eq_some hrun with ⟨hstatus, rfl⟩ |
    ⟨rfl, bitmap, tree, listed, written, hsucceeded, rfl⟩
  · refine h.refused fun name => ⟨fun heq => hstatus ?_, fun heq => (by cases heq)⟩
    exact (CatalogAnswer.create.inj heq).2
  · have hslash : slash ∉ toUppercase input.tableName.bytes := by
      rw [slash_mem_toUppercase]
      intro hmem
      rcases hplain hmem with hnone | hfew
      · rw [hsucceeded.folder] at hnone
        cases hnone
      · exact hfew bitmap hsucceeded.stored hsucceeded.count
    obtain ⟨hname, hwritten⟩ :=
      h.written hmount hslash (hsucceeded.ordinary h.ordinary) hsucceeded.writes
    have hname' : EntryName (toUppercase (toUppercase input.tableName.bytes)) := by
      rwa [toUppercase_toUppercase]
    have hadded := hwritten.addTableState
      (CreateSetting.mk setting.mountPoint setting.commons refused thread) hname'
    exact hadded

end Catalog

/-! ## Runs -/

/-- No request is for `.` or `..`, and no CREATE makes a directory for a name with a slash. -/
def DirectorySetting.Regular (setting : DirectorySetting) (history : CatalogHistory) :
    CatalogAction → Prop
  | .create input refused thread =>
    (CreateSetting.mk setting.mountPoint setting.commons refused thread).Plain input
      history.1.toMountedFiles
  | .insert input _ => input.tableName.bytes ≠ dot ∧ input.tableName.bytes ≠ dotDot
  | .drop input _ => input.tableName.bytes ≠ dot ∧ input.tableName.bytes ≠ dotDot
  | .dump _ => True
  | .compaction _ _ => True

/-- A filesystem without tables that has just been started. -/
def DirectorySetting.Fresh (setting : DirectorySetting) (s : MountedTables) : Prop :=
  (∃ tables blocks metadata, Mounts setting tables blocks metadata s.tree) ∧ s.tree.Ordinary ∧
    s.memTable = [] ∧ s.tableStateList = []

/-- How each request treats a name, where `known` says whether it is that of a table. -/
structure DirectorySetting.Treats (setting : DirectorySetting) (s : MountedTables)
    (tableName : CString) (known : Prop) : Prop where
  exist : setting.existInDirectory s.tree tableName.bytes setting.getTableDirectory = true ↔ known
  select : ∀ found key, found.timestamp ≠ -2 →
    ((setting.processSelect found ⟨tableName, key⟩ s).timestamp = -2 ↔ ¬ known)
  insert : ∀ now input, input.tableName = tableName →
    ((setting.processInsert now input s).1 = -2 ↔ ¬ known)
  described : known → ∃ stored, setting.processDescribe ⟨some tableName⟩ s =
    some [(toUppercase tableName.bytes, stored)]
  undescribed : ¬ known → setting.processDescribe ⟨some tableName⟩ s = some []
  drop : ∀ writes, setting.processDrop writes ⟨tableName⟩ s = some (-1, s) ↔ ¬ known

section Catalog
variable {setting : DirectorySetting} {tables blocks metadata : Place} {base : FileTree}
  {history history' : CatalogHistory} {s : MountedTables} {answers : List CatalogAnswer}

/-- **A step keeps the entries in agreement with the answers.** -/
theorem Catalogued.step (h : Catalogued tables base history)
    (hmount : Mounts setting tables blocks metadata base) {action : CatalogAction}
    (hregular : setting.Regular history action)
    (hstep : setting.step history action = some history') : Catalogued tables base history' := by
  obtain ⟨s, answers⟩ := history
  cases action with
  | create input refused thread =>
    obtain ⟨⟨status, s'⟩, hcreate, heq⟩ := Option.bind_eq_some_iff.mp hstep
    obtain rfl := Option.some.inj heq
    exact h.create hmount hregular hcreate
  | insert input now =>
    obtain rfl := Option.some.inj hstep
    exact h.insert hmount now hregular.1 hregular.2
  | dump archives =>
    obtain ⟨s', hdump, heq⟩ := Option.bind_eq_some_iff.mp hstep
    obtain rfl := Option.some.inj heq
    exact h.dump hmount hdump
  | compaction tableName writes =>
    rw [DirectorySetting.step] at hstep
    split at hstep
    · rename_i hthread
      obtain ⟨state, hstate, hname⟩ := List.any_eq_true.mp hthread
      obtain rfl := of_decide_eq_true hname
      obtain ⟨tree', hcompaction, heq⟩ := Option.bind_eq_some_iff.mp hstep
      obtain rfl := Option.some.inj heq
      obtain ⟨hentryName, hupper⟩ := h.states state hstate
      exact h.keeps (hmount.compaction h.base hentryName hupper hcompaction)
    · cases hstep
  | drop input writes =>
    obtain ⟨⟨status, s'⟩, hdrop, heq⟩ := Option.bind_eq_some_iff.mp hstep
    obtain rfl := Option.some.inj heq
    exact h.drop hmount hregular.1 hregular.2 hdrop

theorem Catalogued.start (hmount : Mounts setting tables blocks metadata s.tree)
    (hordinary : s.tree.Ordinary) (hmemTable : s.memTable = []) (hstates : s.tableStateList = []) :
    Catalogued tables s.tree (s, []) := by
  have hnone : ∀ name, tables ++ [name] ∉ s.tree.directories :=
    fun name hmem => hmount.empty name (Or.inl hmem)
  refine ⟨List.Subset.refl _, fun name => ?_, fun name hmem => absurd hmem (hnone name),
    fun name => ?_, fun name hmem => absurd hmem (hnone name), fun table hmem => ?_,
    fun state hmem => ?_, hordinary⟩
  · refine iff_of_false (hnone name) ?_
    rintro ⟨⟨before, created, after, heq, -⟩, -⟩
    exact List.append_ne_nil_of_right_ne_nil before (List.cons_ne_nil _ _) heq.symm
  · exact Option.not_isSome_iff_eq_none.mp fun hfile => hmount.empty name (Or.inr hfile)
  · rw [show s.memTable = [] from hmemTable] at hmem
    cases hmem
  · rw [show s.tableStateList = [] from hstates] at hmem
    cases hmem

theorem Catalogued.treats (h : Catalogued tables base (s, answers))
    (hmount : Mounts setting tables blocks metadata base) {tableName : CString}
    (hdot : tableName.bytes ≠ dot) (hdotDot : tableName.bytes ≠ dotDot) :
    setting.Treats s tableName (IsTable answers tableName.bytes) := by
  have hexist : setting.existInDirectory s.tree tableName.bytes setting.getTableDirectory = true ↔
      IsTable answers tableName.bytes := by
    rw [h.existInDirectory hmount]
    simp only [hdot, hdotDot, false_or]
  by_cases hknown : IsTable answers tableName.bytes
  · have hfound := hexist.mpr hknown
    obtain ⟨stored, hstored⟩ := h.readTableMetadata hmount (h.directory hknown).1
    refine ⟨hexist, fun found key hne => iff_of_false ?_ (not_not_intro hknown), ?_, ?_,
      fun hunknown => absurd hknown hunknown, ?_⟩
    · simp only [DirectorySetting.processSelect, hfound, if_true]
      split
      · decide
      · exact hne
    · rintro now input rfl
      refine iff_of_false ?_ (not_not_intro hknown)
      simp only [DirectorySetting.processInsert, hfound, if_true]
      split
      · exact show (-1 : Int32) ≠ -2 by decide
      · exact show (0 : Int32) ≠ -2 by decide
    · intro _
      refine ⟨stored, ?_⟩
      simp only [DirectorySetting.processDescribe, hfound, if_true, hstored]
      rfl
    · refine fun writes => iff_of_false (fun hdrop => ?_) (not_not_intro hknown)
      simp only [DirectorySetting.processDrop, hfound, if_true] at hdrop
      obtain ⟨_, -, hdrop⟩ := Option.bind_eq_some_iff.mp hdrop
      obtain ⟨_, -, hdrop⟩ := Option.bind_eq_some_iff.mp hdrop
      obtain ⟨_, -, heq⟩ := Option.bind_eq_some_iff.mp hdrop
      exact absurd (Prod.mk.inj (Option.some.inj heq)).1 (by decide)
  · have hmissing : ¬ setting.existInDirectory s.tree tableName.bytes setting.getTableDirectory =
        true := fun hfound => hknown (hexist.mp hfound)
    refine ⟨hexist, fun found key _ => iff_of_true ?_ hknown, ?_, fun h => absurd h hknown,
      fun _ => ?_, fun writes => iff_of_true ?_ hknown⟩
    · simp only [DirectorySetting.processSelect, if_neg hmissing]
    · rintro now input rfl
      refine iff_of_true ?_ hknown
      simp only [DirectorySetting.processInsert, if_neg hmissing]
    · simp only [DirectorySetting.processDescribe, if_neg hmissing]
    · simp only [DirectorySetting.processDrop, if_neg hmissing]

/-- DESCRIBE without a name. -/
theorem Catalogued.describeAll (h : Catalogued tables base (s, answers))
    (hmount : Mounts setting tables blocks metadata base) :
    ∃ described, setting.processDescribe ⟨none⟩ s = some described ∧
      (described.map Prod.fst).Nodup ∧ ∀ name, name ∈ described.map Prod.fst ↔
        IsTable answers name ∧ toUppercase name = name := by
  have hlist : setting.getTablesList s.tree = (setting.dirent.readdir s.tree tables).filter
      fun name => name ≠ dot ∧ name ≠ dotDot := by
    rw [DirectorySetting.getTablesList, h.opendir hmount]
    dsimp only
    -- The entries are in capital letters already.
    refine (List.map_congr_left fun name hmem => ?_).trans (List.map_id _)
    obtain ⟨hread, hname⟩ := List.mem_filter.mp hmem
    have hname := of_decide_eq_true hname
    rcases h.mem_readdir.mp hread with heq | heq | hentry
    · exact absurd heq hname.1
    · exact absurd heq hname.2
    · exact ((h.entries name).mp hentry).2
  have hmem : ∀ name, name ∈ setting.getTablesList s.tree ↔
      tables ++ [name] ∈ s.tree.directories := by
    intro name
    rw [hlist, List.mem_filter, h.mem_readdir, decide_eq_true_eq]
    constructor
    · rintro ⟨heq | heq | hentry, hne, hne'⟩
      · exact absurd heq hne
      · exact absurd heq hne'
      · exact hentry
    · intro hentry
      have hname := h.names name hentry
      exact ⟨Or.inr (Or.inr hentry), hname.ne_dot, hname.ne_dotDot⟩
  have hread : ∀ names : List Bytes, (∀ name ∈ names, tables ++ [name] ∈ s.tree.directories) →
      ∃ described, (names.mapM fun tableName => do
        let stored ← setting.readTableMetadata s.tree tableName
        some (tableName, stored)) = some described ∧ described.map Prod.fst = names := by
    intro names
    induction names with
    | nil => exact fun _ => ⟨[], rfl, rfl⟩
    | cons name names ih =>
      intro hnames
      obtain ⟨stored, hstored⟩ := h.readTableMetadata hmount (hnames name List.mem_cons_self)
      obtain ⟨described, hdescribed, hfst⟩ :=
        ih fun other hother => hnames other (List.mem_cons_of_mem _ hother)
      refine ⟨(name, stored) :: described, ?_, congrArg (name :: ·) hfst⟩
      rw [List.mapM_cons, hstored, hdescribed]
      rfl
  obtain ⟨described, hdescribed, hfst⟩ := hread _ fun name hname => (hmem name).mp hname
  refine ⟨described, hdescribed, ?_, fun name => ?_⟩
  · rw [hfst, hlist]
    exact (setting.dirent.nodup s.tree tables).filter _
  · rw [hfst, hmem, h.entries name]

/-- **The entries agree with the answers** in every regular run. -/
theorem DirectorySetting.Fresh.catalogued {start : MountedTables} (hfresh : setting.Fresh start)
    (hmount : Mounts setting tables blocks metadata start.tree)
    (hrun : Run setting.step (fun history action _ => setting.Regular history action) (start, [])
      (s, answers)) : Catalogued tables start.tree (s, answers) := by
  obtain ⟨-, hordinary, hmemTable, hstates⟩ := hfresh
  exact Run.invariant (P := Catalogued tables start.tree) hrun
    (Catalogued.start hmount hordinary hmemTable hstates)
    fun history action history' h hstep hregular => h.step hmount hregular hstep

end Catalog

/-- **A table exists exactly if it was created** and not dropped since, in every run in which no
request is for `.` or `..` and no CREATE makes a directory for a name with a slash: for every other
name SELECT, INSERT, DESCRIBE and DROP say so, and DESCRIBE without a name lists these tables. -/
theorem tables_exist_iff_created {setting : DirectorySetting} {start s : MountedTables}
    {answers : List CatalogAnswer} (hfresh : setting.Fresh start)
    (hrun : Run setting.step (fun history action _ => setting.Regular history action) (start, [])
      (s, answers)) :
    (∀ tableName : CString, tableName.bytes ≠ dot → tableName.bytes ≠ dotDot →
      setting.Treats s tableName (IsTable answers tableName.bytes)) ∧
    ∃ described, setting.processDescribe ⟨none⟩ s = some described ∧
      (described.map Prod.fst).Nodup ∧ ∀ name, name ∈ described.map Prod.fst ↔
        IsTable answers name ∧ toUppercase name = name := by
  obtain ⟨tables, blocks, metadata, hmount⟩ := hfresh.1
  have hcatalogued := hfresh.catalogued hmount hrun
  exact ⟨fun tableName hdot hdotDot => hcatalogued.treats hmount hdot hdotDot,
    hcatalogued.describeAll hmount⟩

/-! ## Runs from an empty mount point -/

/-- A mount point `/m/` with its three directories, and one byte of bitmap. -/
def mountedTree : FileTree where
  directories := [[], [[109]], [[109], metadataEntry], [[109], tablesEntry], [[109], blocksEntry]]
  files place :=
    if place = [[109], metadataEntry, bitmapEntry] then some (bitmapContent 0 [1]) else none
  root := by decide
  closed := by decide
  parent place h := by
    split at h
    · rename_i heq
      subst heq
      decide
    · cases h
  apart := by decide

noncomputable def mountedSetting : DirectorySetting :=
  ⟨[47, 109, 47], lsbFirstBitarray, FileTree.someDirent, 8⟩

def mountedTables : MountedTables := ⟨⟨mountedTree, [], 0⟩, []⟩

theorem mounts_mountedTree : Mounts mountedSetting [[109], tablesEntry] [[109], blocksEntry]
    [[109], metadataEntry] mountedTree where
  locate_tables := (by decide : mountedTree.locate ([47, 109, 47] ++ tablesEntry) = _)
  locate_blocks := (by decide : mountedTree.locate ([47, 109, 47] ++ blocksEntry) = _)
  locate_metadata := (by decide : mountedTree.locate ([47, 109, 47] ++ metadataEntry) = _)
  tables_mem := by decide
  blocks_mem := by decide
  metadata_mem := by decide
  blocks_ne := by decide
  metadata_ne := by decide
  empty name := by
    rintro (hmem | hfile)
    · simp [mountedTree] at hmem
    · simp [mountedTree, tablesEntry, metadataEntry] at hfile

theorem ordinary_mountedTree : mountedTree.Ordinary := by
  have hfiles : ∀ place, (mountedTree.files place).isSome →
      place = [[109], metadataEntry] ++ [bitmapEntry] := by
    intro place hfile
    unfold mountedTree at hfile
    dsimp only at hfile
    split at hfile
    · assumption
    · cases hfile
  refine ⟨fun place name hhas => ?_, (Set.finite_singleton _).subset hfiles⟩
  have hnames : ∀ other ∈ mountedTree.directories, ∀ last ∈ other.getLast?, EntryName last := by
    decide
  rcases hhas with hmem | hfile
  · exact hnames _ hmem name List.getLast?_concat
  · rw [List.singleton_inj.mp (List.append_inj' (hfiles _ hfile) rfl).2]
    exact entryName_bitmapEntry

theorem fresh_mountedTables : mountedSetting.Fresh mountedTables :=
  ⟨⟨_, _, _, mounts_mountedTree⟩, ordinary_mountedTree, rfl, rfl⟩

/-- `CREATE t SC 2 60000`: then there is a table T, and no other. -/
theorem tables_exist_iff_created_one :
    ∃ s, Run mountedSetting.step (fun history action _ => mountedSetting.Regular history action)
        (mountedTables, []) (s, [.create [116] 0]) ∧
      (∀ tableName : CString, tableName.bytes ≠ dot → tableName.bytes ≠ dotDot →
        mountedSetting.Treats s tableName (IsTable [.create [116] 0] tableName.bytes)) := by
  have hstores : CreateSetting.oneByteSetting.StoresBitmap mountedTree [1] :=
    ⟨⟨0, by decide⟩, by decide⟩
  obtain ⟨status, files, hcreate, -⟩ := @CreateSetting.create_spec CreateSetting.oneByteSetting [1]
    CreateSetting.createTwo mountedTables.toMountedFiles hstores (by decide)
  have hanswer : (CreateSetting.oneByteSetting.processCreate CreateSetting.createTwo
      mountedTables.toMountedFiles).map Prod.fst = some 0 := by decide
  rw [hcreate] at hanswer
  obtain rfl := Option.some.inj hanswer
  have hstep : mountedSetting.step (mountedTables, []) (.create CreateSetting.createTwo false 3) =
      some ({ mountedTables with toMountedFiles := files }, [.create [116] 0]) := by
    have hrun : mountedSetting.processCreate false 3 CreateSetting.createTwo mountedTables =
        some (0, { mountedTables with toMountedFiles := files }) := by
      rw [DirectorySetting.processCreate]
      exact Option.bind_eq_some_iff.mpr ⟨(0, files), hcreate, rfl⟩
    rw [DirectorySetting.step, hrun]
    rfl
  have hplain : mountedSetting.Regular (mountedTables, [])
      (.create CreateSetting.createTwo false 3) := fun hslash => absurd hslash (by decide)
  have hone : Run mountedSetting.step
      (fun history action _ => mountedSetting.Regular history action) (mountedTables, [])
      ({ mountedTables with toMountedFiles := files }, [.create [116] 0]) :=
    Run.refl.step (.create CreateSetting.createTwo false 3) hstep hplain
  exact ⟨_, hone, (tables_exist_iff_created fresh_mountedTables hone).1⟩

/-- Before any request an INSERT into a table `.` is accepted. -/
theorem not_tables_exist_iff_created :
    ¬ mountedSetting.Treats mountedTables ⟨dot, by decide⟩ (IsTable [] dot) ∧
      (mountedSetting.processInsert 0 ⟨⟨dot, by decide⟩, 1, .ofBytes [97], 5⟩ mountedTables).1
        = 0 := by
  have hcatalogued : Catalogued [[109], tablesEntry] mountedTables.tree (mountedTables, []) :=
    Catalogued.start mounts_mountedTree ordinary_mountedTree rfl rfl
  have hexist := (hcatalogued.existInDirectory mounts_mountedTree).mpr (Or.inl rfl)
  have hnone : ¬ IsTable [] dot := by
    rintro ⟨before, created, after, heq, -⟩
    exact List.append_ne_nil_of_right_ne_nil before (List.cons_ne_nil _ _) heq.symm
  refine ⟨fun htreats => hnone (htreats.exist.mp hexist), ?_⟩
  simp only [DirectorySetting.processInsert]
  rw [if_pos hexist, if_neg (by decide)]

end Lissandra
