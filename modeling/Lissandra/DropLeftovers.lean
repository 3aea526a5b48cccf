import Lissandra.BlockLedger
import Lissandra.FilesystemRuns

/-! # What a DROP leaves behind

`process_drop` removes the directory of its table with every archive in it and frees their
blocks, but it leaves `mem_table` alone.  What the memtable has of the table at that time
shows again when the table is created anew, and the next dump writes it into a directory
that may be gone.

So a DROP is clean when the memtable has no element of the table.  In every run whose
DROPs are clean, and whose INSERTs and CREATEs are of names that tables can have, nothing
remains of a dropped table, a table created anew answers no key until a record is inserted
into it, and every dump finds its directories (`drop_leavesNothing`).  Nothing here depends on
what the records look like, nor on whether there are enough blocks.
-/
namespace Lissandra

/-! ## Clean runs -/

/-- A DROP finds no element of its table in the memtable. -/
def Op.Clean (fs : Filesystem) : Op → Prop
  | .drop input => ∀ table ∈ fs.memTable,
      toUppercase table.name ≠ toUppercase input.tableName.bytes
  | _ => True

/-- An INSERT into the table is accepted. -/
def Op.InsertsInto (config : FsConfig) (name : Bytes) (fs : Filesystem) : Op → Prop
  | .insert now input =>
      toUppercase input.tableName.bytes = name ∧ (processInsert config now input fs).1 = 0
  | _ => False

/-- Nothing is left of the table: no directory, so no archive, and nothing in memory. -/
structure Gone (name : Bytes) (fs : Filesystem) : Prop where
  lookup : fs.tables.lookup name = none
  memTable : ∀ table ∈ fs.memTable, toUppercase table.name ≠ name

/-- Every table in memory has its directory, which is where a dump writes. -/
def Lodged (fs : Filesystem) : Prop := ∀ table ∈ fs.memTable, existInDirectory fs table.name = true

/-- The table has nothing in memory and, if it exists, one empty block for each partition
and no temporary archive. -/
structure Blank (name : Bytes) (fs : Filesystem) : Prop where
  memTable : ∀ table ∈ fs.memTable, toUppercase table.name ≠ name
  tmps : ∀ table, fs.tables.lookup name = some table → existingTmps table.tmps = []
  partitions : ∀ table, fs.tables.lookup name = some table → ∀ archive ∈ table.partitions,
    ∃ b, b ≠ 0 ∧ archive.blocks = [b] ∧ fs.storage.block b = []

section Steps
variable {config : FsConfig} {fs fs' : Filesystem} {name other : Bytes} {op : Op}

/-! ## What an operation does to the names -/

/-- The names in memory after an INSERT. -/
theorem mem_memTable_insert {now : Int64} {input : InsertInput} {table : MemTable}
    (h : table ∈ (processInsert config now input fs).2.memTable) :
    (∃ old ∈ fs.memTable, old.name = table.name) ∨
    ((processInsert config now input fs).1 = 0 ∧
      table.name = toUppercase input.tableName.bytes ∧
      existInDirectory fs input.tableName.bytes) := by
  rcases processInsert_cases config now input fs with ⟨status, -, heq⟩ | ⟨hexist, heq⟩
  · rw [heq] at h
    exact Or.inl ⟨table, h, rfl⟩
  · rw [heq] at h ⊢
    exact (name_of_mem_insertTkv h).imp_right fun hname => ⟨rfl, hname, hexist⟩

theorem tables_insert (config : FsConfig) (now : Int64) (input : InsertInput) (fs : Filesystem) :
    (processInsert config now input fs).2.tables = fs.tables ∧
      (processInsert config now input fs).2.storage = fs.storage := by
  rcases processInsert_cases config now input fs with ⟨status, -, heq⟩ | ⟨-, heq⟩
  · rw [heq]
    exact ⟨rfl, rfl⟩
  · rw [heq]
    exact ⟨rfl, rfl⟩

theorem compaction_cases (h : compaction config name fs = some fs') :
    fs' = fs ∨ ∃ storage table, fs' =
      { fs with storage, tables := fs.tables.insert name table } := by
  rcases compaction_eq_some h with ⟨rfl, -⟩ | ⟨table, tmpc, flag, -, hstart, -⟩
  · exact Or.inl rfl
  · obtain ⟨_, _, _, storage, _, -, -, -, rfl⟩ := startCompaction_eq_some hstart
    exact Or.inr ⟨storage, _, rfl⟩

/-- What a DROP does. -/
theorem processDrop_cases {input : DropInput} {status : Int32}
    (h : processDrop input fs = some (status, fs')) :
    (status ≠ 0 ∧ fs' = fs ∧ fs.tables.lookup (toUppercase input.tableName.bytes) = none) ∨
    (status = 0 ∧ ∃ storage, fs' = { fs with
      storage, tables := fs.tables.erase (toUppercase input.tableName.bytes) }) := by
  rcases processDrop_eq_some h with ⟨rfl, rfl, hnone⟩ | ⟨_, _, storage, rfl, -, -, -, rfl⟩
  · exact Or.inl ⟨by decide, rfl, hnone⟩
  · exact Or.inr ⟨rfl, storage, rfl⟩

theorem dump_memTable (h : dump fs = some fs') : fs'.memTable = [] := by
  obtain ⟨fs₁, -, rfl⟩ := Option.map_eq_some_iff.mp h
  rfl

theorem isSome_lookup_insert {tables : AList fun _ : Bytes => Table} {table : Table}
    (h : (tables.lookup other).isSome) : ((tables.insert name table).lookup other).isSome := by
  rw [AList.lookup_isSome] at h ⊢
  exact (AList.mem_insert _).mpr (Or.inr h)

/-- **Every table in memory keeps its directory.** -/
theorem Lodged.step (h : Lodged fs) (hclean : op.Clean fs) (hrun : op.run config fs = some fs') :
    Lodged fs' := by
  cases op with
  | insert now input =>
    obtain rfl := Option.some.inj hrun
    intro table hmem
    rw [existInDirectory, (tables_insert config now input fs).1]
    rcases mem_memTable_insert hmem with ⟨old, hold, hname⟩ | ⟨-, hname, hexist⟩
    · exact hname ▸ h old hold
    · rw [hname, toUppercase_toUppercase]
      exact hexist
  | create input =>
    obtain ⟨⟨status, fs₁⟩, hcreate, rfl⟩ := Option.map_eq_some_iff.mp hrun
    rcases processCreate_cases hcreate with ⟨-, rfl⟩ | ⟨-, -, taken, bitmap, -, -, rfl⟩
    · exact h
    · exact fun table hmem => isSome_lookup_insert (h table hmem)
  | drop input =>
    obtain ⟨⟨status, fs₁⟩, hdrop, rfl⟩ := Option.map_eq_some_iff.mp hrun
    rcases processDrop_cases hdrop with ⟨-, rfl, -⟩ | ⟨-, storage, rfl⟩
    · exact h
    · intro table hmem
      rw [existInDirectory, AList.lookup_erase_ne (hclean table hmem)]
      exact h table hmem
  | dump =>
    intro table hmem
    rw [dump_memTable hrun] at hmem
    exact absurd hmem List.not_mem_nil
  | compaction name =>
    rcases compaction_cases hrun with rfl | ⟨storage, table, rfl⟩
    · exact h
    · exact fun table hmem => isSome_lookup_insert (h table hmem)

/-! ## The ledger over the operations of the process -/

theorem Ledger.setMemTable (h : Ledger fs) (memTable : List MemTable) :
    Ledger { fs with memTable } := ⟨h.stocked, h.tidy⟩

theorem foldlM_dumpOne_invariant {P : Filesystem → Prop} {rest : List MemTable} (h : P fs)
    (hone : ∀ fs fs' : Filesystem, ∀ table ∈ rest, P fs → dumpOne fs table = some fs' → P fs')
    (hrun : rest.foldlM dumpOne fs = some fs') : P fs' := by
  induction rest generalizing fs with
  | nil =>
    obtain rfl := Option.some.inj hrun
    exact h
  | cons table rest ih =>
    rw [List.foldlM_cons] at hrun
    obtain ⟨fs₁, hfirst, hrest⟩ := Option.bind_eq_some_iff.mp hrun
    exact ih (hone _ _ _ List.mem_cons_self h hfirst)
      (fun fs fs' t ht => hone fs fs' t (List.mem_cons_of_mem _ ht)) hrest

theorem Ledger.run (h : Ledger fs) (hrun : op.run config fs = some fs') : Ledger fs' := by
  cases op with
  | insert now input =>
    obtain rfl := Option.some.inj hrun
    obtain ⟨htables, hstorage⟩ := tables_insert config now input fs
    exact ⟨htables ▸ hstorage ▸ h.stocked, htables ▸ h.tidy⟩
  | create input =>
    obtain ⟨⟨status, fs₁⟩, hcreate, rfl⟩ := Option.map_eq_some_iff.mp hrun
    exact (h.create hcreate).1
  | drop input =>
    obtain ⟨⟨status, fs₁⟩, hdrop, rfl⟩ := Option.map_eq_some_iff.mp hrun
    exact (h.drop hdrop).1
  | dump =>
    obtain ⟨fs₁, hfold, rfl⟩ := Option.map_eq_some_iff.mp hrun
    have hledger := foldlM_dumpOne_invariant h (fun _ _ _ _ hl hone => (hl.dumpOne hone).1) hfold
    exact hledger.setMemTable []
  | compaction name => exact (h.compaction hrun).1

/-! ## A table without records -/

theorem Gone.blank (h : Gone name fs) : Blank name fs :=
  ⟨h.memTable, fun table hlookup => by simp [h.lookup] at hlookup,
    fun table hlookup => by simp [h.lookup] at hlookup⟩

/-- An operation on another table. -/
theorem Blank.spares (h : Blank name fs) (hspares : Spares other fs fs') (hne : name ≠ other)
    (hmem : ∀ table ∈ fs'.memTable, toUppercase table.name ≠ name) : Blank name fs' := by
  have hlookup := hspares.lookup name hne
  refine ⟨hmem, fun table htable => h.tmps table (hlookup ▸ htable),
    fun table htable archive harchive => ?_⟩
  rw [hlookup] at htable
  obtain ⟨b, hzero, hblocks, hempty⟩ := h.partitions table htable archive harchive
  refine ⟨b, hzero, hblocks, (hspares.leaves b ?_ hzero).trans hempty⟩
  refine List.mem_flatten.mpr ⟨archive.blocks, owned_subset_erase htable hne ?_, ?_⟩
  · exact List.mem_map_of_mem (List.mem_append_left _ harchive)
  · rw [hblocks]
    exact List.mem_cons_self

theorem Blank.create {input : CreateInput} {status : Int32} (h : Blank name fs)
    (hledger : Ledger fs) (hrun : processCreate input fs = some (status, fs')) :
    Blank name fs' := by
  have hspares := (hledger.create hrun).2
  rcases processCreate_cases hrun with ⟨-, rfl⟩ | ⟨-, -, taken, bitmap, hmarked, -, rfl⟩
  · exact h
  by_cases hname : name = toUppercase input.tableName.bytes
  · subst hname
    refine ⟨h.memTable, fun table htable => ?_, fun table htable archive harchive => ?_⟩
    all_goals
      rw [AList.lookup_insert] at htable
      obtain rfl := Option.some.inj htable
    · rfl
    · obtain ⟨b, hb, rfl⟩ := List.mem_map.mp harchive
      have hfree : b ∈ availableBlocks fs.storage.bitmap :=
        hmarked.free_eq ▸ List.mem_append_left _ hb
      exact ⟨b, ne_of_mem_of_not_mem hfree (zero_not_mem_availableBlocks _), rfl,
        hledger.stocked.clean b hfree⟩
  · exact h.spares hspares hname h.memTable

theorem Blank.drop {input : DropInput} {status : Int32} (h : Blank name fs) (hledger : Ledger fs)
    (hrun : processDrop input fs = some (status, fs')) : Blank name fs' := by
  have hspares := (hledger.drop hrun).2
  rcases processDrop_cases hrun with ⟨-, rfl, -⟩ | ⟨-, storage, rfl⟩
  · exact h
  by_cases hname : name = toUppercase input.tableName.bytes
  · exact Gone.blank ⟨hname ▸ AList.lookup_erase .., h.memTable⟩
  · exact h.spares hspares hname h.memTable

theorem Blank.dump (h : Blank name fs) (hledger : Ledger fs) (hrun : Lissandra.dump fs = some fs') :
    Blank name fs' := by
  obtain ⟨fs₁, hfold, rfl⟩ := Option.map_eq_some_iff.mp hrun
  have hloop : Ledger fs₁ ∧ Blank name fs₁ := by
    refine foldlM_dumpOne_invariant (P := fun fs => Ledger fs ∧ Blank name fs) ⟨hledger, h⟩
      (fun before after table hmem hbefore hone => ?_) hfold
    obtain ⟨hledger', hspares⟩ := hbefore.1.dumpOne hone
    obtain ⟨storage, archive, directory, -, -, rfl⟩ := dumpOne_cases hone
    exact ⟨hledger', hbefore.2.spares hspares (Ne.symm (h.memTable table hmem)) hbefore.2.memTable⟩
  exact ⟨fun table hmem => absurd hmem List.not_mem_nil, hloop.2.tmps, hloop.2.partitions⟩

theorem Blank.compaction (h : Blank name fs) (hledger : Ledger fs)
    (hrun : Lissandra.compaction config other fs = some fs') : Blank name fs' := by
  have hspares := (hledger.compaction hrun).2
  by_cases hname : name = other
  · subst hname
    rcases compaction_of_noTmpc hrun fun table hlookup => (hledger.tidy _ _ hlookup).noTmpc with
      ⟨rfl, -⟩ | ⟨table, hlookup, htmps, -⟩
    · exact h
    · exact absurd (h.tmps table hlookup) htmps
  · rcases compaction_cases hrun with rfl | ⟨storage, table, rfl⟩
    · exact h
    · exact h.spares hspares hname h.memTable

/-- **A table without records gets one only from an INSERT.** -/
theorem Blank.step (h : Blank name fs) (hledger : Ledger fs)
    (hinsert : ¬ op.InsertsInto config name fs) (hrun : op.run config fs = some fs') :
    Blank name fs' := by
  cases op with
  | insert now input =>
    obtain rfl := Option.some.inj hrun
    obtain ⟨htables, hstorage⟩ := tables_insert config now input fs
    refine ⟨fun table hmem heq => ?_, htables ▸ h.tmps, htables ▸ hstorage ▸ h.partitions⟩
    rcases mem_memTable_insert hmem with ⟨old, hold, hname⟩ | ⟨haccepted, hname, -⟩
    · exact h.memTable old hold (hname ▸ heq)
    · rw [hname, toUppercase_toUppercase] at heq
      exact hinsert ⟨heq, haccepted⟩
  | create input =>
    obtain ⟨⟨status, fs₁⟩, hcreate, rfl⟩ := Option.map_eq_some_iff.mp hrun
    exact h.create hledger hcreate
  | drop input =>
    obtain ⟨⟨status, fs₁⟩, hdrop, rfl⟩ := Option.map_eq_some_iff.mp hrun
    exact h.drop hledger hdrop
  | dump => exact h.dump hledger hrun
  | compaction name => exact h.compaction hledger hrun

theorem searchKeyInFsArchive_empty {tkvSize b : Nat} {block : Nat → Bytes} (hempty : block b = [])
    (key : UInt16) : searchKeyInFsArchive tkvSize block [b] key = some Found.missing := by
  have hlayout : [b].map block = [([] : List Record)].flatMap (layoutBytes 2) := by
    rw [List.map_singleton, hempty]
    rfl
  rw [searchKeyInFsArchive_layout hlayout (by simp) (by simp)]
  rfl

/-- **A SELECT of a key of such a table finds nothing.** -/
theorem Blank.searchKey {table : Table} (h : Blank name fs) (hledger : Ledger fs)
    (hname : toUppercase name = name) (hlookup : fs.tables.lookup name = some table)
    (hne : table.partitions ≠ []) (key : UInt16) :
    Lissandra.searchKey config fs name key = some Found.missing := by
  have hlt : key.toNat % table.partitions.length < table.partitions.length :=
    Nat.mod_lt _ (List.length_pos_iff.mpr hne)
  obtain ⟨b, -, hblocks, hempty⟩ := h.partitions table hlookup _ (List.getElem_mem hlt)
  have htmpc : searchInTmpc config fs name key = some Found.missing := by
    simp [searchInTmpc, hlookup, (hledger.tidy _ _ hlookup).noTmpc]
  have htmps : searchInAllTmps config fs name key = some Found.missing := by
    simp [searchInAllTmps, hlookup, h.tmps table hlookup]
  have hpartition : searchInPartition config fs name key = some Found.missing := by
    simp [searchInPartition, hlookup, List.getElem?_eq_getElem hlt, hblocks,
      searchKeyInFsArchive_empty hempty]
  have hmemory : searchKeyInMemtable fs.memTable name key = some Found.missing := by
    have hnone : searchTableInMemtable fs.memTable name = none := by
      rw [searchTableInMemtable, List.find?_eq_none]
      intro table hmem
      rw [hname]
      simpa using h.memTable table hmem
    simp [searchKeyInMemtable, hnone]
  simp only [Lissandra.searchKey, searchKeyAcross, htmpc, htmps, hpartition, hmemory]
  rfl

end Steps

/-! ## Operations of every name -/

/-- An operation of the process, for every name. -/
inductive DirectoryOp where
  | insert (now : Int64) (input : InsertInput)
  | create (path : Mkdir) (input : CreateInput)
  | drop (input : DropInput)
  | dump
  | compaction (name : Bytes)

/-- The operation, executed alone. -/
def DirectoryOp.run (config : FsConfig) (directory : TablesDirectory) :
    DirectoryOp → Option TablesDirectory
  | .insert now input => some (directory.processInsert config now input).2
  | .create path input => (directory.processCreate path input).map Prod.snd
  | .drop input => (directory.processDrop input).map Prod.snd
  | .dump => directory.dump
  | .compaction name => directory.compaction config name

/-- An INSERT into `.` or `..` is refused for its value, and a CREATE that makes a directory makes
an entry of the tables directory. -/
def DirectoryOp.Named (config : FsConfig) (directory : TablesDirectory) : DirectoryOp → Prop
  | .insert _ input =>
      IsDots input.tableName.bytes → config.maxValueSize < input.value.bytes.length
  | .create path input => directory.mkdir input.tableName path ≠ .elsewhere
  | .drop _ | .dump | .compaction _ => True

/-- A DROP finds no element of its table in the memtable. -/
def DirectoryOp.Clean (directory : TablesDirectory) : DirectoryOp → Prop
  | .drop input => (Op.drop input).Clean directory.toFilesystem
  | .insert _ _ | .create _ _ | .dump | .compaction _ => True

/-- An INSERT into the table is accepted. -/
def DirectoryOp.InsertsInto (config : FsConfig) (name : Bytes) (directory : TablesDirectory) :
    DirectoryOp → Prop
  | .insert now input =>
      toUppercase input.tableName.bytes = name ∧ (directory.processInsert config now input).1 = 0
  | .create _ _ | .drop _ | .dump | .compaction _ => False

/-- Everything has the name of a table. -/
structure TablesOnly (directory : TablesDirectory) : Prop where
  strays : directory.strays = []
  memTable : ∀ table ∈ directory.memTable, ¬ IsDots table.name

section Named
variable {config : FsConfig} {directory directory' : TablesDirectory} {op : DirectoryOp}
  {name : Bytes}

theorem TablesOnly.mounted (fs : Filesystem) (h : fs.memTable = []) : TablesOnly fs.mounted :=
  ⟨rfl, fun _ hmem => absurd (h ▸ hmem) List.not_mem_nil⟩

theorem TablesOnly.of_memTable {fs : Filesystem} (h : TablesOnly directory)
    (hmem : fs.memTable ⊆ directory.memTable) :
    TablesOnly { directory with toFilesystem := fs } :=
  ⟨h.strays, fun table htable => h.memTable table (hmem htable)⟩

/-- Nothing happens to the tables, or what an operation on them does, which is as clean and inserts
into no other tables. -/
def DirectoryOp.ActsOnTables (config : FsConfig) (op : DirectoryOp)
    (directory directory' : TablesDirectory) : Prop :=
  directory'.toFilesystem = directory.toFilesystem ∨
    ∃ op' : Op, op'.run config directory.toFilesystem = some directory'.toFilesystem ∧
      (op.Clean directory → op'.Clean directory.toFilesystem) ∧
      ∀ name, op'.InsertsInto config name directory.toFilesystem →
        op.InsertsInto config name directory

theorem TablesOnly.insert (h : TablesOnly directory) {now : Int64} {input : InsertInput}
    (hnamed : (DirectoryOp.insert now input).Named config directory) :
    TablesOnly (directory.processInsert config now input).2 ∧
      (DirectoryOp.insert now input).ActsOnTables config directory
        (directory.processInsert config now input).2 := by
  by_cases hdots : IsDots input.tableName.bytes
  · have hrefused : directory.processInsert config now input = (-1, directory) := by
      have hexist : directory.existInDirectory input.tableName.bytes = true := by
        simp [TablesDirectory.existInDirectory, hdots]
      rw [TablesDirectory.processInsert, if_pos hexist, if_pos (hnamed hdots)]
    rw [hrefused]
    exact ⟨h, Or.inl rfl⟩
  · have hbase := @TablesDirectory.processInsert_named config directory now input h.strays hdots
    refine ⟨⟨?_, fun table hmem => ?_⟩,
      Or.inr ⟨.insert now input, ?_, fun _ => trivial, fun name hinsert => ⟨hinsert.1, ?_⟩⟩⟩
    · rw [hbase]
      exact h.strays
    · rw [hbase] at hmem
      rcases mem_memTable_insert hmem with ⟨old, hold, hname⟩ | ⟨-, hname, -⟩
      · exact hname ▸ h.memTable old hold
      · rw [hname, isDots_toUppercase]
        exact hdots
    · rw [hbase]
      rfl
    · rw [hbase]
      exact hinsert.2

theorem TablesOnly.create (h : TablesOnly directory) {path : Mkdir} {input : CreateInput}
    {status : Int32} (hnamed : (DirectoryOp.create path input).Named config directory)
    (hcreate : directory.processCreate path input = some (status, directory')) :
    TablesOnly directory' ∧
      (DirectoryOp.create path input).ActsOnTables config directory directory' := by
  rcases TablesDirectory.processCreate_cases hcreate with
    ⟨-, rfl⟩ | ⟨-, name, fs, -, hcreated, rfl⟩ | ⟨-, helsewhere, -⟩
  · exact ⟨h, Or.inl rfl⟩
  · have hmem : fs.memTable = directory.memTable := by
      rcases processCreate_cases hcreated with ⟨-, rfl⟩ | ⟨-, -, _, _, -, -, rfl⟩ <;> rfl
    have hrun : (Op.create { input with tableName := name }).run config directory.toFilesystem =
        some fs := by
      rw [Op.run, hcreated]
      rfl
    exact ⟨h.of_memTable (hmem ▸ List.Subset.refl _),
      Or.inr ⟨_, hrun, fun _ => trivial, fun _ => False.elim⟩⟩
  · exact absurd helsewhere hnamed

theorem TablesOnly.drop (h : TablesOnly directory) {input : DropInput} {status : Int32}
    (hprocess : directory.processDrop input = some (status, directory')) :
    TablesOnly directory' ∧
      (DirectoryOp.drop input).ActsOnTables config directory directory' := by
  obtain ⟨-, hmap⟩ := Option.ite_none_left_eq_some.mp hprocess
  obtain ⟨⟨status', fs⟩, hdrop, heq⟩ := Option.map_eq_some_iff.mp hmap
  obtain ⟨rfl, rfl⟩ := Prod.mk.inj heq
  have hmem : fs.memTable = directory.memTable := by
    rcases processDrop_cases hdrop with ⟨-, rfl, -⟩ | ⟨-, _, rfl⟩ <;> rfl
  refine ⟨h.of_memTable (hmem ▸ List.Subset.refl _),
    Or.inr ⟨.drop input, ?_, id, fun _ => False.elim⟩⟩
  rw [Op.run, hdrop]
  rfl

/-- **What an operation of a name that tables can have does** is nothing, or what an operation on
the tables does. -/
theorem TablesOnly.run (h : TablesOnly directory) (hnamed : op.Named config directory)
    (hrun : op.run config directory = some directory') :
    TablesOnly directory' ∧ op.ActsOnTables config directory directory' := by
  cases op with
  | insert now input =>
    obtain rfl := Option.some.inj hrun
    exact h.insert hnamed
  | create path input =>
    obtain ⟨⟨status, directory₁⟩, hcreate, rfl⟩ := Option.map_eq_some_iff.mp hrun
    exact h.create hnamed hcreate
  | drop input =>
    obtain ⟨⟨status, directory₁⟩, hprocess, rfl⟩ := Option.map_eq_some_iff.mp hrun
    exact h.drop hprocess
  | dump =>
    rw [DirectoryOp.run, TablesDirectory.dump_named h.memTable] at hrun
    obtain ⟨fs, hdump, rfl⟩ := Option.map_eq_some_iff.mp hrun
    refine ⟨h.of_memTable ?_, Or.inr ⟨.dump, hdump, fun _ => trivial, fun _ => False.elim⟩⟩
    rw [dump_memTable hdump]
    exact List.nil_subset _
  | compaction name =>
    obtain ⟨fs, hcompaction, rfl⟩ := Option.map_eq_some_iff.mp hrun
    have hmem : fs.memTable = directory.memTable := by
      rcases compaction_cases hcompaction with rfl | ⟨_, _, rfl⟩ <;> rfl
    exact ⟨h.of_memTable (hmem ▸ List.Subset.refl _),
      Or.inr ⟨.compaction name, hcompaction, fun _ => trivial, fun _ => False.elim⟩⟩

end Named

/-! ## Runs -/

instance (fs : Filesystem) : DecidablePred (Op.Clean fs)
  | .drop _ => inferInstanceAs (Decidable (∀ _ ∈ _, _))
  | .insert _ _ | .create _ | .dump | .compaction _ => isTrue trivial

instance (config : FsConfig) (directory : TablesDirectory) :
    DecidablePred (DirectoryOp.Named config directory)
  | .insert _ input => inferInstanceAs (Decidable (IsDots input.tableName.bytes → _))
  | .create path input => inferInstanceAs (Decidable (directory.mkdir input.tableName path ≠ _))
  | .drop _ | .dump | .compaction _ => isTrue trivial

instance (directory : TablesDirectory) : DecidablePred (DirectoryOp.Clean directory)
  | .drop input => inferInstanceAs (Decidable ((Op.drop input).Clean directory.toFilesystem))
  | .insert _ _ | .create _ _ | .dump | .compaction _ => isTrue trivial

section Runs
variable {config : FsConfig} {directory directory' : TablesDirectory} {name : Bytes}

theorem lodged_of_run {blockSize blocks : Nat}
    (h : Run (fun directory (op : DirectoryOp) => op.run config directory)
      (fun directory op _ => op.Named config directory ∧ op.Clean directory)
      (Filesystem.formatted blockSize blocks).mounted directory) :
    TablesOnly directory ∧ Ledger directory.toFilesystem ∧ Lodged directory.toFilesystem := by
  refine h.invariant (P := fun directory => TablesOnly directory ∧
    Ledger directory.toFilesystem ∧ Lodged directory.toFilesystem)
    ⟨.mounted _ rfl, ledger_formatted blockSize blocks, fun _ hmem => absurd hmem List.not_mem_nil⟩
    fun directory op directory' hbefore hrun hallowed => ?_
  obtain ⟨honly, hledger, hlodged⟩ := hbefore
  obtain ⟨honly', hsame | ⟨op', hrun', hclean, -⟩⟩ := honly.run hallowed.1 hrun
  · exact ⟨honly', hsame ▸ hledger, hsame ▸ hlodged⟩
  · exact ⟨honly', hledger.run hrun', hlodged.step (hclean hallowed.2) hrun'⟩

theorem blank_of_run (honly : TablesOnly directory) (hledger : Ledger directory.toFilesystem)
    (hblank : Blank name directory.toFilesystem)
    (h : Run (fun directory (op : DirectoryOp) => op.run config directory)
      (fun directory op _ => op.Named config directory ∧ ¬ op.InsertsInto config name directory)
      directory directory') :
    Ledger directory'.toFilesystem ∧ Blank name directory'.toFilesystem := by
  refine (h.invariant (P := fun directory => TablesOnly directory ∧
    Ledger directory.toFilesystem ∧ Blank name directory.toFilesystem) ⟨honly, hledger, hblank⟩
    fun directory op directory' hbefore hrun hallowed => ?_).2
  obtain ⟨honly, hledger, hblank⟩ := hbefore
  obtain ⟨honly', hsame | ⟨op', hrun', -, hinserts⟩⟩ := honly.run hallowed.1 hrun
  · exact ⟨honly', hsame ▸ hledger, hsame ▸ hblank⟩
  · exact ⟨honly', hledger.run hrun',
      hblank.step hledger (fun hinsert => hallowed.2 (hinserts name hinsert)) hrun'⟩

/-- **A dropped table leaves nothing behind, if the memtable has nothing of it.**  In every
state of a run whose operations are of names that tables can have, and whose DROPs find no element
of their table in the memtable, every table in memory has the directory that a dump will write
into.  After one more such DROP of a table nothing of it is left, and whatever happens next, as
long as no INSERT into it is accepted, a SELECT of a key of the table, should it exist again,
finds nothing. -/
theorem drop_leavesNothing {blockSize blocks : Nat}
    (hreach : Run (fun directory (op : DirectoryOp) => op.run config directory)
      (fun directory op _ => op.Named config directory ∧ op.Clean directory)
      (Filesystem.formatted blockSize blocks).mounted directory) :
    Lodged directory.toFilesystem ∧ ∀ input dropped,
      directory.processDrop input = some (0, dropped) → (DirectoryOp.drop input).Clean directory →
      Gone (toUppercase input.tableName.bytes) dropped.toFilesystem ∧
      ∀ later, Run (fun directory (op : DirectoryOp) => op.run config directory)
          (fun directory op _ => op.Named config directory ∧
            ¬ op.InsertsInto config (toUppercase input.tableName.bytes) directory) dropped later →
        ∀ table, later.tables.lookup (toUppercase input.tableName.bytes) = some table →
          table.partitions ≠ [] → ∀ key,
            searchKey config later.toFilesystem (toUppercase input.tableName.bytes) key =
              some Found.missing := by
  obtain ⟨honly, hledger, hlodged⟩ := lodged_of_run hreach
  refine ⟨hlodged, fun input dropped hprocess hclean => ?_⟩
  obtain ⟨-, hmap⟩ := Option.ite_none_left_eq_some.mp hprocess
  obtain ⟨⟨status, fs⟩, hdrop, heq⟩ := Option.map_eq_some_iff.mp hmap
  obtain ⟨rfl, rfl⟩ := Prod.mk.inj heq
  have hledger' := (hledger.drop hdrop).1
  have hafter : TablesOnly { directory with toFilesystem := fs } ∧
      Gone (toUppercase input.tableName.bytes) fs := by
    rcases processDrop_cases hdrop with ⟨hne, -⟩ | ⟨-, storage, rfl⟩
    · exact absurd rfl hne
    · exact ⟨honly.of_memTable (List.Subset.refl _), AList.lookup_erase .., hclean⟩
  refine ⟨hafter.2, fun later hlater table hlookup hne key => ?_⟩
  obtain ⟨hledger₂, hblank⟩ := blank_of_run hafter.1 hledger' hafter.2.blank hlater
  exact hblank.searchKey hledger₂ (toUppercase_toUppercase _) hlookup hne key

end Runs

/-- CREATE T. -/
def createT : DirectoryOp :=
  .create (.entry (.ofBytes [84])) ⟨.ofBytes [84], .strongConsistency, 1, 1000⟩

/-- INSERT 1 "a" 10 into a table. -/
def insertA (tableName : Bytes) : DirectoryOp :=
  .insert 0 ⟨.ofBytes tableName, 1, .ofBytes [97], 10⟩

/-- DROP T. -/
def dropT : DropInput := ⟨.ofBytes [84]⟩

/-- A run on a formatted filesystem of eight blocks. -/
def runDirectory (ops : List DirectoryOp) : Option TablesDirectory :=
  ops.foldlM (fun directory op => op.run ⟨32, 8⟩ directory) (Filesystem.formatted 32 8).mounted

theorem emptied_runs :
    (runSteps (fun directory (op : DirectoryOp) => op.run ⟨32, 8⟩ directory)
      (fun directory op _ => op.Named ⟨32, 8⟩ directory ∧ op.Clean directory)
      (Filesystem.formatted 32 8).mounted [createT, insertA [84], .dump]).isSome := by
  decide +kernel

/-- After CREATE T, INSERT T 1 "a" 10 and a dump. -/
def emptied : TablesDirectory :=
  (runSteps (fun directory (op : DirectoryOp) => op.run ⟨32, 8⟩ directory)
    (fun directory op _ => op.Named ⟨32, 8⟩ directory ∧ op.Clean directory)
    (Filesystem.formatted 32 8).mounted [createT, insertA [84], .dump]).get emptied_runs

theorem emptied_drops : (emptied.processDrop dropT).isSome := by decide +kernel

/-- And after DROP T. -/
def dropped : TablesDirectory := ((emptied.processDrop dropT).get emptied_drops).2

theorem dropped_creates : (createT.run ⟨32, 8⟩ dropped).isSome := by decide +kernel

/-- And after CREATE T. -/
def recreated : TablesDirectory := (createT.run ⟨32, 8⟩ dropped).get dropped_creates

theorem recreated_hasTable : (recreated.tables.lookup [84]).isSome := by decide +kernel

/-- The table is dropped with nothing of it in memory and created anew. -/
theorem drop_leavesNothing_recreated :
    Lodged emptied.toFilesystem ∧ Gone [84] dropped.toFilesystem ∧
      ∀ key, searchKey ⟨32, 8⟩ recreated.toFilesystem [84] key = some Found.missing := by
  obtain ⟨hlodged, hdrop⟩ := drop_leavesNothing
    (run_of_runSteps (Option.some_get emptied_runs).symm)
  have hstatus : emptied.processDrop dropT = some (0, dropped) := by
    have hone : ((emptied.processDrop dropT).get emptied_drops).1 = 0 := by decide +kernel
    rw [← hone]
    exact (Option.some_get emptied_drops).symm
  obtain ⟨hgone, hlater⟩ := hdrop dropT dropped hstatus (by decide +kernel)
  refine ⟨hlodged, hgone, hlater recreated ?_ _ (Option.some_get recreated_hasTable).symm
    (by decide +kernel)⟩
  exact Run.refl.step createT (Option.some_get dropped_creates).symm
    ⟨by decide +kernel, fun hinsert => hinsert⟩

/-- Without the dump the record is still in memory when the table is dropped: then a dump has
nowhere to write, and the table created anew answers with the record.  And with nothing in memory,
but an INSERT into `.` after the DROP, the dump writes an archive that is in no table. -/
theorem drop_leavesRecord :
    ((runDirectory [createT, insertA [84], .drop dropT]).map fun directory =>
        (directory.tables.keys, directory.memTable)) =
      some ([], [⟨[84], [[49, 48, 59, 49, 59, 97]]⟩]) ∧
    (runDirectory [createT, insertA [84], .drop dropT, .dump]).isNone ∧
    ((runDirectory [createT, insertA [84], .drop dropT, createT]).bind fun directory =>
        searchKey ⟨32, 8⟩ directory.toFilesystem [84] 1) = some ⟨10, 1, [97]⟩ ∧
    ((runDirectory [createT, .drop dropT, insertA dot, .dump]).map fun directory =>
        (directory.tables.keys, directory.strays)) =
      some ([], [[65, 49, 46, 84, 77, 80]]) := by
  refine ⟨?_, ?_, ?_, ?_⟩ <;> decide +kernel

end Lissandra
