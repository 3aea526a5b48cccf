import Lissandra.DropLeftovers
import Lissandra.TableExistence

/-! # The tree of files and the tables

The operations on names are modelled twice: on the tree of files, where a name is looked for among
the entries of a directory (`DirectorySetting`), and on the tables with their archives
(`TablesDirectory`).  A run of each that gave the same answers to CREATE and DROP ends in states
that know the same names (`existInDirectory_agrees`), so INSERT answers the same in both and does
the same to `mem_table` (`processInsert_agrees`).
-/
namespace Lissandra

/-- The tables, and the answers up to here. -/
abbrev DirectoryHistory := TablesDirectory × List CatalogAnswer

/-- One operation, and its answer. -/
def DirectoryOp.step (config : FsConfig) : DirectoryHistory → DirectoryOp → Option DirectoryHistory
  | (directory, answers), .create path input => do
    let (status, directory) ← directory.processCreate path input
    some (directory, answers ++ [.create input.tableName.bytes status])
  | (directory, answers), .drop input => do
    let (status, directory) ← directory.processDrop input
    some (directory, answers ++ [.drop input.tableName.bytes status])
  | (directory, answers), .insert now input =>
    some ((directory.processInsert config now input).2, answers)
  | (directory, answers), .dump => do
    let directory ← directory.dump
    some (directory, answers)
  | (directory, answers), .compaction name => do
    let directory ← directory.compaction config name
    some (directory, answers)

/-- No INSERT is for `.` or `..`, and no CREATE makes a directory for a name with a slash. -/
def DirectoryOp.Regular (history : DirectoryHistory) : DirectoryOp → Prop
  | .insert _ input => ¬ IsDots input.tableName.bytes
  | .create path input =>
    slash ∈ input.tableName.bytes → history.1.mkdir input.tableName path = .fails
  | .drop _ | .dump | .compaction _ => True

/-- The tables are those that the answers tell of. -/
structure Answered (history : DirectoryHistory) : Prop where
  tablesOnly : TablesOnly history.1
  tables : ∀ name, Lissandra.existInDirectory history.1.toFilesystem name = true ↔
    IsTable history.2 name

/-- An entry that is there is written again. -/
theorem isSome_lookup_insert_of_isSome {tables : AList fun _ : Bytes => Table} {key : Bytes}
    {table : Table} (h : (tables.lookup key).isSome) (name : Bytes) :
    ((tables.insert key table).lookup name).isSome = (tables.lookup name).isSome := by
  by_cases hname : name = key
  · rw [hname, AList.lookup_insert, h]
    rfl
  · rw [AList.lookup_insert_ne hname]

theorem existInDirectory_dump {fs fs' : Filesystem} (h : dump fs = some fs') (name : Bytes) :
    existInDirectory fs' name = existInDirectory fs name := by
  obtain ⟨fs₁, hfold, rfl⟩ := Option.map_eq_some_iff.mp h
  change existInDirectory fs₁ name = existInDirectory fs name
  refine foldlM_dumpOne_invariant
    (P := fun fs₁ => existInDirectory fs₁ name = existInDirectory fs name) rfl
    (fun before after table _ hbefore hone => ?_) hfold
  obtain ⟨storage, archive, directory, -, hlookup, rfl⟩ := dumpOne_cases hone
  exact (isSome_lookup_insert_of_isSome (Option.isSome_of_mem hlookup) _).trans hbefore

theorem existInDirectory_compaction {config : FsConfig} {key : Bytes} {fs fs' : Filesystem}
    (h : compaction config key fs = some fs') (name : Bytes) :
    existInDirectory fs' name = existInDirectory fs name := by
  rcases compaction_eq_some h with ⟨rfl, -⟩ | ⟨table, tmpc, flag, hlookup, hstart, -⟩
  · rfl
  · obtain ⟨_, _, _, storage, _, -, -, -, rfl⟩ := startCompaction_eq_some hstart
    exact isSome_lookup_insert_of_isSome (Option.isSome_of_mem hlookup) _

section Answered
variable {config : FsConfig} {directory directory' : TablesDirectory} {name : Bytes}
  {answers : List CatalogAnswer}

/-- What changes no name changes nothing. -/
theorem Answered.keeps {fs : Filesystem} (h : Answered (directory, answers))
    (honly : TablesOnly { directory with toFilesystem := fs })
    (htables : ∀ name, Lissandra.existInDirectory fs name =
      Lissandra.existInDirectory directory.toFilesystem name) :
    Answered ({ directory with toFilesystem := fs }, answers) :=
  ⟨honly, fun name => (congrArg (· = true) (htables name)).to_iff.trans (h.tables name)⟩

/-- An answer other than 0. -/
theorem Answered.refused (h : Answered (directory, answers)) {answer : CatalogAnswer}
    (hanswer : ∀ name, answer ≠ .create name 0 ∧ answer ≠ .drop name 0) :
    Answered (directory, answers ++ [answer]) :=
  ⟨h.tablesOnly, fun name => (h.tables name).trans (isTable_concat_refused hanswer).symm⟩

theorem Answered.create (h : Answered (directory, answers)) {path : Mkdir} {input : CreateInput}
    {status : Int32} (hregular : (DirectoryOp.create path input).Regular (directory, answers))
    (hcreate : directory.processCreate path input = some (status, directory')) :
    Answered (directory', answers ++ [.create input.tableName.bytes status]) := by
  have hslash : ∀ made, directory.mkdir input.tableName path = made → made ≠ .fails →
      made = .entry input.tableName := by
    rintro made rfl hne
    have hplain : slash ∉ input.tableName.bytes := fun hmem => hne (hregular hmem)
    by_cases hfails : path = .fails
    · simp [TablesDirectory.mkdir, hfails] at hne
    · by_cases hnew : PlainName input.tableName.bytes ∧
          existInDirectory directory.toFilesystem input.tableName.bytes = false
      · simp [TablesDirectory.mkdir, hfails, hplain, hnew]
      · simp [TablesDirectory.mkdir, hfails, hplain, hnew] at hne
  rcases TablesDirectory.processCreate_cases hcreate with
    ⟨hstatus, rfl⟩ | ⟨rfl, made, fs, hmkdir, hcreated, rfl⟩ | ⟨-, hmkdir, -⟩
  · refine h.refused fun name => ⟨fun heq => hstatus ?_, fun heq => by cases heq⟩
    exact (CatalogAnswer.create.inj heq).2
  · obtain rfl := Mkdir.entry.inj (hslash _ hmkdir (by simp))
    rcases processCreate_cases hcreated with ⟨hstatus, -⟩ | ⟨-, -, _, _, -, -, rfl⟩
    · exact absurd rfl hstatus
    refine ⟨h.tablesOnly.of_memTable (List.Subset.refl _), fun name => ?_⟩
    rw [isTable_concat_create, ← h.tables name]
    show ((AList.insert _ _ directory.tables).lookup (toUppercase name)).isSome = true ↔ _
    rw [AList.lookup_isSome, AList.mem_insert, eq_comm]
    exact or_congr Iff.rfl AList.lookup_isSome.symm
  · exact absurd (hslash _ hmkdir (by simp)) (by simp)

theorem Answered.drop (h : Answered (directory, answers)) {input : DropInput} {status : Int32}
    (hdrop : directory.processDrop input = some (status, directory')) :
    Answered (directory', answers ++ [.drop input.tableName.bytes status]) := by
  obtain ⟨-, hmap⟩ := Option.ite_none_left_eq_some.mp hdrop
  obtain ⟨⟨status', fs⟩, hprocess, heq⟩ := Option.map_eq_some_iff.mp hmap
  obtain ⟨rfl, rfl⟩ := Prod.mk.inj heq
  rcases processDrop_cases hprocess with ⟨hstatus, rfl, -⟩ | ⟨rfl, storage, rfl⟩
  · refine h.refused fun name => ⟨fun heq => (by cases heq), fun heq => hstatus ?_⟩
    exact (CatalogAnswer.drop.inj heq).2
  · refine ⟨h.tablesOnly.of_memTable (List.Subset.refl _), fun name => ?_⟩
    rw [isTable_concat_drop, ← h.tables name]
    show ((AList.erase _ directory.tables).lookup (toUppercase name)).isSome = true ↔ _
    rw [AList.lookup_isSome, AList.mem_erase, ne_comm]
    exact and_congr Iff.rfl AList.lookup_isSome.symm

/-- **A step keeps the tables in agreement with the answers.** -/
theorem Answered.step {history history' : DirectoryHistory} {op : DirectoryOp}
    (h : Answered history) (hregular : op.Regular history)
    (hstep : op.step config history = some history') : Answered history' := by
  obtain ⟨directory, answers⟩ := history
  cases op with
  | create path input =>
    obtain ⟨⟨status, directory'⟩, hcreate, heq⟩ := Option.bind_eq_some_iff.mp hstep
    obtain rfl := Option.some.inj heq
    exact h.create hregular hcreate
  | drop input =>
    obtain ⟨⟨status, directory'⟩, hdrop, heq⟩ := Option.bind_eq_some_iff.mp hstep
    obtain rfl := Option.some.inj heq
    exact h.drop hdrop
  | insert now input =>
    obtain rfl := Option.some.inj hstep
    have hnamed : (DirectoryOp.insert now input).Named config directory :=
      fun hdots => absurd hdots hregular
    have honly := (h.tablesOnly.run hnamed rfl).1
    rw [TablesDirectory.processInsert_named h.tablesOnly.strays hregular] at honly ⊢
    refine h.keeps honly fun name => ?_
    rw [existInDirectory, (tables_insert config now input directory.toFilesystem).1]
    rfl
  | dump =>
    obtain ⟨directory', hdump, heq⟩ := Option.bind_eq_some_iff.mp hstep
    obtain rfl := Option.some.inj heq
    have honly := (@TablesOnly.run config _ _ .dump h.tablesOnly trivial hdump).1
    rw [TablesDirectory.dump_named h.tablesOnly.memTable] at hdump
    obtain ⟨fs, hbase, rfl⟩ := Option.map_eq_some_iff.mp hdump
    exact h.keeps honly (existInDirectory_dump hbase)
  | compaction name =>
    obtain ⟨directory', hcompaction, heq⟩ := Option.bind_eq_some_iff.mp hstep
    obtain rfl := Option.some.inj heq
    have honly := (@TablesOnly.run config _ _ (.compaction name) h.tablesOnly trivial hcompaction).1
    obtain ⟨fs, hbase, rfl⟩ := Option.map_eq_some_iff.mp hcompaction
    exact h.keeps honly (existInDirectory_compaction hbase)

end Answered

/-! ## Two runs with the same answers -/

section Agreement
variable {setting : DirectorySetting} {start s : MountedTables} {config : FsConfig}
  {directory : TablesDirectory} {answers : List CatalogAnswer} {blockSize blocks : Nat}

theorem answered_of_run
    (h : Run (DirectoryOp.step config) (fun history op _ => op.Regular history)
      ((Filesystem.formatted blockSize blocks).mounted, []) (directory, answers)) :
    Answered (directory, answers) := by
  refine h.invariant (P := Answered) ⟨.mounted _ rfl, fun name => iff_of_false ?_ ?_⟩
    fun history op history' hbefore hstep hregular => hbefore.step hregular hstep
  · exact Bool.false_ne_true
  · rintro ⟨before, created, after, heq, -⟩
    exact List.append_ne_nil_of_right_ne_nil before (List.cons_ne_nil _ _) heq.symm

/-- **Both know the same names.**  For every run on the tree of files and every run on the tables
that answered the same to every CREATE and DROP, `exist_in_directory` is the same function. -/
theorem existInDirectory_agrees (hfresh : setting.Fresh start)
    (htree : Run setting.step (fun history action _ => setting.Regular history action) (start, [])
      (s, answers))
    (htables : Run (DirectoryOp.step config) (fun history op _ => op.Regular history)
      ((Filesystem.formatted blockSize blocks).mounted, []) (directory, answers)) (name : Bytes) :
    setting.existInDirectory s.tree name setting.getTableDirectory =
      directory.existInDirectory name := by
  obtain ⟨tables, blocks, metadata, hmount⟩ := hfresh.1
  have hcatalogued := hfresh.catalogued hmount htree
  have hanswered := answered_of_run htables
  have hfound : directory.existInDirectory name = true ↔
      IsDots name ∨ existInDirectory directory.toFilesystem name = true := by
    have hstrays : directory.strays = [] := hanswered.tablesOnly.strays
    simp [TablesDirectory.existInDirectory, hstrays]
  rw [Bool.eq_iff_iff, hcatalogued.existInDirectory hmount, hfound, hanswered.tables name,
    IsDots, or_assoc]

/-- **INSERT is the same in both**: it answers the same, and appends the same to the same
`mem_table`. -/
theorem processInsert_agrees (hfresh : setting.Fresh start)
    (htree : Run setting.step (fun history action _ => setting.Regular history action) (start, [])
      (s, answers))
    (htables : Run (DirectoryOp.step config) (fun history op _ => op.Regular history)
      ((Filesystem.formatted blockSize blocks).mounted, []) (directory, answers))
    (hmemTable : s.memTable = directory.memTable)
    (hsize : setting.maxValueSize = config.maxValueSize) (now : Int64) (input : InsertInput) :
    (setting.processInsert now input s).1 = (directory.processInsert config now input).1 ∧
      (setting.processInsert now input s).2.memTable =
        (directory.processInsert config now input).2.memTable := by
  unfold DirectorySetting.processInsert TablesDirectory.processInsert
  rw [existInDirectory_agrees hfresh htree htables, hmemTable, hsize]
  dsimp only
  split
  · split
    · exact ⟨rfl, hmemTable⟩
    · exact ⟨rfl, rfl⟩
  · exact ⟨rfl, hmemTable⟩

end Agreement
end Lissandra
