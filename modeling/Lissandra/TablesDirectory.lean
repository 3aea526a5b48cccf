import Lissandra.Requests
import Lissandra.TableCatalog

/-! # Names that no table has

`exist_in_directory` compares a name with every entry of the tables directory, and `mkdir` follows
a path.  So an INSERT into `.` or `..` is accepted, and the dump that follows writes an archive
into the tables directory itself or next to it, whose name from then on is an entry too; and a
CREATE of a name with a `/` may take blocks for a directory that is no entry of the tables
directory, such as one inside the directory of a table.

These are the operations of the filesystem process for every name.  `Filesystem` has the tables
and the names that tables can have (`processInsert_named`, `processCreate_plain`).
-/
namespace Lissandra

/-- The tables, and in capital letters the names of the archives that dumps of `.` have left next
to them. -/
structure TablesDirectory extends Filesystem where
  strays : List Bytes

/-- What `mkdir` does with a path: it makes no directory, an entry of the tables directory (also for
a path such as `./T`), or another one. -/
inductive Mkdir where
  | fails
  | entry (name : CString)
  | elsewhere
  deriving DecidableEq

/-- `.` or `..`. -/
def IsDots (name : Bytes) : Prop := name = dot ∨ name = dotDot

instance : DecidablePred IsDots := fun _ => inferInstanceAs (Decidable (_ ∨ _))

/-- The tables and nothing else. -/
def Filesystem.mounted (fs : Filesystem) : TablesDirectory := ⟨fs, []⟩

/-! ## Names without letters -/

section Names
variable {name : Bytes}

theorem slash_mem_toUppercase : slash ∈ toUppercase name ↔ slash ∈ name := by
  have hslash : ∀ b : Byte, toUpper b = slash ↔ b = slash := fun b => toUpper_eq_iff (by decide)
  simp only [toUppercase, List.mem_map, hslash, exists_eq_right]

/-- A name without letters is written in one way. -/
theorem toUppercase_eq_iff {fixed : Bytes}
    (hfixed : ∀ c ∈ fixed, ¬ (65 ≤ c.toNat ∧ c.toNat ≤ 122)) :
    toUppercase name = fixed ↔ name = fixed := by
  induction fixed generalizing name with
  | nil => exact List.map_eq_nil_iff
  | cons c fixed ih =>
    have hfirst := hfixed c List.mem_cons_self
    have hrest := fun name => @ih name fun d hd => hfixed d (List.mem_cons_of_mem _ hd)
    rw [toUppercase, List.map_eq_cons_iff]
    constructor
    · rintro ⟨b, rest, rfl, hb, htail⟩
      rw [(toUpper_eq_iff hfirst).mp hb, (hrest rest).mp htail]
    · rintro rfl
      exact ⟨c, fixed, rfl, (toUpper_eq_iff hfirst).mpr rfl, (hrest fixed).mpr rfl⟩

theorem toUppercase_eq_dot : toUppercase name = dot ↔ name = dot := by
  apply toUppercase_eq_iff
  intro c hc
  rw [List.mem_singleton.mp hc]
  decide

theorem toUppercase_eq_dotDot : toUppercase name = dotDot ↔ name = dotDot := by
  apply toUppercase_eq_iff
  intro c hc
  rw [List.eq_of_mem_replicate (show c ∈ List.replicate 2 46 from hc)]
  decide

theorem isDots_toUppercase : IsDots (toUppercase name) ↔ IsDots name :=
  or_congr toUppercase_eq_dot toUppercase_eq_dotDot

end Names

namespace TablesDirectory

/-! ## The entries -/

/-- `exist_in_directory(name, get_table_directory())`. -/
def existInDirectory (directory : TablesDirectory) (name : Bytes) : Bool :=
  decide (IsDots name) || directory.strays.contains (toUppercase name) ||
    Lissandra.existInDirectory directory.toFilesystem name

/-- An entry of the tables directory that is no table. -/
def NoTable (directory : TablesDirectory) (name : Bytes) : Prop :=
  (IsDots name ∨ toUppercase name ∈ directory.strays) ∧
    Lissandra.existInDirectory directory.toFilesystem name = false

instance (directory : TablesDirectory) : DecidablePred directory.NoTable :=
  fun _ => inferInstanceAs (Decidable (_ ∧ _))

/-- `mkdir` in `create_table_folder`.  Without a `/` the name is that of an entry; where a path
with a `/` leads depends on the directories there are. -/
def mkdir (directory : TablesDirectory) (name : CString) (path : Mkdir) : Mkdir :=
  match if path = .fails ∨ slash ∈ name.bytes then path else .entry name with
  | .entry entry =>
    if PlainName entry.bytes ∧ Lissandra.existInDirectory directory.toFilesystem entry.bytes = false
    then .entry entry
    else .fails
  | other => other

/-- The loop of `create_fs_archive` in the tables directory, from a number on. -/
def freeTmpNumber (directory : TablesDirectory) : Nat → Nat → Nat
  | 0, tmpNumber => tmpNumber
  | turns + 1, tmpNumber =>
    if directory.existInDirectory (getTmpName tmpNumber) then
      directory.freeTmpNumber turns (tmpNumber + 1)
    else tmpNumber

/-- The name of the archive of a dump of `.`. -/
def strayName (directory : TablesDirectory) : Bytes :=
  toUppercase (getTmpName (directory.freeTmpNumber
    (directory.strays.length + directory.tables.entries.length) 1))

/-! ## Requests -/

/-- `process_insert` at the time `now`. -/
def processInsert (config : FsConfig) (now : Int64) (input : InsertInput)
    (directory : TablesDirectory) : Int32 × TablesDirectory :=
  let tableNameUpper := toUppercase input.tableName.bytes
  if directory.existInDirectory input.tableName.bytes then
    if config.maxValueSize < input.value.bytes.length then (-1, directory)
    else
      let timestamp := if input.timestamp = -1 then now else input.timestamp
      let tkv := createTkv { input with timestamp }
      (0, { directory with
        memTable := addTkv tableNameUpper tkv (createTable tableNameUpper directory.memTable) })
  else (-2, directory)

/-- `process_create`.  What is made elsewhere is not followed, but its blocks are taken. -/
def processCreate (path : Mkdir) (input : CreateInput) (directory : TablesDirectory) :
    Option (Int32 × TablesDirectory) :=
  if input.partitions < 0 then none
  else
    let count := input.partitions.toInt.toNat
    let (blocks, bitmap) := assignFreeBlocks directory.storage.bitmap count
    if blocks.length = count then
      match directory.mkdir input.tableName path with
      | .fails => some (-1, directory)
      | .entry name =>
        let table : Table :=
          ⟨input.consistency, input.compactionTime, blocks.map fun b => ⟨[b], 0⟩, [], none⟩
        some (0, { directory with
          storage := { directory.storage with bitmap }
          tables := directory.tables.insert (toUppercase name.bytes) table })
      | .elsewhere => some (0, { directory with storage := { directory.storage with bitmap } })
    else some (-2, directory)

/-- `process_drop`.  An entry that is no table has no `metadata.bin`, and the `NULL` of its
`fopen` is read from. -/
def processDrop (input : DropInput) (directory : TablesDirectory) :
    Option (Int32 × TablesDirectory) :=
  if directory.NoTable input.tableName.bytes then none
  else (Lissandra.processDrop input directory.toFilesystem).map fun (status, fs) =>
    (status, { directory with toFilesystem := fs })

/-! ## Dump and compaction -/

/-- One turn of the loop of `dump`. -/
def dumpOne (directory : TablesDirectory) (table : MemTable) : Option TablesDirectory :=
  if IsDots table.name then do
    let (storage, _) ← dumpTable directory.storage table.tkvs
    some { directory with
      storage
      strays := if table.name = dot then directory.strays ++ [directory.strayName]
        else directory.strays }
  else (Lissandra.dumpOne directory.toFilesystem table).map fun fs =>
    { directory with toFilesystem := fs }

/-- `dump`. -/
def dump (directory : TablesDirectory) : Option TablesDirectory :=
  (directory.memTable.foldlM dumpOne directory).map fun directory =>
    { directory with memTable := [] }

/-- `compaction`. -/
def compaction (config : FsConfig) (name : Bytes) (directory : TablesDirectory) :
    Option TablesDirectory :=
  (Lissandra.compaction config name directory.toFilesystem).map fun fs =>
    { directory with toFilesystem := fs }

/-! ## The names of tables -/

section Named
variable {config : FsConfig} {directory directory' : TablesDirectory} {now : Int64}

/-- What is found is a table, or an entry that is none. -/
theorem existInDirectory_iff {name : Bytes} : directory.existInDirectory name = true ↔
    directory.NoTable name ∨ Lissandra.existInDirectory directory.toFilesystem name = true := by
  cases hexist : Lissandra.existInDirectory directory.toFilesystem name <;>
    simp [existInDirectory, NoTable, hexist]

/-- Without stray archives a name other than `.` and `..` exists if it is that of a table. -/
theorem existInDirectory_named {name : Bytes} (hstrays : directory.strays = [])
    (hname : ¬ IsDots name) :
    directory.existInDirectory name = Lissandra.existInDirectory directory.toFilesystem name := by
  simp [existInDirectory, hstrays, hname]

/-- An INSERT into a name that a table can have. -/
theorem processInsert_named {input : InsertInput} (hstrays : directory.strays = [])
    (hname : ¬ IsDots input.tableName.bytes) :
    directory.processInsert config now input =
      let (status, fs) := Lissandra.processInsert config now input directory.toFilesystem
      (status, { directory with toFilesystem := fs }) := by
  unfold processInsert Lissandra.processInsert
  rw [existInDirectory_named hstrays hname]
  dsimp only
  split
  · split <;> rfl
  · rfl

/-- An entry that `mkdir` makes is a new one. -/
theorem mkdir_entry {name entry : CString} {path : Mkdir}
    (h : directory.mkdir name path = .entry entry) : PlainName entry.bytes ∧
      Lissandra.existInDirectory directory.toFilesystem entry.bytes = false := by
  unfold mkdir at h
  split at h
  · split at h
    · rename_i hnew
      obtain rfl := Mkdir.entry.inj h
      exact hnew
    · cases h
  · rename_i hother
    exact absurd h (hother entry)

/-- What a CREATE does. -/
theorem processCreate_cases {path : Mkdir} {input : CreateInput} {status : Int32}
    (h : directory.processCreate path input = some (status, directory')) :
    (status ≠ 0 ∧ directory' = directory) ∨
    (status = 0 ∧ ∃ name fs, directory.mkdir input.tableName path = .entry name ∧
      Lissandra.processCreate { input with tableName := name } directory.toFilesystem =
        some (0, fs) ∧ directory' = { directory with toFilesystem := fs }) ∨
    (status = 0 ∧ directory.mkdir input.tableName path = .elsewhere ∧
      ∃ bitmap, directory' = { directory with storage := { directory.storage with bitmap } }) := by
  unfold processCreate at h
  split at h
  · cases h
  rename_i hpartitions
  dsimp only at h
  split at h
  · rename_i hblocks
    cases hmkdir : directory.mkdir input.tableName path with
    | fails =>
      simp only [hmkdir] at h
      obtain ⟨rfl, rfl⟩ := Prod.mk.inj (Option.some.inj h)
      exact Or.inl ⟨by decide, rfl⟩
    | entry name =>
      simp only [hmkdir] at h
      obtain ⟨rfl, rfl⟩ := Prod.mk.inj (Option.some.inj h)
      refine Or.inr (Or.inl ⟨rfl, name, _, rfl, ?_, rfl⟩)
      obtain ⟨hplain, hnew⟩ := mkdir_entry hmkdir
      have hnone : (directory.tables.lookup (toUppercase name.bytes)).isSome = false := hnew
      rw [Lissandra.processCreate, if_neg (by simp [hpartitions, hplain])]
      dsimp only
      rw [if_pos hblocks, if_neg (by simp [hnone])]
    | elsewhere =>
      simp only [hmkdir] at h
      obtain ⟨rfl, rfl⟩ := Prod.mk.inj (Option.some.inj h)
      exact Or.inr (Or.inr ⟨rfl, rfl, _, rfl⟩)
  · obtain ⟨rfl, rfl⟩ := Prod.mk.inj (Option.some.inj h)
    exact Or.inl ⟨by decide, rfl⟩

/-- A CREATE of a name that a table can have. -/
theorem processCreate_plain {path : Mkdir} {input : CreateInput}
    (hplain : PlainName input.tableName.bytes) (hpath : path ≠ .fails) :
    directory.processCreate path input =
      (Lissandra.processCreate input directory.toFilesystem).map fun (status, fs) =>
        (status, { directory with toFilesystem := fs }) := by
  have hmkdir : directory.mkdir input.tableName path =
      if Lissandra.existInDirectory directory.toFilesystem input.tableName.bytes = false
      then .entry input.tableName else .fails := by
    have hslash : slash ∉ input.tableName.bytes := hplain.2.1
    simp [mkdir, hpath, hslash, hplain]
  unfold processCreate Lissandra.processCreate
  rw [hmkdir]
  by_cases hpartitions : input.partitions < 0
  · simp [hpartitions]
  · simp only [hpartitions, hplain, not_true, or_false, if_false]
    split
    · cases hexist : Lissandra.existInDirectory directory.toFilesystem input.tableName.bytes with
      | true =>
        have hsome : (directory.tables.lookup (toUppercase input.tableName.bytes)).isSome = true :=
          hexist
        simp [hsome]
      | false =>
        have hnone : (directory.tables.lookup (toUppercase input.tableName.bytes)).isSome = false :=
          hexist
        simp [hnone]
    · rfl

/-- A DROP of a name that a table can have. -/
theorem processDrop_named {input : DropInput} (hstrays : directory.strays = [])
    (hname : ¬ IsDots input.tableName.bytes) :
    directory.processDrop input =
      (Lissandra.processDrop input directory.toFilesystem).map fun (status, fs) =>
        (status, { directory with toFilesystem := fs }) := by
  rw [processDrop, if_neg]
  rintro ⟨hdots | hstray, -⟩
  · exact hname hdots
  · exact absurd (hstrays ▸ hstray) List.not_mem_nil

theorem foldlM_dumpOne_named {rest : List MemTable} (hrest : ∀ table ∈ rest, ¬ IsDots table.name) :
    rest.foldlM dumpOne directory =
      (rest.foldlM Lissandra.dumpOne directory.toFilesystem).map fun fs =>
        { directory with toFilesystem := fs } := by
  induction rest generalizing directory with
  | nil => rfl
  | cons table rest ih =>
    rw [List.foldlM_cons, List.foldlM_cons, dumpOne, if_neg (hrest table List.mem_cons_self)]
    cases Lissandra.dumpOne directory.toFilesystem table with
    | none => rfl
    | some fs => exact ih fun other hother => hrest other (List.mem_cons_of_mem _ hother)

/-- A dump of elements that tables can have. -/
theorem dump_named (hmem : ∀ table ∈ directory.memTable, ¬ IsDots table.name) :
    directory.dump = (Lissandra.dump directory.toFilesystem).map fun fs =>
      { directory with toFilesystem := fs } := by
  rw [dump, foldlM_dumpOne_named hmem, Lissandra.dump, Option.map_map, Option.map_map]
  rfl

end Named
end TablesDirectory
end Lissandra
