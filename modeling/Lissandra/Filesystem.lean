import Lissandra.BlockOwnership
import Lissandra.KeySearching
import Lissandra.Strings
import Mathlib.Data.List.AList

/-! # The filesystem process

The state of the process and its operations, each run alone: `process_insert`,
`process_create`, `process_drop`, `dump`, `compaction` and `search_key`.

A table is a directory of archives: the partitions `1.bin` to `n.bin`, where `n` is the
`partitions` of `metadata.bin`; the files `A1.tmp`, `A2.tmp` and so on that dumps leave,
possibly with numbers missing; and `A1.tmpc`, while a compaction runs.  Results are
`Option`s: `none` is a read past an array, a write to a file that could not be opened or a
division by zero.

Names are those that a table can have: entries of the tables directory other than `.` and `..`.
`TablesDirectory` has the operations for every name.
-/
namespace Lissandra

/-! ## The state -/

/-- `tkv_size()` and the `max_value_size` of the configuration. -/
structure FsConfig where
  tkvSize : Nat
  maxValueSize : Nat

/-- The directory of a table.  Entry `i` of `tmps` is the file `A<i + 1>.tmp`. -/
structure Table where
  consistency : Consistency
  compactionTime : Int64
  partitions : List Archive
  tmps : List (Option Archive)
  tmpc : Option Archive

/-- `table_t`, an element of `mem_table`. -/
structure MemTable where
  name : Bytes
  tkvs : List Bytes
  deriving DecidableEq

/-- The files under the mount point and `mem_table`. -/
structure Filesystem where
  storage : Storage
  tables : AList fun _ : Bytes => Table
  memTable : List MemTable

/-- A filesystem before any request. -/
def Filesystem.formatted (blockSize blocks : Nat) : Filesystem :=
  ⟨Storage.formatted blockSize blocks, ∅, []⟩

/-! ## Names -/

/-- `exist_in_directory(name, get_table_directory())` for a name that a table can have: the
entries `.` and `..` are in `TablesDirectory.existInDirectory`. -/
def existInDirectory (fs : Filesystem) (name : Bytes) : Bool :=
  (fs.tables.lookup (toUppercase name)).isSome

/-! ## Temporary archives -/

/-- The archives a loop over `A1.tmp`, `A2.tmp` and so on finds: it ends at the first
number that does not exist. -/
def existingTmps : List (Option Archive) → List Archive
  | some archive :: rest => archive :: existingTmps rest
  | _ => []

/-- The `tmp_number` at which that loop ends, less one. -/
def freeTmpNumber (tmps : List (Option Archive)) : Nat := (existingTmps tmps).length

/-- Write the file with this number. -/
def putTmp (number : Nat) (archive : Archive) (tmps : List (Option Archive)) :
    List (Option Archive) :=
  (tmps ++ List.replicate (number + 1 - tmps.length) none).set number (some archive)

/-- `create_fs_archive` with flag 1: the first number that does not exist. -/
def addTmp (archive : Archive) (tmps : List (Option Archive)) : List (Option Archive) :=
  putTmp (freeTmpNumber tmps) archive tmps

/-- `destroy_all_tmps`: the loop removes what it finds. -/
def destroyAllTmps : List (Option Archive) → List (Option Archive)
  | some _ :: rest => none :: destroyAllTmps rest
  | tmps => tmps

/-! ## INSERT -/

/-- `table_not_exist_in_list`, and `create_table` at the end of the list if so. -/
def createTable (name : Bytes) (memTable : List MemTable) : List MemTable :=
  if memTable.any fun table => table.name = name then memTable else memTable ++ [⟨name, []⟩]

/-- `find_table_in_list`, and `list_add` to its `tkvs`. -/
def addTkv (name tkv : Bytes) : List MemTable → List MemTable
  | [] => []
  | table :: rest =>
    if table.name = name then { table with tkvs := table.tkvs ++ [tkv] } :: rest
    else table :: addTkv name tkv rest

/-- `process_insert` at the time `now`: the status, and the state after it. -/
def processInsert (config : FsConfig) (now : Int64) (input : InsertInput) (fs : Filesystem) :
    Int32 × Filesystem :=
  let tableNameUpper := toUppercase input.tableName.bytes
  if existInDirectory fs input.tableName.bytes then
    if config.maxValueSize < input.value.bytes.length then (-1, fs)
    else
      let timestamp := if input.timestamp = -1 then now else input.timestamp
      let tkv := createTkv { input with timestamp }
      (0, { fs with
        memTable := addTkv tableNameUpper tkv (createTable tableNameUpper fs.memTable) })
  else (-2, fs)

/-! ## CREATE and DROP -/

/-- A name for which `mkdir` makes an entry of the tables directory. -/
def PlainName (name : Bytes) : Prop := name ≠ [] ∧ 47 ∉ name ∧ name ≠ [46] ∧ name ≠ [46, 46]

instance (name : Bytes) : Decidable (PlainName name) := inferInstanceAs (Decidable (_ ∧ _))

/-- `process_create`.  The bitmap is stored only if the table is new, and the blocks of its
partitions keep what they held.  A negative number of partitions declares an array of
negative length; a name with a `/` is a path, which is left to `TablesDirectory.processCreate`. -/
def processCreate (input : CreateInput) (fs : Filesystem) : Option (Int32 × Filesystem) :=
  if input.partitions < 0 ∨ ¬ PlainName input.tableName.bytes then none
  else
    let tableNameUpper := toUppercase input.tableName.bytes
    let count := input.partitions.toInt.toNat
    let (blocks, bitmap) := assignFreeBlocks fs.storage.bitmap count
    if blocks.length = count then
      if (fs.tables.lookup tableNameUpper).isSome then some (-1, fs)
      else
        let table : Table :=
          ⟨input.consistency, input.compactionTime, blocks.map fun b => ⟨[b], 0⟩, [], none⟩
        some (0, { fs with
          storage := { fs.storage with bitmap }
          tables := fs.tables.insert tableNameUpper table })
    else some (-2, fs)

/-- `free_partitions`. -/
def freePartitions (storage : Storage) (table : Table) : Option Storage :=
  table.partitions.foldlM freeBlocksOfFsArchive storage

/-- `free_blocks_of_all_tmps`. -/
def freeBlocksOfAllTmps (storage : Storage) (table : Table) : Option Storage :=
  (existingTmps table.tmps).foldlM freeBlocksOfFsArchive storage

/-- `process_drop`.  `mem_table` keeps what it has of the table. -/
def processDrop (input : DropInput) (fs : Filesystem) : Option (Int32 × Filesystem) :=
  match fs.tables.lookup (toUppercase input.tableName.bytes) with
  | none => some (-1, fs)
  | some table => do
    let storage ← freePartitions fs.storage table
    let storage ← freeBlocksOfAllTmps storage table
    some (0, { fs with
      storage
      tables := fs.tables.erase (toUppercase input.tableName.bytes) })

/-! ## Dump -/

/-- One turn of the loop of `dump`.  The archive of a table without a directory cannot be
opened. -/
def dumpOne (fs : Filesystem) (table : MemTable) : Option Filesystem := do
  let (storage, archive) ← dumpTable fs.storage table.tkvs
  let directory ← fs.tables.lookup (toUppercase table.name)
  some { fs with
    storage
    tables := fs.tables.insert (toUppercase table.name)
      { directory with tmps := addTmp archive directory.tmps } }

/-- `free_memtable`. -/
def freeMemtable (fs : Filesystem) : Filesystem := { fs with memTable := [] }

/-- `dump`. -/
def dump (fs : Filesystem) : Option Filesystem :=
  (fs.memTable.foldlM dumpOne fs).map freeMemtable

/-! ## Compaction -/

/-- `get_all_blocks_from_all_tmps`. -/
def getAllBlocksFromAllTmps (table : Table) : Archive :=
  ⟨(existingTmps table.tmps).flatMap Archive.blocks,
    ((existingTmps table.tmps).map Archive.size).sum⟩

/-- `create_partition_tkv_list`. -/
def createPartitionTkvList (config : FsConfig) (storage : Storage) (table : Table) :
    Option (List (List Record)) :=
  table.partitions.mapM fun partition => createTkvList config.tkvSize storage.block partition.blocks

/-- `add_record_to_partition_list`. -/
def addRecordToPartitionList (partition : List Record) (record : Record) : List Record :=
  match partition.find? fun r => r.key = record.key with
  | some recordFromPartition =>
    if recordFromPartition.timestamp < record.timestamp then
      partition.eraseP (fun r => r.key = record.key) ++ [record]
    else partition
  | none => partition ++ [record]

/-- `get_tkvs_to_insert`. -/
def getTkvsToInsert (tmpcTkvs : List Record) (partitionTkvs : List (List Record)) :
    Option (List (List Record)) :=
  tmpcTkvs.foldlM (fun partitions record =>
    if partitions = [] then none
    else some (partitions.modify (record.key.toNat % partitions.length) fun partition =>
      addRecordToPartitionList partition record)) partitionTkvs

/-- The part of `start_compaction` before the table is blocked: the partitions with the
records of `tmpc` put in. -/
def mergedPartitions (config : FsConfig) (storage : Storage) (table : Table) (tmpc : Archive) :
    Option (List (List Record)) := do
  let tmpcTkvs ← createTkvList config.tkvSize storage.block tmpc.blocks
  let partitionTkvs ← createPartitionTkvList config storage table
  getTkvsToInsert tmpcTkvs partitionTkvs

/-- Its next part: the blocks are free and, with `tmpDestroyFlag`, the temporary archives
are gone; A1.tmpc is gone in any case. -/
def freeArchives (storage : Storage) (table : Table) (tmpDestroyFlag : Bool) :
    Option (Storage × Table) := do
  let storage ← freePartitions storage table
  if tmpDestroyFlag then
    let storage ← freeBlocksOfAllTmps storage table
    some (storage, { table with tmps := destroyAllTmps table.tmps, tmpc := none })
  else some (storage, { table with tmpc := none })

/-- `create_new_partitions`. -/
def createNewPartitions (storage : Storage) : List (List Record) → Option (Storage × List Archive)
  | [] => some (storage, [])
  | partition :: rest => do
    let (storage, archive) ← createPartition storage partition
    let (storage, archives) ← createNewPartitions storage rest
    some (storage, archive :: archives)

/-- `start_compaction`. -/
def startCompaction (config : FsConfig) (fs : Filesystem) (name : Bytes) (table : Table)
    (tmpc : Archive) (tmpDestroyFlag : Bool) : Option Filesystem := do
  let partitionTkvs ← mergedPartitions config fs.storage table tmpc
  let (storage, table) ← freeArchives fs.storage table tmpDestroyFlag
  let (storage, partitions) ← createNewPartitions storage partitionTkvs
  some { fs with storage, tables := fs.tables.insert name { table with partitions } }

/-- `compaction`.  A leftover A1.tmpc is compacted in place of the temporary archives. -/
def compaction (config : FsConfig) (name : Bytes) (fs : Filesystem) : Option Filesystem :=
  match fs.tables.lookup name with
  | none => some fs
  | some table =>
    match table.tmpc with
    | some tmpc => startCompaction config fs name table tmpc false
    | none =>
      if existingTmps table.tmps = [] then some fs
      else startCompaction config fs name table (getAllBlocksFromAllTmps table) true

/-! ## SELECT -/

/-- `search_in_tmpc`.  A record that was not found has no key and no value yet. -/
def searchInTmpc (config : FsConfig) (fs : Filesystem) (name : Bytes) (key : UInt16) :
    Option Found := do
  let table ← fs.tables.lookup name
  match table.tmpc with
  | none => some Found.missing
  | some tmpc => searchKeyInFsArchive config.tkvSize fs.storage.block tmpc.blocks key

/-- `search_in_all_tmps`. -/
def searchInAllTmps (config : FsConfig) (fs : Filesystem) (name : Bytes) (key : UInt16) :
    Option Found := do
  let table ← fs.tables.lookup name
  (existingTmps table.tmps).foldlM (fun keyFoundInTmp tmp => do
    let keyFound ← searchKeyInFsArchive config.tkvSize fs.storage.block tmp.blocks key
    some (if keyFoundInTmp.timestamp < keyFound.timestamp then keyFound else keyFoundInTmp))
    Found.missing

/-- `search_in_partition`. -/
def searchInPartition (config : FsConfig) (fs : Filesystem) (name : Bytes) (key : UInt16) :
    Option Found := do
  let table ← fs.tables.lookup name
  let partition ← table.partitions[key.toNat % table.partitions.length]?
  searchKeyInFsArchive config.tkvSize fs.storage.block partition.blocks key

/-- `search_table_in_memtable`, by `string_equals_ignore_case`. -/
def searchTableInMemtable (memTable : List MemTable) (name : Bytes) : Option MemTable :=
  memTable.find? fun table => toUppercase table.name = toUppercase name

/-- `search_key_in_memtable`. -/
def searchKeyInMemtable (memTable : List MemTable) (name : Bytes) (key : UInt16) : Option Found :=
  match searchTableInMemtable memTable name with
  | none => some Found.missing
  | some table =>
    table.tkvs.foldlM (fun keyFound tkv => do
      let record ← convertRecord tkv
      some (if record.key = key ∧ keyFound.timestamp < record.timestamp then record.found
        else keyFound)) Found.missing

/-- `key_with_greater_timestamp`: the second one unless the first is strictly newer. -/
def keyWithGreaterTimestamp (key1 key2 : Found) : Found :=
  if key2.timestamp < key1.timestamp then key1 else key2

/-- The end of `search_key`.  `copy_key2` copies nothing else of a record with timestamp
-1, and `process_select` then fills in the answer. -/
def mostCurrentKey (inTmpc inTmp inPartition inMemtable : Found) : Found :=
  let mostCurrent := keyWithGreaterTimestamp
    (keyWithGreaterTimestamp (keyWithGreaterTimestamp inTmp inTmpc) inMemtable) inPartition
  if mostCurrent.timestamp = -1 then Found.missing else mostCurrent

/-- `search_key` in the directory of the table `name`, when each of the four lookups may
find the filesystem in another state. -/
def searchKeyAcross (config : FsConfig) (atTmpc atTmp atPartition atMemtable : Filesystem)
    (name : Bytes) (key : UInt16) : Option Found := do
  let inTmpc ← searchInTmpc config atTmpc name key
  let inTmp ← searchInAllTmps config atTmp name key
  let inPartition ← searchInPartition config atPartition name key
  let inMemtable ← searchKeyInMemtable atMemtable.memTable name key
  some (mostCurrentKey inTmpc inTmp inPartition inMemtable)

/-- `search_key` alone. -/
def searchKey (config : FsConfig) (fs : Filesystem) (name : Bytes) (key : UInt16) : Option Found :=
  searchKeyAcross config fs fs fs fs name key

end Lissandra
