import Lissandra.CreatedFiles
import Lissandra.DirectoryEntries
import Lissandra.Filesystem
import Lissandra.Runs

/-! # Tables as directories

The filesystem has no catalogue of its tables: a table is an entry of the directory `Tables`, and
each request looks for its name among the entries, ignoring case.  The operations are modelled here
as they work on the files, down to the paths; what they write into blocks, archives and the bitmap
does not matter to the entries and comes with the action.

A path to something that is not there is a `NULL` for `fopen`, which no caller checks; the process
ends, and the result is `none`.
-/
namespace Lissandra

/-- The mount point, the libraries and `max_value_size`. -/
structure DirectorySetting where
  mountPoint : Bytes
  commons : Bitarray
  dirent : FileTree.Dirent
  maxValueSize : Nat

/-- The files under the mount point and `mem_table`. -/
structure MountedTables extends MountedFiles where
  memTable : List MemTable

/-- A block that is taken: the bitmap that is stored, and what the block's file gets. -/
structure BlockWrite where
  bitmap : Bytes
  number : Nat
  content : Bytes

/-- An archive: its blocks, and its file. -/
structure ArchiveWrite where
  blocks : List BlockWrite
  content : Bytes

/-- What a compaction writes: the file A1.tmpc, the blocks that are free afterwards, the bitmap and
the archives of the partitions. -/
structure CompactionWrites where
  tmpc : Bytes
  freed : List Nat
  bitmap : Bytes
  partitions : Nat → ArchiveWrite

/-- What a DROP writes. -/
structure DropWrites where
  freed : List Nat
  bitmap : Bytes

/-- The `archive_flag` of `create_fs_archive`: 0, 1 or 2. -/
inductive ArchiveFlag where
  | tmpc
  | tmp
  | partition (partitionNumber : Nat)

/-! ## Names -/

/-- `Bloques/`. -/
def blocksName : Bytes := [66, 108, 111, 113, 117, 101, 115, 47]

/-- `get_tmp_name`. -/
def getTmpName (tmpNumber : Nat) : Bytes := 65 :: (decimal tmpNumber ++ [46, 116, 109, 112])

/-- `get_tmpc_name`. -/
def getTmpcName : Bytes := [65, 49, 46, 116, 109, 112, 99]

namespace DirectorySetting
variable (setting : DirectorySetting)

/-- `get_table_directory`. -/
def getTableDirectory : Bytes := setting.mountPoint ++ tablesName

/-- `create_block_directory`. -/
def createBlockDirectory (blockNumber : Nat) : Bytes :=
  setting.mountPoint ++ blocksName ++ partitionName blockNumber

/-! ## Directories -/

/-- `exist_in_directory`. -/
def existInDirectory (tree : FileTree) (archive directory : Bytes) : Bool :=
  match tree.opendir directory with
  | none => false
  | some place =>
    (setting.dirent.readdir tree place).any fun name => toUppercase name = toUppercase archive

/-- `get_tables_list`. -/
def getTablesList (tree : FileTree) : List Bytes :=
  match tree.opendir setting.getTableDirectory with
  | none => []
  | some place => ((setting.dirent.readdir tree place).filter fun name =>
      name ≠ dot ∧ name ≠ dotDot).map toUppercase

/-- An entry in the loop of `remove_directory`, where `inner` is its call for a directory. -/
def removeEntry (inner : FileTree → Bytes → Int32 × FileTree) (tree : FileTree) (buf : Bytes) :
    Int32 × FileTree :=
  match tree.locate buf with
  | none => (-1, tree)
  | some place =>
    if tree.isDirectory place then inner tree buf
    else match tree.unlink buf with
      | none => (-1, tree)
      | some tree => (0, tree)

/-- The loop of `remove_directory`, which goes on as long as the result is 0. -/
def removeEntries (inner : FileTree → Bytes → Int32 × FileTree) (path : Bytes) :
    List Bytes → FileTree → Int32 × FileTree
  | [], tree => (0, tree)
  | name :: rest, tree =>
    if name = dot ∨ name = dotDot then removeEntries inner path rest tree
    else
      let (r, tree) := removeEntry inner tree (path ++ slash :: name)
      if r = 0 then removeEntries inner path rest tree else (r, tree)

/-- `remove_directory`: its result, and the tree.  `depth` bounds how often it calls itself. -/
def removeDirectory : Nat → FileTree → Bytes → Int32 × FileTree
  | 0, tree, _ => (-1, tree)
  | depth + 1, tree, path =>
    let (r, tree) := match tree.opendir path with
      | none => (-1, tree)
      | some place =>
        removeEntries (removeDirectory depth) path (setting.dirent.readdir tree place) tree
    if r = 0 then
      match tree.rmdir setting.dirent path with
      | none => (-1, tree)
      | some tree => (0, tree)
    else (r, tree)

/-- `read_table_metadata`. -/
def readTableMetadata (tree : FileTree) (tableName : Bytes) : Option StoredMetadata :=
  tree.readFile (tableDirectory setting.mountPoint tableName ++ slash :: metadataName) >>=
    readMetadata

/-- How many entries a directory has, which is more than a loop over numbered ones can find. -/
def entriesOf (tree : FileTree) (directory : Bytes) : Nat :=
  match tree.opendir directory with
  | none => 0
  | some place => (setting.dirent.readdir tree place).length

/-- The loop of `create_fs_archive`, from a number on. -/
def freeTmpNumber (tree : FileTree) (directory : Bytes) : Nat → Nat → Nat
  | 0, tmpNumber => tmpNumber
  | turns + 1, tmpNumber =>
    if setting.existInDirectory tree (getTmpName tmpNumber) directory then
      freeTmpNumber tree directory turns (tmpNumber + 1)
    else tmpNumber

/-- The name of the file of an archive. -/
def archiveName (tree : FileTree) (directory : Bytes) : ArchiveFlag → Bytes
  | .tmpc => getTmpcName
  | .tmp => getTmpName
      (setting.freeTmpNumber tree directory (setting.entriesOf tree directory) 1)
  | .partition partitionNumber => partitionName partitionNumber

/-- `create_fs_archive`. -/
def createFsArchive (tree : FileTree) (tableName content : Bytes) (archiveFlag : ArchiveFlag) :
    Option FileTree :=
  let directory := tableDirectory setting.mountPoint (toUppercase tableName)
  tree.writeFile (directory ++ slash :: setting.archiveName tree directory archiveFlag) content

/-! ## Blocks -/

/-- A block from `find_free_block` to `fclose`. -/
def writeBlock (tree : FileTree) (block : BlockWrite) : Option FileTree := do
  let tree ← tree.writeFile (getBitmapDirectory setting.mountPoint) block.bitmap
  tree.writeFile (setting.createBlockDirectory block.number) block.content

/-- `free_block`. -/
def freeBlock (tree : FileTree) (blockNumber : Nat) : Option FileTree :=
  (tree.removeFile (setting.createBlockDirectory blockNumber)).writeFile
    (setting.createBlockDirectory blockNumber) []

/-- `dump_table` and `create_partition`. -/
def writeArchive (tree : FileTree) (tableName : Bytes) (archive : ArchiveWrite)
    (archiveFlag : ArchiveFlag) : Option FileTree := do
  let tree ← archive.blocks.foldlM setting.writeBlock tree
  setting.createFsArchive tree tableName archive.content archiveFlag

/-! ## Dump and compaction -/

/-- `dump`. -/
def dump (archives : MemTable → ArchiveWrite) (s : MountedTables) : Option MountedTables := do
  let tree ← s.memTable.foldlM (fun tree table =>
    setting.writeArchive tree table.name (archives table) .tmp) s.tree
  some { s with tree, memTable := [] }

/-- `destroy_all_tmps`, from a number on. -/
def destroyAllTmps (directory : Bytes) : Nat → Nat → FileTree → FileTree
  | 0, _, tree => tree
  | turns + 1, tmpNumber, tree =>
    if setting.existInDirectory tree (getTmpName tmpNumber) directory then
      destroyAllTmps directory turns (tmpNumber + 1)
        (tree.removeFile (directory ++ slash :: getTmpName tmpNumber))
    else tree

/-- `create_new_partitions`. -/
def createNewPartitions (tree : FileTree) (tableName : Bytes) (partitions : Nat)
    (archives : Nat → ArchiveWrite) : Option FileTree :=
  (List.range partitions).foldlM (fun tree i =>
    setting.writeArchive tree tableName (archives (i + 1)) (.partition (i + 1))) tree

/-- `start_compaction`. -/
def startCompaction (tree : FileTree) (tableName : Bytes) (metadata : StoredMetadata)
    (writes : CompactionWrites) (tmpDestroyFlag : Bool) : Option FileTree := do
  let directory := tableDirectory setting.mountPoint tableName
  let tree ← writes.freed.foldlM setting.freeBlock tree
  let tree := if tmpDestroyFlag then
      setting.destroyAllTmps directory (setting.entriesOf tree directory) 1 tree
    else tree
  let tree ← tree.writeFile (getBitmapDirectory setting.mountPoint) writes.bitmap
  setting.createNewPartitions (tree.removeFile (directory ++ slash :: getTmpcName)) tableName
    metadata.partitions.toInt.toNat writes.partitions

/-- `compaction`. -/
def compaction (tableName : Bytes) (writes : CompactionWrites) (tree : FileTree) :
    Option FileTree :=
  let directory := tableDirectory setting.mountPoint tableName
  if setting.existInDirectory tree tableName setting.getTableDirectory then do
    let metadata ← setting.readTableMetadata tree tableName
    if setting.existInDirectory tree getTmpcName directory then
      setting.startCompaction tree tableName metadata writes false
    else if setting.existInDirectory tree (getTmpName 1) directory then do
      let tree ← setting.createFsArchive tree tableName writes.tmpc .tmpc
      setting.startCompaction tree tableName metadata writes true
    else some tree
  else some tree

/-! ## Requests -/

/-- `process_select`, where `found` is what `search_key` returns if there is such a table. -/
def processSelect (found : Found) (input : SelectInput) (s : MountedTables) : Found :=
  if setting.existInDirectory s.tree input.tableName.bytes setting.getTableDirectory then
    if found.timestamp = -1 then ⟨-1, -1, [45, 49]⟩ else found
  else ⟨-2, -2, [45, 50]⟩

/-- `process_insert` at the time `now`. -/
def processInsert (now : Int64) (input : InsertInput) (s : MountedTables) :
    Int32 × MountedTables :=
  let tableNameUpper := toUppercase input.tableName.bytes
  if setting.existInDirectory s.tree input.tableName.bytes setting.getTableDirectory then
    if setting.maxValueSize < input.value.bytes.length then (-1, s)
    else
      let timestamp := if input.timestamp = -1 then now else input.timestamp
      let tkv := createTkv { input with timestamp }
      (0, { s with
        memTable := addTkv tableNameUpper tkv (createTable tableNameUpper s.memTable) })
  else (-2, s)

/-- `process_create`. -/
def processCreate (refused : Bool) (thread : Nat) (input : CreateInput) (s : MountedTables) :
    Option (Int32 × MountedTables) := do
  let (status, files) ← (CreateSetting.mk setting.mountPoint setting.commons refused thread)
    |>.processCreate input s.toMountedFiles
  some (status, { s with toMountedFiles := files })

/-- `process_describe`: the names and the metadata. -/
def processDescribe (input : DescribeInput) (s : MountedTables) :
    Option (List (Bytes × StoredMetadata)) :=
  match input.tableName with
  | none => (setting.getTablesList s.tree).mapM fun tableName => do
      let metadata ← setting.readTableMetadata s.tree tableName
      some (tableName, metadata)
  | some tableName =>
    if setting.existInDirectory s.tree tableName.bytes setting.getTableDirectory then do
      let metadata ← setting.readTableMetadata s.tree (toUppercase tableName.bytes)
      some [(toUppercase tableName.bytes, metadata)]
    else some []

/-- `process_drop`.  `free_partitions` reads the metadata of the table. -/
def processDrop (writes : DropWrites) (input : DropInput) (s : MountedTables) :
    Option (Int32 × MountedTables) :=
  let tableNameUpper := toUppercase input.tableName.bytes
  if setting.existInDirectory s.tree input.tableName.bytes setting.getTableDirectory then do
    let _ ← setting.readTableMetadata s.tree tableNameUpper
    let tree ← writes.freed.foldlM setting.freeBlock s.tree
    let (_, tree) := setting.removeDirectory (tree.height + 1) tree
      (tableDirectory setting.mountPoint tableNameUpper)
    let tree ← tree.writeFile (getBitmapDirectory setting.mountPoint) writes.bitmap
    some (0, { s with tree })
  else some (-1, s)

end DirectorySetting

/-! ## Runs -/

/-- The operations, each atomic. -/
inductive CatalogAction where
  | create (input : CreateInput) (refused : Bool) (thread : Nat)
  | insert (input : InsertInput) (now : Int64)
  | dump (archives : MemTable → ArchiveWrite)
  | compaction (tableName : Bytes) (writes : CompactionWrites)
  | drop (input : DropInput) (writes : DropWrites)

/-- What was answered to a CREATE or a DROP. -/
inductive CatalogAnswer where
  | create (tableName : Bytes) (status : Int32)
  | drop (tableName : Bytes) (status : Int32)

/-- A state, and the answers up to it. -/
abbrev CatalogHistory := MountedTables × List CatalogAnswer

/-- One operation.  Compactions are run by the threads of the tables. -/
def DirectorySetting.step (setting : DirectorySetting) :
    CatalogHistory → CatalogAction → Option CatalogHistory
  | (s, answers), .create input refused thread => do
    let (status, s) ← setting.processCreate refused thread input s
    some (s, answers ++ [.create input.tableName.bytes status])
  | (s, answers), .insert input now => some ((setting.processInsert now input s).2, answers)
  | (s, answers), .dump archives => do
    let s ← setting.dump archives s
    some (s, answers)
  | (s, answers), .compaction tableName writes =>
    if s.tableStateList.any fun state => state.name = tableName then do
      let tree ← setting.compaction tableName writes s.tree
      some ({ s with tree }, answers)
    else none
  | (s, answers), .drop input writes => do
    let (status, s) ← setting.processDrop writes input s
    some (s, answers ++ [.drop input.tableName.bytes status])

/-- A CREATE of the name succeeded and no later DROP of it did, ignoring case. -/
def IsTable (answers : List CatalogAnswer) (tableName : Bytes) : Prop :=
  ∃ before created after, answers = before ++ .create created 0 :: after ∧
    toUppercase created = toUppercase tableName ∧
    ∀ dropped, .drop dropped 0 ∈ after → toUppercase dropped ≠ toUppercase tableName

end Lissandra
