import Lissandra.OutOfBlocks

/-! # The file operations of a compaction

`compaction` and `start_compaction` as the list of operations they make on files, in
order: A1.tmpc is written; the block files of the partitions and then of the temporary
archives are removed and made anew, one by one; the temporary archives are removed; the
bitmap is written; A1.tmpc is removed; and each partition is written, block after block.
What one call of `write_bitmap` or `create_fs_archive` does to its file counts as one
operation.

All of them leave what `compaction` leaves (`applyOps_compaction`), so a prefix of the
list is a compaction that was interrupted.
-/
namespace Lissandra

/-! ## Operations -/

/-- What a compaction works on: the block files and the bitmap, the directory of the table,
and the block files that are missing. -/
structure Disk where
  storage : Storage
  table : Table
  missing : List Nat

/-- One operation on a file.  `createBlock` is `fopen` of a block for writing. -/
inductive FileOp where
  | removeBlock (block : Nat)
  | createBlock (block : Nat)
  | writeBlock (block : Nat) (text : Bytes)
  | writeBitmap (bitmap : List Bool)
  | writeTmpc (archive : Archive)
  | removeTmpc
  | removeTmp (i : Nat)
  | writePartition (i : Nat) (archive : Archive)

/-- A block file with these bytes. -/
def Storage.setBlock (storage : Storage) (block : Nat) (text : Bytes) : Storage :=
  { storage with block := Function.update storage.block block text }

/-- The files after it. -/
def FileOp.apply (disk : Disk) : FileOp → Disk
  | .removeBlock block =>
    { disk with storage := disk.storage.setBlock block [], missing := block :: disk.missing }
  | .createBlock block =>
    { disk with storage := disk.storage.setBlock block [], missing := disk.missing.erase block }
  | .writeBlock block text =>
    { disk with storage := disk.storage.setBlock block (disk.storage.block block ++ text) }
  | .writeBitmap bitmap => { disk with storage := { disk.storage with bitmap } }
  | .writeTmpc archive => { disk with table := { disk.table with tmpc := some archive } }
  | .removeTmpc => { disk with table := { disk.table with tmpc := none } }
  | .removeTmp i => { disk with table := { disk.table with tmps := disk.table.tmps.set i none } }
  | .writePartition i archive =>
    { disk with table := { disk.table with partitions := disk.table.partitions.set i archive } }

/-- The files after several. -/
def applyOps (ops : List FileOp) (disk : Disk) : Disk := ops.foldl FileOp.apply disk

@[simp] theorem applyOps_nil (disk : Disk) : applyOps [] disk = disk := rfl

@[simp] theorem applyOps_cons (op : FileOp) (ops : List FileOp) (disk : Disk) :
    applyOps (op :: ops) disk = applyOps ops (op.apply disk) := rfl

theorem applyOps_append (ops more : List FileOp) (disk : Disk) :
    applyOps (ops ++ more) disk = applyOps more (applyOps ops disk) := List.foldl_append

/-! ## The writer -/

namespace BlockWriter

/-- `write_bitmap` and `open_block`. -/
def nextBlockOps (w : BlockWriter) : List FileOp :=
  [.writeBitmap w.nextBlock.storage.bitmap, .createBlock w.nextBlock.theBlock]

/-- The inner `while (true)`. -/
def writePiecesOps : Nat → Bytes → BlockWriter → List FileOp
  | 0, _, _ => []
  | fuel + 1, tkv, w =>
    if tkv.length ≤ w.room then [.writeBlock w.theBlock (line tkv)]
    else
      let piece := tkv.take (w.room - 1) ++ [newline]
      .writeBlock w.theBlock (line piece) :: ((w.writeTkv piece).nextBlockOps ++
        writePiecesOps fuel (tkv.drop (w.room - 1)) (w.writeTkv piece).nextBlock)

/-- One turn of the outer loop. -/
def writeRecordOps (w : BlockWriter) (tkv : Bytes) : List FileOp :=
  if tkv.length < w.room then
    .writeBlock w.theBlock (line tkv) ::
      if (w.writeWhole tkv).room ≤ 1 then (w.writeWhole tkv).nextBlockOps else []
  else
    writePiecesOps (tkv.length + 2) tkv w ++
      match writePieces (tkv.length + 2) tkv w with
      | some w => if w.room ≤ 1 then w.nextBlockOps else []
      | none => []

/-- The outer loop. -/
def writeRecordsOps (w : BlockWriter) : List Bytes → List FileOp
  | [] => []
  | tkv :: rest =>
    w.writeRecordOps tkv ++
      match w.writeRecord tkv with
      | some w => w.writeRecordsOps rest
      | none => []

variable {w w' : BlockWriter} {table : Table}

theorem applyOps_writeTkv (tkv : Bytes) (w : BlockWriter) (table : Table) :
    FileOp.apply ⟨w.storage, table, []⟩ (.writeBlock w.theBlock (line tkv)) =
      ⟨(w.writeTkv tkv).storage, table, []⟩ := rfl

theorem applyOps_nextBlock (w : BlockWriter) (table : Table) :
    applyOps w.nextBlockOps ⟨w.storage, table, []⟩ = ⟨w.nextBlock.storage, table, []⟩ := rfl

theorem applyOps_room (w : BlockWriter) (table : Table) :
    applyOps (if w.room ≤ 1 then w.nextBlockOps else []) ⟨w.storage, table, []⟩ =
      ⟨(if w.room ≤ 1 then w.nextBlock else w).storage, table, []⟩ := by
  split
  · exact applyOps_nextBlock w table
  · rfl

theorem applyOps_writePieces {fuel : Nat} {tkv : Bytes} (h : writePieces fuel tkv w = some w') :
    applyOps (writePiecesOps fuel tkv w) ⟨w.storage, table, []⟩ = ⟨w'.storage, table, []⟩ := by
  induction fuel generalizing tkv w with
  | zero => exact absurd h (by simp [writePieces])
  | succ fuel ih =>
    rw [writePieces] at h
    rw [writePiecesOps]
    split at h
    · obtain rfl := Option.some.inj h
      rw [if_pos ‹_›]
      rfl
    · rw [if_neg ‹_›, applyOps_cons, applyOps_append, applyOps_writeTkv, applyOps_nextBlock]
      exact ih h

theorem applyOps_writeRecord {tkv : Bytes} (h : w.writeRecord tkv = some w') :
    applyOps (w.writeRecordOps tkv) ⟨w.storage, table, []⟩ = ⟨w'.storage, table, []⟩ := by
  rw [writeRecord] at h
  rw [writeRecordOps]
  split at h
  · obtain rfl := Option.some.inj h
    rw [if_pos ‹_›, applyOps_cons, applyOps_writeTkv]
    exact applyOps_room (w.writeWhole tkv) table
  · obtain ⟨v, hpieces, h⟩ := Option.bind_eq_some_iff.mp h
    obtain rfl := Option.some.inj h
    rw [if_neg ‹_›, applyOps_append, applyOps_writePieces hpieces, hpieces]
    exact applyOps_room v table

theorem applyOps_writeRecords {tkvs : List Bytes} (h : tkvs.foldlM writeRecord w = some w') :
    applyOps (w.writeRecordsOps tkvs) ⟨w.storage, table, []⟩ = ⟨w'.storage, table, []⟩ := by
  induction tkvs generalizing w with
  | nil =>
    obtain rfl := Option.some.inj h
    rfl
  | cons tkv rest ih =>
    rw [List.foldlM_cons] at h
    obtain ⟨v, hone, hrest⟩ := Option.bind_eq_some_iff.mp h
    rw [writeRecordsOps, applyOps_append, applyOps_writeRecord hone, hone]
    exact ih hrest

end BlockWriter

/-- The blocks of one archive. -/
def writeTkvsOps (storage : Storage) (tkvs : List Bytes) : List FileOp :=
  BlockWriter.nextBlockOps ⟨storage, [], 0, 0⟩ ++ (BlockWriter.start storage).writeRecordsOps tkvs

/-- `create_new_partitions`, from the partition number `i` on. -/
def createNewPartitionsOps (storage : Storage) (i : Nat) : List (List Record) → List FileOp
  | [] => []
  | partition :: rest =>
    writeTkvsOps storage (partition.map convertToTkv) ++
      match createPartition storage partition with
      | some (storage, archive) =>
        .writePartition i archive :: createNewPartitionsOps storage (i + 1) rest
      | none => []

section Writer
variable {storage after : Storage} {table : Table}

theorem applyOps_createPartition {partition : List Record} {archive : Archive}
    (h : createPartition storage partition = some (after, archive)) :
    applyOps (writeTkvsOps storage (partition.map convertToTkv)) ⟨storage, table, []⟩ =
      ⟨after, table, []⟩ := by
  obtain ⟨⟨after', blocks⟩, hwrite, heq⟩ := Option.bind_eq_some_iff.mp h
  obtain ⟨rfl, rfl⟩ := Prod.mk.inj (Option.some.inj heq)
  obtain ⟨w, hw, heq⟩ := Option.bind_eq_some_iff.mp hwrite
  obtain ⟨rfl, rfl⟩ := Prod.mk.inj (Option.some.inj heq)
  rw [writeTkvsOps, applyOps_append, BlockWriter.applyOps_nextBlock ⟨storage, [], 0, 0⟩]
  exact BlockWriter.applyOps_writeRecords hw

/-- The partitions are written one by one over the old ones. -/
theorem applyOps_createNewPartitions {partitionTkvs : List (List Record)}
    {archives done old : List Archive}
    (h : createNewPartitions storage partitionTkvs = some (after, archives))
    (hlen : old.length = partitionTkvs.length) :
    applyOps (createNewPartitionsOps storage done.length partitionTkvs)
        ⟨storage, { table with partitions := done ++ old }, []⟩ =
      ⟨after, { table with partitions := done ++ archives }, []⟩ := by
  induction partitionTkvs generalizing storage archives done old with
  | nil =>
    obtain ⟨rfl, rfl⟩ := Prod.mk.inj (Option.some.inj h)
    obtain rfl := List.length_eq_zero_iff.mp hlen
    rfl
  | cons partition rest ih =>
    obtain ⟨storage₁, archive, archives', hone, hrest, rfl⟩ := createNewPartitions_cons h
    obtain ⟨first, old, rfl⟩ := List.exists_cons_of_length_eq_add_one hlen
    have hset : (done ++ first :: old).set done.length archive = done ++ [archive] ++ old := by simp
    have hturn : applyOps (createNewPartitionsOps storage₁ (done ++ [archive]).length rest)
        ⟨storage₁, { table with partitions := (done ++ [archive]) ++ old }, []⟩ =
          ⟨after, { table with partitions := (done ++ [archive]) ++ archives' }, []⟩ :=
      ih hrest (Nat.succ.inj hlen)
    rw [List.length_append, List.length_singleton, List.append_assoc _ _ archives',
      List.singleton_append] at hturn
    rw [createNewPartitionsOps, applyOps_append, applyOps_createPartition hone, hone, applyOps_cons]
    simp only [FileOp.apply, hset]
    exact hturn

end Writer

/-! ## Freeing the archives -/

/-- `free_block`, for several blocks. -/
def freeBlocksOps (blocks : List Nat) : List FileOp :=
  blocks.flatMap fun block => [.removeBlock block, .createBlock block]

/-- `free_blocks_of_fs_archive`, for several archives. -/
def freeArchivesOps (archives : List Archive) : List FileOp :=
  archives.flatMap fun archive => freeBlocksOps archive.blocks

/-- `destroy_all_tmps`, from the temporary archive number `i` on. -/
def destroyAllTmpsOps (i : Nat) : List (Option Archive) → List FileOp
  | some _ :: rest => .removeTmp i :: destroyAllTmpsOps (i + 1) rest
  | _ => []

section Free
variable {storage after : Storage} {table : Table}

theorem applyOps_freeBlocks {blocks : List Nat} {bitmap : List Bool}
    (h : blocks.foldlM freeBlock storage = some after) :
    applyOps (freeBlocksOps blocks) ⟨{ storage with bitmap }, table, []⟩ =
      ⟨{ after with bitmap }, table, []⟩ := by
  induction blocks generalizing storage with
  | nil =>
    obtain rfl := Option.some.inj h
    rfl
  | cons block rest ih =>
    rw [List.foldlM_cons] at h
    obtain ⟨storage₁, hone, hrest⟩ := Option.bind_eq_some_iff.mp h
    rw [freeBlock] at hone
    split at hone
    · exact absurd hone (by simp)
    · obtain rfl := Option.some.inj hone
      have hturn := ih hrest
      simpa [freeBlocksOps, FileOp.apply, Storage.setBlock] using hturn

theorem applyOps_freeArchives {archives : List Archive} {bitmap : List Bool}
    (h : archives.foldlM freeBlocksOfFsArchive storage = some after) :
    applyOps (freeArchivesOps archives) ⟨{ storage with bitmap }, table, []⟩ =
      ⟨{ after with bitmap }, table, []⟩ := by
  induction archives generalizing storage with
  | nil =>
    obtain rfl := Option.some.inj h
    rfl
  | cons archive rest ih =>
    rw [List.foldlM_cons] at h
    obtain ⟨storage₁, hone, hrest⟩ := Option.bind_eq_some_iff.mp h
    rw [freeArchivesOps, List.flatMap_cons, applyOps_append, applyOps_freeBlocks hone]
    exact ih hrest

theorem applyOps_destroyAllTmps {done rest : List (Option Archive)} {missing : List Nat} :
    applyOps (destroyAllTmpsOps done.length rest)
      ⟨storage, { table with tmps := done ++ rest }, missing⟩ =
      ⟨storage, { table with tmps := done ++ destroyAllTmps rest }, missing⟩ := by
  induction rest generalizing done with
  | nil => rfl
  | cons tmp rest ih =>
    cases tmp with
    | none => rfl
    | some archive =>
      have hset : (done ++ some archive :: rest).set done.length none = done ++ [none] ++
        rest := by simp
      have hturn : applyOps (destroyAllTmpsOps (done ++ [none]).length rest)
          ⟨storage, { table with tmps := (done ++ [none]) ++ rest }, missing⟩ =
            ⟨storage, { table with tmps := (done ++ [none]) ++ destroyAllTmps rest }, missing⟩ := ih
      rw [List.length_append, List.length_singleton,
        List.append_assoc _ _ (destroyAllTmps rest)] at hturn
      rw [destroyAllTmpsOps, applyOps_cons, destroyAllTmps]
      simp only [FileOp.apply, hset]
      exact hturn

end Free

/-! ## The whole compaction -/

/-- `start_compaction` from the moment the table is blocked. -/
def rewriteOps (table : Table) (tmpDestroyFlag : Bool) (freed : Storage)
    (partitionTkvs : List (List Record)) : List FileOp :=
  freeArchivesOps table.partitions ++
    ((if tmpDestroyFlag then
        freeArchivesOps (existingTmps table.tmps) ++ destroyAllTmpsOps 0 table.tmps else []) ++
      .writeBitmap freed.bitmap :: .removeTmpc :: createNewPartitionsOps freed 0 partitionTkvs)

/-- `start_compaction`. -/
def startCompactionOps (config : FsConfig) (storage : Storage) (table : Table) (tmpc : Archive)
    (tmpDestroyFlag : Bool) : Option (List FileOp) := do
  let partitionTkvs ← mergedPartitions config storage table tmpc
  let (freed, _) ← freeArchives storage table tmpDestroyFlag
  some (rewriteOps table tmpDestroyFlag freed partitionTkvs)

/-- `compaction` of a table that exists. -/
def compactionOps (config : FsConfig) (storage : Storage) (table : Table) : Option (List FileOp) :=
  match table.tmpc with
  | some tmpc => startCompactionOps config storage table tmpc false
  | none =>
    if existingTmps table.tmps = [] then some []
    else
      (startCompactionOps config storage table (getAllBlocksFromAllTmps table) true).map fun ops =>
        .writeTmpc (getAllBlocksFromAllTmps table) :: ops

section Whole
variable {config : FsConfig} {storage after : Storage} {table table' : Table} {fs fs' : Filesystem}
  {name : Bytes} {tmpc : Archive} {tmpDestroyFlag : Bool} {partitionTkvs : List (List Record)}

theorem length_createPartitionTkvList {old : List (List Record)}
    (h : createPartitionTkvList config storage table = some old) :
    old.length = table.partitions.length := by
  rw [createPartitionTkvList] at h
  generalize table.partitions = partitions at h ⊢
  induction partitions generalizing old with
  | nil =>
    obtain rfl := Option.some.inj h
    rfl
  | cons partition rest ih =>
    rw [List.mapM_cons] at h
    obtain ⟨records, -, h⟩ := Option.bind_eq_some_iff.mp h
    obtain ⟨others, hrest, h⟩ := Option.bind_eq_some_iff.mp h
    obtain rfl := Option.some.inj h
    exact congrArg (· + 1) (ih hrest)

theorem length_getTkvsToInsert {tmpcTkvs : List Record} {old : List (List Record)}
    (h : getTkvsToInsert tmpcTkvs old = some partitionTkvs) :
    partitionTkvs.length = old.length := by
  rw [getTkvsToInsert] at h
  induction tmpcTkvs generalizing old with
  | nil => exact congrArg List.length (Option.some.inj h).symm
  | cons record rest ih =>
    rw [List.foldlM_cons] at h
    obtain ⟨next, hone, hrest⟩ := Option.bind_eq_some_iff.mp h
    split at hone
    · exact absurd hone (by simp)
    · rw [ih hrest, ← Option.some.inj hone, List.length_modify]

theorem length_mergedPartitions (h : mergedPartitions config storage table tmpc =
      some partitionTkvs) :
    partitionTkvs.length = table.partitions.length := by
  obtain ⟨tmpcTkvs, -, h⟩ := Option.bind_eq_some_iff.mp h
  obtain ⟨old, hold, h⟩ := Option.bind_eq_some_iff.mp h
  rw [length_getTkvsToInsert h]
  exact length_createPartitionTkvList hold

theorem applyOps_freeAll (h : freeArchives storage table tmpDestroyFlag = some (after, table')) :
    applyOps (freeArchivesOps table.partitions ++
      ((if tmpDestroyFlag then
        freeArchivesOps (existingTmps table.tmps) ++ destroyAllTmpsOps 0 table.tmps else []) ++
      [.writeBitmap after.bitmap, .removeTmpc])) ⟨storage, { table with tmpc := some tmpc }, []⟩ =
      ⟨after, table', []⟩ := by
  obtain ⟨storage₁, hpartitions, h⟩ := Option.bind_eq_some_iff.mp h
  have hfirst : applyOps (freeArchivesOps table.partitions)
      ⟨storage, { table with tmpc := some tmpc }, []⟩ =
      ⟨{ storage₁ with bitmap := storage.bitmap }, { table with tmpc := some tmpc }, []⟩ :=
    applyOps_freeArchives hpartitions
  rw [applyOps_append, hfirst, applyOps_append]
  cases tmpDestroyFlag with
  | true =>
    obtain ⟨storage₂, htmps, h⟩ := Option.bind_eq_some_iff.mp h
    obtain ⟨rfl, rfl⟩ := Prod.mk.inj (Option.some.inj h)
    have hdestroy := @applyOps_destroyAllTmps { storage₂ with bitmap := storage.bitmap }
      { table with tmpc := some tmpc } [] table.tmps []
    rw [if_pos rfl, applyOps_append, applyOps_freeArchives htmps]
    simp only [List.length_nil, List.nil_append] at hdestroy
    rw [hdestroy]
    rfl
  | false =>
    obtain ⟨rfl, rfl⟩ := Prod.mk.inj (Option.some.inj h)
    rfl

theorem partitions_freeArchives (h : freeArchives storage table tmpDestroyFlag =
      some (after, table')) :
    table'.partitions = table.partitions := by
  obtain ⟨storage₁, -, h⟩ := Option.bind_eq_some_iff.mp h
  split at h
  · obtain ⟨storage₂, -, h⟩ := Option.bind_eq_some_iff.mp h
    obtain ⟨-, rfl⟩ := Prod.mk.inj (Option.some.inj h)
    rfl
  · obtain ⟨-, rfl⟩ := Prod.mk.inj (Option.some.inj h)
    rfl

/-- `start_compaction` on the files, once A1.tmpc is there. -/
theorem applyOps_startCompaction
    (hrun : startCompaction config fs name table tmpc tmpDestroyFlag = some fs') :
    ∃ ops table', startCompactionOps config fs.storage table tmpc tmpDestroyFlag = some ops ∧
      applyOps ops ⟨fs.storage, { table with tmpc := some tmpc }, []⟩ = ⟨fs'.storage, table', []⟩ ∧
      fs'.tables.lookup name = some table' := by
  obtain ⟨partitionTkvs, freed, table₁, after, archives, hmerged, hfree, hcreate, rfl⟩ :=
    startCompaction_eq_some hrun
  have hlen : table₁.partitions.length = partitionTkvs.length := by
    rw [partitions_freeArchives hfree, length_mergedPartitions hmerged]
  refine ⟨rewriteOps table tmpDestroyFlag freed partitionTkvs,
    { table₁ with partitions := archives }, ?_, ?_, AList.lookup_insert _⟩
  · rw [startCompactionOps, hmerged]
    simp only [Option.bind_eq_bind, Option.bind_some, hfree]
  · have hops : rewriteOps table tmpDestroyFlag freed partitionTkvs =
        (freeArchivesOps table.partitions ++
          ((if tmpDestroyFlag then
            freeArchivesOps (existingTmps table.tmps) ++ destroyAllTmpsOps 0 table.tmps else []) ++
          [.writeBitmap freed.bitmap, .removeTmpc])) ++
        createNewPartitionsOps freed 0 partitionTkvs := by
      simp only [rewriteOps, List.append_assoc, List.cons_append, List.nil_append]
    rw [hops, applyOps_append, applyOps_freeAll hfree]
    exact @applyOps_createNewPartitions _ _ _ _ _ [] _ hcreate hlen

/-- **The operations, all of them and in this order, are the compaction.** -/
theorem applyOps_compaction (hlookup : fs.tables.lookup name = some table)
    (hrun : compaction config name fs = some fs') :
    ∃ ops table', compactionOps config fs.storage table = some ops ∧
      applyOps ops ⟨fs.storage, table, []⟩ = ⟨fs'.storage, table', []⟩ ∧
      fs'.tables.lookup name = some table' := by
  rw [compaction, hlookup] at hrun
  rw [compactionOps]
  cases htmpc : table.tmpc with
  | some tmpc =>
    simp only [htmpc] at hrun
    have hops := applyOps_startCompaction hrun
    rwa [show ({ table with tmpc := some tmpc } : Table) = table by rw [← htmpc]] at hops
  | none =>
    simp only [htmpc] at hrun
    split at hrun
    · obtain rfl := Option.some.inj hrun
      exact ⟨[], table, by simp [*], rfl, hlookup⟩
    · obtain ⟨ops, table', hops, happly, hlookup'⟩ := applyOps_startCompaction hrun
      exact ⟨.writeTmpc (getAllBlocksFromAllTmps table) :: ops,
        table', by simp [*], happly, hlookup'⟩

end Whole

end Lissandra
