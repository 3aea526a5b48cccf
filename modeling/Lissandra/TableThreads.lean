import Lissandra.BlockWriter
import Lissandra.Runs
import Mathlib.Data.List.AList

/-! # The threads of one table

`process_drop`, the thread of `compact_this_table` and any number of `process_select` on one table,
where each operation on a semaphore, on a file or on `table_state_list` is a step.  A thread is a
point of its function with the local data it needs from there on; the operation of the point is
made, and its reply takes the thread to the next point.

The waits and posts of a table go through its name.  `live_status_wait` renames the entry, so from
then on they find nothing and are left out.  `is_blocked_wait` with `is_blocked_post` right after
it is a gate and holds nothing.

What is in the blocks is left out: how many blocks a new partition takes is for the records to say,
and here any number of them is possible.
-/
namespace Lissandra
namespace TableThreads

/-! ## What the threads share -/

inductive ArchiveName where
  | partition (number : Nat)
  | tmp (number : Nat)
  | tmpc
  deriving DecidableEq

/-- The files in the directory of a table. -/
inductive FileName where
  | metadata
  | archive (name : ArchiveName)
  deriving DecidableEq

/-- The number of partitions in the metadata, and the blocks of an archive. -/
def FileName.Content : FileName → Type
  | .metadata => Nat
  | .archive _ => List Nat

/-- The directory, in the order in which `readdir` goes through it. -/
abbrev Directory := AList FileName.Content

def Directory.metadata (directory : Directory) : Option Nat := directory.lookup FileName.metadata

def Directory.archive (directory : Directory) (name : ArchiveName) : Option (List Nat) :=
  directory.lookup (FileName.archive name)

/-- `thread_semaphore`, those of the entry, `bitmap_semaphore` and `dump_semaphore`. -/
inductive Semaphore where
  | thread
  | isBlocked
  | select
  | liveStatus
  | bitmap
  | dump
  deriving DecidableEq

/-- The entry of the table in `table_state_list`. -/
inductive Entry where
  | listed
  | renamed
  | destroyed
  deriving DecidableEq

structure Shared where
  directory : Option Directory
  bitmap : List Bool
  entry : Entry
  value : Semaphore → Nat

inductive Op where
  | semWait (semaphore : Semaphore)
  | semPost (semaphore : Semaphore)
  /-- `find_in_table_state_list`, on the way to a `sem_wait`. -/
  | find
  /-- The same, and a `sem_post` if there is such an entry. -/
  | findPost (semaphore : Semaphore)
  /-- `find_in_table_state_list_with_thread`. -/
  | findWithThread
  | getLiveStatus
  | rename
  | destroyEntry
  | existTable
  | existArchive (name : ArchiveName)
  | readTableMetadata
  /-- The metadata of a table with the name that `live_status_wait` gives. -/
  | readRenamedMetadata
  | readFsArchive (name : ArchiveName)
  | createFsArchive (name : ArchiveName) (blocks : List Nat)
  | remove (name : FileName)
  /-- `opendir`, and what `readdir` goes through. -/
  | openDirectory
  /-- `rmdir`. -/
  | removeDirectory
  | readBitmap
  | writeBitmap (bitmap : List Bool)
  /-- Whether the records need one block more. -/
  | moreBlocks
  /-- What is not shared. -/
  | skip
  deriving DecidableEq

inductive Reply where
  | done
  | found (found : Bool)
  | partitions (partitions : Nat)
  | blocks (blocks : List Nat)
  | bitmap (bitmap : List Bool)
  | names (names : List FileName)
  deriving DecidableEq

/-- A thread that waits, a file that is opened and is not there, or what the operation does. -/
inductive Outcome where
  | blocked
  | missing
  | done (shared : Shared) (reply : Reply)

namespace Shared
variable (shared : Shared)

def setValue (semaphore : Semaphore) (value : Nat) : Shared :=
  { shared with value := Function.update shared.value semaphore value }

/-- An operation. -/
def perform (more : Bool) : Op → Outcome
  | .semWait semaphore =>
    if 0 < shared.value semaphore then
      .done (shared.setValue semaphore (shared.value semaphore - 1)) .done
    else .blocked
  | .semPost semaphore => .done (shared.setValue semaphore (shared.value semaphore + 1)) .done
  | .find => .done shared (.found (shared.entry = .listed))
  | .findPost semaphore =>
    if shared.entry = .listed then
      .done (shared.setValue semaphore (shared.value semaphore + 1)) .done
    else .done shared .done
  | .findWithThread => .done shared (.found (shared.entry = .listed))
  | .getLiveStatus =>
    .done shared (.found (shared.entry ≠ .destroyed ∧ shared.value .liveStatus = 1))
  | .rename =>
    if shared.entry = .listed then .done { shared with entry := .renamed } (.found true)
    else .done shared (.found false)
  | .destroyEntry => .done { shared with entry := .destroyed } .done
  | .existTable => .done shared (.found shared.directory.isSome)
  | .existArchive name =>
    .done shared (.found (shared.directory >>= fun directory => directory.archive name).isSome)
  | .readTableMetadata =>
    match shared.directory >>= Directory.metadata with
    | some partitions => .done shared (.partitions partitions)
    | none => .missing
  | .readRenamedMetadata => .missing
  | .readFsArchive name =>
    match shared.directory >>= fun directory => directory.archive name with
    | some blocks => .done shared (.blocks blocks)
    | none => .missing
  | .createFsArchive name blocks =>
    match shared.directory with
    | some directory =>
      .done { shared with directory := some (directory.insert (.archive name) blocks) } .done
    | none => .missing
  | .remove name =>
    .done { shared with directory := shared.directory.map (AList.erase name) } .done
  | .openDirectory =>
    .done shared (.names (shared.directory.elim [] AList.keys))
  | .removeDirectory =>
    .done { shared with
      directory := shared.directory.filter fun directory => directory.keys ≠ [] } .done
  | .readBitmap => .done shared (.bitmap shared.bitmap)
  | .writeBitmap bitmap => .done { shared with bitmap } .done
  | .moreBlocks => .done shared (.found more)
  | .skip => .done shared .done

end Shared

/-! ## Common parts of the functions -/

/-- `is_blocked_wait` and `is_blocked_post`. -/
inductive Gate where
  | find
  | wait
  | post
  deriving DecidableEq

def Gate.op : Gate → Op
  | .find => .find
  | .wait => .semWait .isBlocked
  | .post => .findPost .isBlocked

def Gate.next : Gate → Reply → Option Gate
  | .find, .found true => some .wait
  | .find, _ => some .post
  | .wait, _ => some .post
  | .post, _ => none

/-- `bitarray_clean_bit` for the blocks of an archive.  There is no bit for block 0, which
`find_free_block` gives when there is no free one. -/
def cleanBits (bitmap : List Bool) (blocks : List Nat) : List Bool :=
  blocks.foldl (fun bitmap block =>
    if block = 0 then bitmap else bitmap.set (block - 1) false) bitmap

/-- `free_partitions` and `free_blocks_of_all_tmps`: before the metadata is read, before partition
`i + 1` of so many is, and before temporary archive `number` is looked for and is read. -/
inductive Freeing where
  | metadata
  | partition (partitions i : Nat)
  | existTmp (number : Nat)
  | tmp (number : Nat)
  deriving DecidableEq

namespace Freeing

def op : Freeing → Op
  | .metadata => .readTableMetadata
  | .partition _ i => .readFsArchive (.partition (i + 1))
  | .existTmp number => .existArchive (.tmp number)
  | .tmp number => .readFsArchive (.tmp number)

/-- After partition `i`.  `tmps` says whether `free_blocks_of_all_tmps` is called as well. -/
def fromPartition (tmps : Bool) (partitions i : Nat) : Option Freeing :=
  if i < partitions then some (.partition partitions i)
  else if tmps then some (.existTmp 1) else none

/-- What comes next, and the bitmap in memory. -/
def next (tmps : Bool) (bitmap : List Bool) : Freeing → Reply → Option Freeing × List Bool
  | .metadata, .partitions partitions => (fromPartition tmps partitions 0, bitmap)
  | .partition partitions i, .blocks blocks =>
    (fromPartition tmps partitions (i + 1), cleanBits bitmap blocks)
  | .existTmp number, .found true => (some (.tmp number), bitmap)
  | .existTmp _, _ => (none, bitmap)
  | .tmp number, .blocks blocks => (some (.existTmp (number + 1)), cleanBits bitmap blocks)
  | freeing, _ => (some freeing, bitmap)

end Freeing

/-! ## DROP -/

/-- Where `process_drop` is.  `unlink` are the entries that `remove_directory` has before it, and
`rmdir` after them. -/
inductive DropPoint where
  | gate (gate : Gate)
  | existTable
  | semWait
  | readBitmap
  | free (freeing : Freeing) (bitmap : List Bool)
  | openDirectory (bitmap : List Bool)
  | unlink (names : List FileName) (bitmap : List Bool)
  | writeBitmap (bitmap : List Bool)
  | semPost
  | rename
  | liveStatusWait
  | finished
  deriving DecidableEq

namespace DropPoint

def op : DropPoint → Option Op
  | .gate step => some step.op
  | .existTable => some .existTable
  | .semWait => some (.semWait .bitmap)
  | .readBitmap => some .readBitmap
  | .free freeing _ => some freeing.op
  | .openDirectory _ => some .openDirectory
  | .unlink (name :: _) _ => some (.remove name)
  | .unlink [] _ => some .removeDirectory
  | .writeBitmap bitmap => some (.writeBitmap bitmap)
  | .semPost => some (.semPost .bitmap)
  | .rename => some .rename
  | .liveStatusWait => some (.semWait .liveStatus)
  | .finished => none

def next : DropPoint → Reply → DropPoint
  | .gate step, reply => (step.next reply).elim .existTable .gate
  | .existTable, .found true => .semWait
  | .existTable, _ => .finished
  | .semWait, _ => .readBitmap
  | .readBitmap, .bitmap bitmap => .free .metadata bitmap
  | .free freeing bitmap, reply =>
    let (freeing, bitmap) := freeing.next true bitmap reply
    freeing.elim (.openDirectory bitmap) fun freeing => .free freeing bitmap
  | .openDirectory bitmap, .names names => .unlink names bitmap
  | .unlink (_ :: names) bitmap, _ => .unlink names bitmap
  | .unlink [] bitmap, _ => .writeBitmap bitmap
  | .writeBitmap _, _ => .semPost
  | .semPost, _ => .rename
  | .rename, .found true => .liveStatusWait
  | .rename, _ => .finished
  | .liveStatusWait, _ => .finished
  | point, _ => point

end DropPoint

/-! ## SELECT -/

/-- What a gate of SELECT is before. -/
inductive SelectStage where
  | processSelect
  | searchInTmpc
  | searchInAllTmps
  | searchInPartition
  | searchKeyInMemtable
  deriving DecidableEq

/-- Where `process_select` is. -/
inductive SelectPoint where
  | gate (stage : SelectStage) (gate : Gate)
  | existTable
  | find
  | wait
  | existTmpc
  | readTmpc
  | existTmp (number : Nat)
  | readTmp (number : Nat)
  | readMetadata
  | readPartition (number : Nat)
  | dumpWait
  | searchMemtable
  | dumpPost
  | selectPost
  | finished
  deriving DecidableEq

def SelectStage.start : SelectStage → SelectPoint
  | .processSelect => .existTable
  | .searchInTmpc => .existTmpc
  | .searchInAllTmps => .existTmp 1
  | .searchInPartition => .readMetadata
  | .searchKeyInMemtable => .dumpWait

namespace SelectPoint

def op : SelectPoint → Option Op
  | .gate _ step => some step.op
  | .existTable => some .existTable
  | .find => some .find
  | .wait => some (.semWait .select)
  | .existTmpc => some (.existArchive .tmpc)
  | .readTmpc => some (.readFsArchive .tmpc)
  | .existTmp number => some (.existArchive (.tmp number))
  | .readTmp number => some (.readFsArchive (.tmp number))
  | .readMetadata => some .readTableMetadata
  | .readPartition number => some (.readFsArchive (.partition number))
  | .dumpWait => some (.semWait .dump)
  | .searchMemtable => some .skip
  | .dumpPost => some (.semPost .dump)
  | .selectPost => some (.findPost .select)
  | .finished => none

def next (key : UInt16) : SelectPoint → Reply → SelectPoint
  | .gate stage step, reply => (step.next reply).elim stage.start (.gate stage)
  | .existTable, .found true => .find
  | .existTable, _ => .finished
  | .find, .found true => .wait
  | .find, _ => .gate .searchInTmpc .find
  | .wait, _ => .gate .searchInTmpc .find
  | .existTmpc, .found true => .readTmpc
  | .existTmpc, _ => .gate .searchInAllTmps .find
  | .readTmpc, _ => .gate .searchInAllTmps .find
  | .existTmp number, .found true => .readTmp number
  | .existTmp _, _ => .gate .searchInPartition .find
  | .readTmp number, _ => .existTmp (number + 1)
  | .readMetadata, .partitions partitions => .readPartition (key.toNat % partitions + 1)
  | .readPartition _, _ => .gate .searchKeyInMemtable .find
  | .dumpWait, _ => .searchMemtable
  | .searchMemtable, _ => .dumpPost
  | .dumpPost, _ => .selectPost
  | .selectPost, _ => .finished
  | point, _ => point

end SelectPoint

structure Select where
  key : UInt16
  point : SelectPoint
  deriving DecidableEq

/-! ## Compaction -/

/-- What `start_compaction` works with: the number of partitions, and `tmp_destroy_flag`. -/
structure Compacting where
  partitions : Nat
  tmpDestroyFlag : Bool
  deriving DecidableEq

/-- A block for `create_partition`. -/
inductive Taking where
  | semWait
  | readBitmap
  | writeBitmap (bitmap : List Bool)
  | semPost
  | moreBlocks
  deriving DecidableEq

/-- Where `compact_this_table`, `compaction` and `start_compaction` are. -/
inductive CompactionPoint where
  | threadWait
  | findWithThread
  | readTime (named : Bool)
  | getLiveStatus
  | find
  | wait
  | existTable
  | readMetadata
  | existTmpc (partitions : Nat)
  | readTmpc (partitions : Nat)
  | existTmp (partitions : Nat)
  /-- In `get_all_blocks_from_all_tmps`. -/
  | listTmp (partitions number : Nat) (blocks : List Nat)
  | readListed (partitions number : Nat) (blocks : List Nat)
  | createTmpc (partitions : Nat) (blocks : List Nat)
  /-- In `create_partition_tkv_list`, before partition `i + 1`. -/
  | readPartition (work : Compacting) (i : Nat)
  | findBlocked (work : Compacting)
  | waitBlocked (work : Compacting)
  | semWait (work : Compacting)
  | readBitmap (work : Compacting)
  | free (work : Compacting) (freeing : Freeing) (bitmap : List Bool)
  /-- In `destroy_all_tmps`. -/
  | existDestroy (work : Compacting) (number : Nat) (bitmap : List Bool)
  | destroyTmp (work : Compacting) (number : Nat) (bitmap : List Bool)
  | writeBitmap (work : Compacting) (bitmap : List Bool)
  | semPost (work : Compacting)
  | removeTmpc (work : Compacting)
  /-- In `create_partition` for partition `i + 1`, which has these blocks. -/
  | take (partitions i : Nat) (blocks : List Nat) (taking : Taking)
  | createPartition (partitions i : Nat) (blocks : List Nat)
  | postBlocked
  | selectPost
  | sleep
  | destroyEntry
  | finished
  deriving DecidableEq

namespace CompactionPoint

def op : CompactionPoint → Option Op
  | .threadWait => some (.semWait .thread)
  | .findWithThread => some .findWithThread
  | .readTime true => some .readTableMetadata
  | .readTime false => some .readRenamedMetadata
  | .getLiveStatus => some .getLiveStatus
  | .find => some .find
  | .wait => some (.semWait .select)
  | .existTable => some .existTable
  | .readMetadata => some .readTableMetadata
  | .existTmpc _ => some (.existArchive .tmpc)
  | .readTmpc _ => some (.readFsArchive .tmpc)
  | .existTmp _ => some (.existArchive (.tmp 1))
  | .listTmp _ number _ => some (.existArchive (.tmp number))
  | .readListed _ number _ => some (.readFsArchive (.tmp number))
  | .createTmpc _ blocks => some (.createFsArchive .tmpc blocks)
  | .readPartition _ i => some (.readFsArchive (.partition (i + 1)))
  | .findBlocked _ => some .find
  | .waitBlocked _ => some (.semWait .isBlocked)
  | .semWait _ => some (.semWait .bitmap)
  | .readBitmap _ => some .readBitmap
  | .free _ freeing _ => some freeing.op
  | .existDestroy _ number _ => some (.existArchive (.tmp number))
  | .destroyTmp _ number _ => some (.remove (.archive (.tmp number)))
  | .writeBitmap _ bitmap => some (.writeBitmap bitmap)
  | .semPost _ => some (.semPost .bitmap)
  | .removeTmpc _ => some (.remove (.archive .tmpc))
  | .take _ _ _ .semWait => some (.semWait .bitmap)
  | .take _ _ _ .readBitmap => some .readBitmap
  | .take _ _ _ (.writeBitmap bitmap) => some (.writeBitmap bitmap)
  | .take _ _ _ .semPost => some (.semPost .bitmap)
  | .take _ _ _ .moreBlocks => some .moreBlocks
  | .createPartition _ i blocks => some (.createFsArchive (.partition (i + 1)) blocks)
  | .postBlocked => some (.findPost .isBlocked)
  | .selectPost => some (.findPost .select)
  | .sleep => some .skip
  | .destroyEntry => some .destroyEntry
  | .finished => none

/-- `start_compaction`. -/
def startCompaction (work : Compacting) : CompactionPoint :=
  if 0 < work.partitions then .readPartition work 0 else .findBlocked work

/-- In `create_new_partitions`, from partition `i + 1` on. -/
def createNewPartitions (partitions i : Nat) : CompactionPoint :=
  if i < partitions then .take partitions i [] .semWait else .postBlocked

/-- After `free_partitions` and, with the flag, `free_blocks_of_all_tmps`. -/
def freed (work : Compacting) (bitmap : List Bool) : CompactionPoint :=
  if work.tmpDestroyFlag then .existDestroy work 1 bitmap else .writeBitmap work bitmap

def next : CompactionPoint → Reply → CompactionPoint
  | .threadWait, _ => .findWithThread
  | .findWithThread, .found named => .readTime named
  | .readTime _, _ => .getLiveStatus
  | .getLiveStatus, .found true => .find
  | .getLiveStatus, _ => .destroyEntry
  | .find, .found true => .wait
  | .find, _ => .existTable
  | .wait, _ => .existTable
  | .existTable, .found true => .readMetadata
  | .existTable, _ => .selectPost
  | .readMetadata, .partitions partitions => .existTmpc partitions
  | .existTmpc partitions, .found true => .readTmpc partitions
  | .existTmpc partitions, _ => .existTmp partitions
  | .readTmpc partitions, _ => startCompaction ⟨partitions, false⟩
  | .existTmp partitions, .found true => .listTmp partitions 1 []
  | .existTmp _, _ => .selectPost
  | .listTmp partitions number blocks, .found true => .readListed partitions number blocks
  | .listTmp partitions _ blocks, _ => .createTmpc partitions blocks
  | .readListed partitions number blocks, .blocks more =>
    .listTmp partitions (number + 1) (blocks ++ more)
  | .createTmpc partitions _, _ => startCompaction ⟨partitions, true⟩
  | .readPartition work i, _ =>
    if i + 1 < work.partitions then .readPartition work (i + 1) else .findBlocked work
  | .findBlocked work, .found true => .waitBlocked work
  | .findBlocked work, _ => .semWait work
  | .waitBlocked work, _ => .semWait work
  | .semWait work, _ => .readBitmap work
  | .readBitmap work, .bitmap bitmap => .free work .metadata bitmap
  | .free work freeing bitmap, reply =>
    let (freeing, bitmap) := freeing.next work.tmpDestroyFlag bitmap reply
    freeing.elim (freed work bitmap) fun freeing => .free work freeing bitmap
  | .existDestroy work number bitmap, .found true => .destroyTmp work number bitmap
  | .existDestroy work _ bitmap, _ => .writeBitmap work bitmap
  | .destroyTmp work number bitmap, _ => .existDestroy work (number + 1) bitmap
  | .writeBitmap work _, _ => .semPost work
  | .semPost work, _ => .removeTmpc work
  | .removeTmpc work, _ => createNewPartitions work.partitions 0
  | .take partitions i blocks .semWait, _ => .take partitions i blocks .readBitmap
  | .take partitions i blocks .readBitmap, .bitmap bitmap =>
    let (block, bitmap) := findFreeBlock bitmap
    .take partitions i (blocks ++ [(block + 1).toNat]) (.writeBitmap bitmap)
  | .take partitions i blocks (.writeBitmap _), _ => .take partitions i blocks .semPost
  | .take partitions i blocks .semPost, _ => .take partitions i blocks .moreBlocks
  | .take partitions i blocks .moreBlocks, .found true => .take partitions i blocks .semWait
  | .take partitions i blocks .moreBlocks, _ => .createPartition partitions i blocks
  | .createPartition partitions i _, _ => createNewPartitions partitions (i + 1)
  | .postBlocked, _ => .selectPost
  | .selectPost, _ => .sleep
  | .sleep, _ => .getLiveStatus
  | .destroyEntry, _ => .finished
  | point, _ => point

end CompactionPoint

section
-- The equations are made once, here: the proofs about steps all rewrite with them.
attribute [local simp] Shared.perform DropPoint.next CompactionPoint.next
end

end TableThreads

open TableThreads

/-! ## Runs -/

/-- The threads of a table and what they share.  `missed` says whether one has opened a file that
was not there. -/
structure TableThreads where
  shared : Shared
  drop : DropPoint
  compaction : CompactionPoint
  selects : List Select
  missed : Bool

namespace TableThreads

/-- A SELECT begins, or a thread makes a step. -/
inductive Action where
  | begin (key : UInt16)
  | drop
  | compaction (moreBlocks : Bool)
  | select (i : Nat)
  deriving DecidableEq

/-- What an operation of a thread leaves.  `goto` is the thread with its reply. -/
def resume (s : TableThreads) (goto : Reply → TableThreads → TableThreads) :
    Outcome → Option TableThreads
  | .blocked => none
  | .missing => some { s with missed := true }
  | .done shared reply => some (goto reply { s with shared })

/-- One step.  There is none once a file was missing. -/
def step (s : TableThreads) (action : Action) : Option TableThreads :=
  if s.missed then none
  else match action with
  | .begin key =>
    some { s with selects := s.selects ++ [⟨key, .gate .processSelect .find⟩] }
  | .drop => do
    let op ← s.drop.op
    s.resume (fun reply s => { s with drop := s.drop.next reply }) (s.shared.perform false op)
  | .compaction moreBlocks => do
    let op ← s.compaction.op
    s.resume (fun reply s => { s with compaction := s.compaction.next reply })
      (s.shared.perform moreBlocks op)
  | .select i => do
    let select ← s.selects[i]?
    let op ← select.point.op
    s.resume (fun reply s => { s with
        selects := s.selects.set i { select with point := select.point.next select.key reply } })
      (s.shared.perform false op)

/-- Block `b` is marked. -/
def Marked (bitmap : List Bool) (b : Nat) : Prop := ∃ i, b = i + 1 ∧ bitmap[i]? = some true

/-- A partition or a temporary archive of the directory has the block. -/
def Directory.Lists (directory : Directory) (b : Nat) : Prop :=
  ∃ name blocks, name ≠ .tmpc ∧ directory.archive name = some blocks ∧ b ∈ blocks

/-- The blocks that are marked for others at the start. -/
def Others (start : TableThreads) (b : Nat) : Prop :=
  Marked start.shared.bitmap b ∧ ∀ directory ∈ start.shared.directory, ¬ directory.Lists b

/-- No step has opened a file that was not there, no block of the table is one of the others, and
when all have finished there is no directory and only the blocks of the others are marked. -/
structure Safe (start s : TableThreads) : Prop where
  opens : s.missed = false
  blocks : ∀ directory ∈ s.shared.directory, ∀ b, directory.Lists b → ¬ Others start b
  dropped : s.drop = .finished → s.compaction = .finished →
    (∀ select ∈ s.selects, select.point = .finished) →
      s.shared.directory = none ∧ ∀ b, Marked s.shared.bitmap b ↔ Others start b

/-- The metadata, the partitions it counts, and temporary archives that are numbered from 1 on. -/
structure Directory.Whole (directory : Directory) (partitions : Nat) : Prop where
  positive : 0 < partitions
  metadata : directory.metadata = some partitions
  partition : ∀ number, (directory.archive (.partition number)).isSome ↔
    1 ≤ number ∧ number ≤ partitions
  tmp : ∀ number, (directory.archive (.tmp number)).isSome → 1 ≤ number ∧
    ∀ earlier, 1 ≤ earlier → earlier ≤ number → (directory.archive (.tmp earlier)).isSome

/-- A table that is whole, a DROP that begins, and a thread of compaction that has not begun or is
between two compactions. -/
structure Starts (s : TableThreads) : Prop where
  directory : ∃ directory partitions, s.shared.directory = some directory ∧
    directory.Whole partitions
  entry : s.shared.entry = .listed
  liveStatus : s.shared.value .liveStatus = 1
  select : s.shared.value .select = 1
  bitmap : s.shared.value .bitmap = 1
  drop : s.drop = .gate .find
  compaction : s.compaction = .threadWait ∨ s.compaction = .getLiveStatus
  selects : s.selects = []
  missed : s.missed = false

/-! ## The condition -/

/-- There are still files of the table that SELECT opens. -/
def SelectPoint.filesAhead : SelectPoint → Bool
  | .gate stage _ => stage ≠ .processSelect && stage ≠ .searchKeyInMemtable
  | .find | .wait | .existTmpc | .readTmpc | .existTmp _ | .readTmp _ | .readMetadata
  | .readPartition _ => true
  | _ => false

/-- The same for the thread of compaction, which reads the metadata when it begins. -/
def CompactionPoint.filesAhead : CompactionPoint → Bool
  | .getLiveStatus | .find | .wait | .existTable | .existTmpc _ | .existTmp _ | .postBlocked
  | .selectPost | .sleep | .destroyEntry | .finished => false
  | _ => true

/-- Blocks are free that the partitions have, or taken that they do not have yet. -/
def CompactionPoint.rewriting : CompactionPoint → Bool
  | .semPost _ | .removeTmpc _ | .take .. | .createPartition .. => true
  | _ => false

/-- Before it looks for the table or for an archive to compact. -/
def CompactionPoint.looks : CompactionPoint → Bool
  | .existTable | .existTmpc _ | .existTmp _ => true
  | _ => false

/-- In `remove_directory`, after `opendir`. -/
def DropPoint.removing : DropPoint → Bool
  | .unlink .. => true
  | _ => false

/-- DROP waits until the partitions are written before it takes the bitmap, and until no SELECT
and no compaction has files to open before it removes them, and none looks for them meanwhile. -/
def Keeps (s : TableThreads) : Action → Prop
  | .begin _ => True
  | .drop => match s.drop with
    | .semWait => s.compaction.rewriting = false
    | .openDirectory _ => s.compaction.filesAhead = false ∧
        ∀ select ∈ s.selects, select.point.filesAhead = false
    | _ => True
  | .compaction _ => s.compaction.looks = true → s.drop.removing = false
  | .select i => ∀ select ∈ s.selects[i]?, select.point = .existTable → s.drop.removing = false

instance (s : TableThreads) (action : Action) : Decidable (s.Keeps action) := by
  cases action with
  | begin key => exact isTrue trivial
  | drop =>
    unfold Keeps
    dsimp only
    split <;> infer_instance
  | compaction moreBlocks =>
    unfold Keeps
    infer_instance
  | select i =>
    unfold Keeps
    infer_instance

/-- The states reached by such steps. -/
abbrev KeptRun (start s : TableThreads) : Prop :=
  Run step (fun s action _ => s.Keeps action) start s

end TableThreads

end Lissandra
