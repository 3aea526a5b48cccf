import Lissandra.BlockOwnership
import Lissandra.FileTree
import Lissandra.OperationTypes
import Lissandra.Strings

/-! # The files of a new table

`process_create` as it works on the files under the mount point: the bitmap is read into memory
and blocks are taken there, `mkdir` says whether the table exists, and only then the metadata, the
partitions, the bitmap and the entry of `table_state_list` are stored.  So an answer of -1 or -2
leaves everything as it was, and an answer of 0 comes with all of them
(`CreateSetting.create_spec`).

The name of a table is any string: it is a path, and the table is new if `mkdir` makes a directory
of it.  `mkdir` can also fail for reasons that are not those of a path, such as a name that is too
long (`refused`).
-/
namespace Lissandra

/-! ## Bit arrays -/

/-- `commons/bitarray.h`: the number that stands for `LSB_FIRST`, and the calls on an array in this
mode. -/
structure Bitarray where
  lsbFirst : Nat
  testBit : Bytes → Nat → Bool
  setBit : Bytes → Nat → Bytes
  length_setBit : ∀ bitarray i, (setBit bitarray i).length = bitarray.length
  testBit_setBit : ∀ bitarray i j, i < 8 * bitarray.length →
    testBit (setBit bitarray i) j = (testBit bitarray j || decide (j = i))

namespace Bitarray
variable (commons : Bitarray)

/-- All bits of an array. -/
def bits (bitarray : Bytes) : List Bool :=
  (List.range (8 * bitarray.length)).map (commons.testBit bitarray)

/-- `find_free_block`. -/
def findFreeBlock (bitarray : Bytes) : Int × Bytes :=
  match (commons.bits bitarray).findIdx? (fun bit => !bit) with
  | some i => ((i : Int), commons.setBit bitarray i)
  | none => (-1, bitarray)

/-- The loop of `assign_free_blocks`. -/
def takeFreeBlocks : Nat → Bytes → List Nat × Bytes
  | 0, bitarray => ([], bitarray)
  | partitionsAmount + 1, bitarray =>
    let (block, bitarray) := commons.findFreeBlock bitarray
    if block = -1 then ([], bitarray)
    else
      let (blocks, bitarray) := takeFreeBlocks partitionsAmount bitarray
      ((block + 1).toNat :: blocks, bitarray)

/-- `assign_free_blocks`: the blocks that were found. -/
def assignFreeBlocks (bitarray : Bytes) (partitionsAmount : Nat) : List Nat × Bytes :=
  if partitionsAmount ≤ bitarray.length * 8 then
    commons.takeFreeBlocks partitionsAmount bitarray
  else ([], bitarray)

variable {commons} {bitarray : Bytes} {i : Nat}

@[simp] theorem length_bits : (commons.bits bitarray).length = 8 * bitarray.length := by
  rw [bits, List.length_map, List.length_range]

theorem getElem?_bits : (commons.bits bitarray)[i]? =
    if i < 8 * bitarray.length then some (commons.testBit bitarray i) else none := by
  rw [bits, List.getElem?_map]
  split
  · rename_i hi
    rw [List.getElem?_range hi]
    rfl
  · rename_i hi
    rw [List.getElem?_eq_none (by rw [List.length_range]; omega)]
    rfl

/-- Setting a bit of the array is setting it among its bits. -/
theorem bits_setBit (hi : i < 8 * bitarray.length) :
    commons.bits (commons.setBit bitarray i) = (commons.bits bitarray).set i true := by
  refine List.ext_getElem? fun j => ?_
  rw [getElem?_bits, commons.length_setBit, List.getElem?_set, getElem?_bits, length_bits]
  by_cases hj : j < 8 * bitarray.length
  · rw [if_pos hj, if_pos hj, commons.testBit_setBit _ _ _ hi]
    by_cases heq : i = j
    · subst heq
      rw [if_pos rfl, if_pos hj, decide_eq_true rfl, Bool.or_true]
    · rw [if_neg heq, decide_eq_false (Ne.symm heq), Bool.or_false]
  · rw [if_neg hj, if_neg hj]
    split
    · rename_i heq
      exact absurd (heq ▸ hi) hj
    · rfl

/-- `find_free_block` on the array is the one on its bits. -/
theorem findFreeBlock_bits :
    Lissandra.findFreeBlock (commons.bits bitarray)
      = ((commons.findFreeBlock bitarray).1, commons.bits (commons.findFreeBlock bitarray).2) ∧
    (commons.findFreeBlock bitarray).2.length = bitarray.length := by
  unfold findFreeBlock Lissandra.findFreeBlock
  cases hfind : (commons.bits bitarray).findIdx? (fun bit => !bit) with
  | none => exact ⟨rfl, rfl⟩
  | some i =>
    obtain ⟨hlt, -⟩ := List.findIdx?_eq_some_iff_findIdx_eq.mp hfind
    rw [length_bits] at hlt
    refine ⟨?_, commons.length_setBit _ _⟩
    dsimp only
    rw [bits_setBit hlt]

theorem takeFreeBlocks_bits (count : Nat) (bitarray : Bytes) :
    Lissandra.takeFreeBlocks count (commons.bits bitarray)
      = ((commons.takeFreeBlocks count bitarray).1,
        commons.bits (commons.takeFreeBlocks count bitarray).2) ∧
    (commons.takeFreeBlocks count bitarray).2.length = bitarray.length := by
  induction count generalizing bitarray with
  | zero => exact ⟨rfl, rfl⟩
  | succ count ih =>
    obtain ⟨hfind, hlength⟩ := @findFreeBlock_bits commons bitarray
    obtain ⟨htake, hrest⟩ := ih (commons.findFreeBlock bitarray).2
    rw [Lissandra.takeFreeBlocks, takeFreeBlocks, hfind]
    dsimp only
    split
    · exact ⟨rfl, hlength⟩
    · rw [htake]
      exact ⟨rfl, hrest.trans hlength⟩

theorem assignFreeBlocks_bits (count : Nat) (bitarray : Bytes) :
    Lissandra.assignFreeBlocks (commons.bits bitarray) count
      = ((commons.assignFreeBlocks bitarray count).1,
        commons.bits (commons.assignFreeBlocks bitarray count).2) ∧
    (commons.assignFreeBlocks bitarray count).2.length = bitarray.length := by
  rw [Lissandra.assignFreeBlocks, assignFreeBlocks, length_bits, Nat.mul_comm]
  split
  · exact takeFreeBlocks_bits count bitarray
  · exact ⟨rfl, rfl⟩

end Bitarray

/-- The calls for least significant bits first, the bit `i` of a byte being `1 << i`. -/
def lsbFirstBitarray : Bitarray where
  lsbFirst := 0
  testBit bitarray i := (bitarray[i / 8]?.getD 0).toNat.testBit (i % 8)
  setBit bitarray i := bitarray.modify (i / 8) fun byte => byte ||| UInt8.ofNat (2 ^ (i % 8))
  length_setBit bitarray i := List.length_modify _ _ _
  testBit_setBit bitarray i j hi := by
    have hbit : (UInt8.ofNat (2 ^ (i % 8))).toNat = 2 ^ (i % 8) := by
      rw [UInt8.toNat_ofNat']
      exact Nat.mod_eq_of_lt (Nat.pow_lt_pow_right (by decide) (Nat.mod_lt i (by decide)))
    rw [List.getElem?_modify]
    by_cases hbyte : i / 8 = j / 8
    · have hlt : j / 8 < bitarray.length := by omega
      have hsame : decide (i % 8 = j % 8) = decide (j = i) := by
        rw [decide_eq_decide]
        omega
      simp only [if_pos hbyte]
      rw [List.getElem?_eq_getElem hlt, Option.map_eq_map, Option.map_some, Option.getD_some,
        Option.getD_some, UInt8.toNat_or, Nat.testBit_or, hbit, Nat.testBit_two_pow, hsame]
    · have hne : j ≠ i := by
        rintro rfl
        exact hbyte rfl
      simp only [if_neg hbyte]
      rw [decide_eq_false hne, Bool.or_false, id_map']

/-! ## The files -/

/-- `Tables/`. -/
def tablesName : Bytes := [84, 97, 98, 108, 101, 115, 47]

/-- `Metadata/Bitmap.bin`. -/
def bitmapName : Bytes :=
  [77, 101, 116, 97, 100, 97, 116, 97, 47, 66, 105, 116, 109, 97, 112, 46, 98, 105, 110]

/-- `metadata.bin`. -/
def metadataName : Bytes := [109, 101, 116, 97, 100, 97, 116, 97, 46, 98, 105, 110]

/-- `create_partition_name`, without the slash. -/
def partitionName (partitionNumber : Nat) : Bytes := decimal partitionNumber ++ [46, 98, 105, 110]

/-- `get_bitmap_directory`. -/
def getBitmapDirectory (mountPoint : Bytes) : Bytes := mountPoint ++ bitmapName

/-- `create_new_directory(get_table_directory(), table_name)`. -/
def tableDirectory (mountPoint tableName : Bytes) : Bytes := mountPoint ++ tablesName ++ tableName

/-- `write_bitmap`: what is in the file. -/
def bitmapContent (mode : Nat) (bitarray : Bytes) : Bytes :=
  leBytes 4 mode ++ leBytes 8 bitarray.length ++ bitarray

/-- `read_bitmap`: the bit array, whose mode is `LSB_FIRST` whatever is stored.  The `fread` asks
for more than is there, and what it leaves of the buffer is not used. -/
def readBitmap (content : Bytes) : Option Bytes :=
  let size := leNat ((content.drop 4).take 8)
  if 12 + size ≤ content.length then some ((content.drop 12).take size) else none

/-- `table_metadata_t` as it is stored, without the name. -/
structure StoredMetadata where
  compactionTime : Int64
  consistency : Consistency
  partitions : Int32
  deriving DecidableEq

/-- What `create_table_metadata` writes. -/
def metadataContent (metadata : StoredMetadata) : Bytes :=
  int64Codec.encode metadata.compactionTime ++ (consistencyCodec.encode metadata.consistency ++
    int32Codec.encode metadata.partitions)

/-- `read_table_metadata`. -/
def readMetadata (content : Bytes) : Option StoredMetadata := do
  let compactionTime ← scalarAt int64Codec content 0
  let consistency ← scalarAt consistencyCodec content 8
  let partitions ← scalarAt int32Codec content 9
  some ⟨compactionTime, consistency, partitions⟩

/-- What is written for a `partition_t`. -/
def archiveContent (blocks : List Nat) (size : Int32) : Bytes :=
  int32Codec.encode (Int32.ofNat blocks.length) ++
    (blocks.flatMap (fun block => int32Codec.encode (Int32.ofNat block)) ++ int32Codec.encode size)

/-- The `int`s from an offset on. -/
def readBlocks (content : Bytes) : Nat → Nat → Option (List Nat)
  | 0, _ => some []
  | count + 1, offset => do
    let block ← scalarAt int32Codec content offset
    let blocks ← readBlocks content count (offset + 4)
    some (block.toInt.toNat :: blocks)

/-- `read_fs_archive`.  A negative number of blocks asks for an endless buffer. -/
def readFsArchive (content : Bytes) : Option Archive := do
  let numberOfBlocks ← scalarAt int32Codec content 0
  if numberOfBlocks < 0 then none
  else
    let count := numberOfBlocks.toInt.toNat
    let blocks ← readBlocks content count 4
    let size ← scalarAt int32Codec content (4 + 4 * count)
    some ⟨blocks, size.toInt⟩

/-! ## What is written is read back -/

section Formats
variable {content rest bitarray : Bytes} {offset block : Nat} {blocks : List Nat}

theorem readBitmap_bitmapContent (mode : Nat) (hsize : bitarray.length < 2 ^ 64) :
    readBitmap (bitmapContent mode bitarray) = some bitarray := by
  have hlength : (bitmapContent mode bitarray).length = 12 + bitarray.length := by
    simp [bitmapContent]
    omega
  have hdrop : (bitmapContent mode bitarray).drop 4 = leBytes 8 bitarray.length ++ bitarray := by
    rw [bitmapContent, List.append_assoc]
    exact List.drop_left' (length_leBytes 4 mode)
  have hdata : (bitmapContent mode bitarray).drop 12 = bitarray := by
    rw [bitmapContent]
    exact List.drop_left' (by simp)
  have hread : leNat (((bitmapContent mode bitarray).drop 4).take 8) = bitarray.length := by
    rw [hdrop, List.take_left' (length_leBytes 8 _), leNat_leBytes]
    exact Nat.mod_eq_of_lt hsize
  unfold readBitmap
  dsimp only
  rw [hread, hlength, if_pos le_rfl, hdata, List.take_length]

theorem readMetadata_metadataContent (metadata : StoredMetadata) :
    readMetadata (metadataContent metadata) = some metadata := by
  have htime : (metadataContent metadata).drop 0 = metadataContent metadata := rfl
  have hconsistency : (metadataContent metadata).drop 8
      = consistencyCodec.encode metadata.consistency ++ int32Codec.encode metadata.partitions :=
    drop_scalar htime
  have hpartitions : (metadataContent metadata).drop 9
      = int32Codec.encode metadata.partitions ++ [] :=
    (drop_scalar hconsistency).trans (List.append_nil _).symm
  unfold readMetadata
  rw [scalarAt_of_drop htime, scalarAt_of_drop hconsistency, scalarAt_of_drop hpartitions]
  rfl

theorem readBlocks_of_drop (hblocks : ∀ block ∈ blocks, block < 2 ^ 31)
    (h : content.drop offset
      = blocks.flatMap (fun block => int32Codec.encode (Int32.ofNat block)) ++ rest) :
    readBlocks content blocks.length offset = some blocks ∧
      content.drop (offset + 4 * blocks.length) = rest := by
  induction blocks generalizing offset with
  | nil => exact ⟨rfl, h⟩
  | cons block blocks ih =>
    rw [List.flatMap_cons, List.append_assoc] at h
    have hnext : content.drop (offset + 4)
        = blocks.flatMap (fun block => int32Codec.encode (Int32.ofNat block)) ++ rest :=
      drop_scalar h
    obtain ⟨hread, hrest⟩ :=
      ih (fun block hmem => hblocks block (List.mem_cons_of_mem _ hmem)) hnext
    have hblock : (Int32.ofNat block).toInt.toNat = block := by
      rw [Int32.toInt_ofNat_of_lt (hblocks block List.mem_cons_self)]
      rfl
    constructor
    · rw [List.length_cons, readBlocks, scalarAt_of_drop h, hread, Option.bind_eq_bind,
        Option.bind_some, Option.bind_eq_bind, Option.bind_some, hblock]
    · rw [List.length_cons, Nat.mul_succ, Nat.add_comm (4 * blocks.length), ← Nat.add_assoc]
      exact hrest

theorem readFsArchive_archiveContent (hlength : blocks.length < 2 ^ 31)
    (hblocks : ∀ block ∈ blocks, block < 2 ^ 31) (size : Int32) :
    readFsArchive (archiveContent blocks size) = some ⟨blocks, size.toInt⟩ := by
  have hnumber : (archiveContent blocks size).drop 0 = archiveContent blocks size := rfl
  have htoInt : (Int32.ofNat blocks.length).toInt = blocks.length :=
    Int32.toInt_ofNat_of_lt hlength
  obtain ⟨hread, hrest⟩ := readBlocks_of_drop hblocks
    (show (archiveContent blocks size).drop 4 = _ from drop_scalar hnumber)
  have hsize : scalarAt int32Codec (archiveContent blocks size) (4 + 4 * blocks.length)
      = some size := scalarAt_of_drop (hrest.trans (List.append_nil _).symm)
  have hpositive : ¬ Int32.ofNat blocks.length < 0 := by
    rw [Int32.lt_iff_toInt_lt, htoInt]
    exact Int.not_lt.mpr (Int.natCast_nonneg _)
  have htoNat : (Int32.ofNat blocks.length).toInt.toNat = blocks.length := by
    rw [htoInt]
    rfl
  unfold readFsArchive
  rw [scalarAt_of_drop hnumber, Option.bind_eq_bind, Option.bind_some, if_neg hpositive]
  dsimp only
  rw [htoNat, hread, hsize]
  rfl

end Formats

/-! ## CREATE -/

/-- `table_state_t`: the values of the semaphores, and the thread. -/
structure TableState where
  name : Bytes
  isBlockedMutex : Nat
  liveStatusMutex : Nat
  selectMutex : Nat
  compactionThread : Nat
  deriving DecidableEq

/-- The files under the mount point and the globals of `process_create`. -/
structure MountedFiles where
  tree : FileTree
  tableStateList : List TableState
  threadSemaphore : Nat

/-- What a CREATE does not decide itself: the mount point, the library, whether `mkdir` is refused
and which thread `pthread_create` makes. -/
structure CreateSetting where
  mountPoint : Bytes
  commons : Bitarray
  refused : Bool
  thread : Nat

namespace CreateSetting
variable (setting : CreateSetting)

/-- `create_table_folder`: the tree if it returns 0. -/
def createTableFolder (tree : FileTree) (tableName : Bytes) : Option FileTree :=
  if setting.refused then none else tree.mkdir (tableDirectory setting.mountPoint tableName)

/-- `create_table_metadata`. -/
def createTableMetadata (tree : FileTree) (metadata : StoredMetadata) (tableName : Bytes) :
    Option FileTree :=
  tree.writeFile (tableDirectory setting.mountPoint tableName ++ slash :: metadataName)
    (metadataContent metadata)

/-- `create_partitions`, from partition `i + 1` on. -/
def createPartitions (tableName : Bytes) : Nat → List Nat → FileTree → Option FileTree
  | _, [], tree => some tree
  | i, block :: blocks, tree => do
    let tree ← tree.writeFile
      (tableDirectory setting.mountPoint tableName ++ slash :: partitionName (i + 1))
      (archiveContent [block] 0)
    createPartitions tableName (i + 1) blocks tree

/-- `add_table_to_table_state_list`. -/
def addTableToTableStateList (s : MountedFiles) (tableName : Bytes) : MountedFiles :=
  { s with
    tableStateList := s.tableStateList ++ [⟨toUppercase tableName, 1, 1, 1, setting.thread⟩]
    threadSemaphore := s.threadSemaphore + 1 }

/-- `process_create`: the answer, and the state after it.  A negative number of partitions is an
array of negative length. -/
def processCreate (input : CreateInput) (s : MountedFiles) : Option (Int32 × MountedFiles) := do
  let tableNameUpper := toUppercase input.tableName.bytes
  let content ← s.tree.readFile (getBitmapDirectory setting.mountPoint)
  let bitmap ← readBitmap content
  if input.partitions < 0 then none
  else
    let count := input.partitions.toInt.toNat
    let (blocks, bitmap) := setting.commons.assignFreeBlocks bitmap count
    if blocks.length = count then
      match setting.createTableFolder s.tree tableNameUpper with
      | none => some (-1, s)
      | some tree => do
        let tree ← setting.createTableMetadata tree
          ⟨input.compactionTime, input.consistency, input.partitions⟩ tableNameUpper
        let tree ← setting.createPartitions tableNameUpper 0 blocks tree
        let tree ← tree.writeFile (getBitmapDirectory setting.mountPoint)
          (bitmapContent setting.commons.lsbFirst bitmap)
        some (0, setting.addTableToTableStateList { s with tree } tableNameUpper)
    else some (-2, s)

/-! ## What can be read afterwards -/

/-- `read_bitmap`, `read_table_metadata` and `read_fs_archive` on the files of a tree. -/
def bitmap (tree : FileTree) : Option Bytes :=
  tree.readFile (getBitmapDirectory setting.mountPoint) >>= readBitmap

def metadata (tree : FileTree) (tableName : Bytes) : Option StoredMetadata :=
  tree.readFile (tableDirectory setting.mountPoint tableName ++ slash :: metadataName) >>=
    readMetadata

def partition (tree : FileTree) (tableName : Bytes) (partitionNumber : Nat) : Option Archive :=
  tree.readFile
    (tableDirectory setting.mountPoint tableName ++ slash :: partitionName partitionNumber) >>=
      readFsArchive

/-- A bitmap is stored, in any mode, of as many blocks as an `int` can count. -/
structure StoresBitmap (tree : FileTree) (bitmap : Bytes) : Prop where
  stored : ∃ mode, tree.readFile (getBitmapDirectory setting.mountPoint)
    = some (bitmapContent mode bitmap)
  small : 8 * bitmap.length < 2 ^ 31

/-- The blocks were free, and are what is marked now. -/
structure Takes (before after : Bytes) (taken : List Nat) : Prop where
  distinct : taken.Nodup
  free : ∀ block ∈ taken, ∃ i < 8 * before.length, block = i + 1 ∧
    setting.commons.testBit before i = false
  length : after.length = before.length
  bits : ∀ i < 8 * before.length,
    setting.commons.testBit after i = (setting.commons.testBit before i || decide (i + 1 ∈ taken))

/-- All that a CREATE brings. -/
structure Created (input : CreateInput) (s s' : MountedFiles) (taken : List Nat) : Prop where
  count : taken.length = input.partitions.toInt.toNat
  takes : ∃ before after, setting.bitmap s.tree = some before ∧
    setting.bitmap s'.tree = some after ∧ setting.Takes before after taken
  partitions : ∀ i block, taken[i]? = some block →
    setting.partition s'.tree (toUppercase input.tableName.bytes) (i + 1) = some ⟨[block], 0⟩
  metadata : setting.metadata s'.tree (toUppercase input.tableName.bytes)
    = some ⟨input.compactionTime, input.consistency, input.partitions⟩
  /-- The directory is new, and all files that are new are in it. -/
  directory : ∃ place, place ∉ s.tree.directories ∧
    s.tree.locate (tableDirectory setting.mountPoint (toUppercase input.tableName.bytes))
      = some place ∧
    s'.tree.directories = place :: s.tree.directories ∧
    ∀ other, s.tree.files other = none → s'.tree.files other ≠ none →
      ∃ name, other = place ++ [name]
  /-- Every other file can be read as before. -/
  others : ∀ path content, s.tree.readFile path = some content →
    s.tree.locate path ≠ s.tree.locate (getBitmapDirectory setting.mountPoint) →
      s'.tree.readFile path = some content
  tableState : s'.tableStateList = s.tableStateList ++
    [⟨toUppercase input.tableName.bytes, 1, 1, 1, setting.thread⟩]

end CreateSetting

/-! ## Names -/

theorem entryName_metadataName : EntryName metadataName :=
  ⟨by decide, by decide, by decide, by decide⟩

theorem not_mem_decimal {n : Nat} {b : Byte} (h : isDigit b = false) : b ∉ decimal n := by
  intro hmem
  rw [isDigit_of_mem_decimal hmem] at h
  cases h

theorem entryName_partitionName (n : Nat) : EntryName (partitionName n) := by
  have hshort : ∀ name : Bytes, name.length ≤ 2 → partitionName n ≠ name := by
    rintro name hname rfl
    rw [partitionName, List.length_append] at hname
    simp at hname
  refine ⟨hshort [] (by decide), ?_, hshort dot (by decide), hshort dotDot (by decide)⟩
  rw [partitionName, List.mem_append, not_or]
  exact ⟨not_mem_decimal (by decide), by decide⟩

theorem partitionName_injective : Function.Injective partitionName := by
  intro first second h
  have hdecimal := List.append_cancel_right h
  rw [← digitsValue_decimal first, hdecimal, digitsValue_decimal]

theorem partitionName_ne_metadataName (n : Nat) : partitionName n ≠ metadataName := by
  intro h
  have hdecimal : decimal n = [109, 101, 116, 97, 100, 97, 116, 97] :=
    @List.append_cancel_right _ (decimal n) [46, 98, 105, 110] _ h
  have hmem : (109 : Byte) ∈ decimal n := by
    rw [hdecimal]
    exact List.mem_cons_self
  exact not_mem_decimal (by decide) hmem

/-- The files of `create_partitions`. -/
def partitionEntries : Nat → List Nat → List (Bytes × Bytes)
  | _, [] => []
  | i, block :: blocks =>
    (partitionName (i + 1), archiveContent [block] 0) :: partitionEntries (i + 1) blocks

theorem mem_partitionEntries {i : Nat} {blocks : List Nat} {entry : Bytes × Bytes} :
    entry ∈ partitionEntries i blocks ↔ ∃ j block, blocks[j]? = some block ∧
      entry = (partitionName (i + j + 1), archiveContent [block] 0) := by
  induction blocks generalizing i with
  | nil =>
    constructor
    · intro h
      cases h
    · rintro ⟨j, block, hblock, -⟩
      cases hblock
  | cons first blocks ih =>
    rw [partitionEntries, List.mem_cons, ih]
    constructor
    · rintro (rfl | ⟨j, block, hblock, rfl⟩)
      · exact ⟨0, first, rfl, rfl⟩
      · refine ⟨j + 1, block, hblock, ?_⟩
        rw [Nat.add_right_comm i 1 j, Nat.add_assoc i j 1]
    · rintro ⟨j, block, hblock, rfl⟩
      cases j with
      | zero =>
        obtain rfl := Option.some.inj hblock
        exact Or.inl rfl
      | succ j =>
        refine Or.inr ⟨j, block, hblock, ?_⟩
        rw [Nat.add_right_comm i 1 j, Nat.add_assoc i j 1]

theorem nodup_partitionEntries (i : Nat) (blocks : List Nat) :
    ((partitionEntries i blocks).map Prod.fst).Nodup := by
  induction blocks generalizing i with
  | nil => exact List.nodup_nil
  | cons block blocks ih =>
    rw [partitionEntries, List.map_cons, List.nodup_cons]
    refine ⟨fun hmem => ?_, ih (i + 1)⟩
    obtain ⟨entry, hentry, hname⟩ := List.mem_map.mp hmem
    obtain ⟨j, other, -, rfl⟩ := mem_partitionEntries.mp hentry
    have hnumber := partitionName_injective hname
    omega

/-! ## CREATE is all or nothing -/

namespace CreateSetting

section Create
variable {setting : CreateSetting} {tree tree' : FileTree} {tableName bitmap : Bytes}
  {blocks taken : List Nat} {place : Place}

theorem createPartitions_eq (i : Nat) (blocks : List Nat) (tree : FileTree) :
    setting.createPartitions tableName i blocks tree
      = tree.writeEntries (tableDirectory setting.mountPoint tableName)
        (partitionEntries i blocks) := by
  induction blocks generalizing i tree with
  | nil => rfl
  | cons block blocks ih =>
    rw [createPartitions, partitionEntries, FileTree.writeEntries]
    congr 1
    funext next
    exact ih (i + 1) next

/-- The metadata and the partitions of a table. -/
def tableEntries (metadata : StoredMetadata) (blocks : List Nat) : List (Bytes × Bytes) :=
  (metadataName, metadataContent metadata) :: partitionEntries 0 blocks

theorem entryName_of_mem_tableEntries {metadata : StoredMetadata} {entry : Bytes × Bytes}
    (h : entry ∈ tableEntries metadata blocks) : EntryName entry.1 := by
  rcases List.mem_cons.mp h with rfl | hentry
  · exact entryName_metadataName
  · obtain ⟨j, block, -, rfl⟩ := mem_partitionEntries.mp hentry
    exact entryName_partitionName _

/-- The directory of a new table gets its files. -/
theorem create_entries {metadata : StoredMetadata}
    (hplace : tree.locate (tableDirectory setting.mountPoint tableName) = some place)
    (hmem : place ∈ tree.directories) (hfree : ∀ name, place ++ [name] ∉ tree.directories) :
    ∃ tree', (setting.createTableMetadata tree metadata tableName >>=
        setting.createPartitions tableName 0 blocks) = some tree' ∧
      tree.HasEntries tree' place (tableEntries metadata blocks) := by
  have hnodup : ((tableEntries metadata blocks).map Prod.fst).Nodup := by
    rw [tableEntries, List.map_cons, List.nodup_cons]
    refine ⟨fun hname => ?_, nodup_partitionEntries 0 blocks⟩
    obtain ⟨entry, hentry, hname⟩ := List.mem_map.mp hname
    obtain ⟨j, block, -, rfl⟩ := mem_partitionEntries.mp hentry
    exact partitionName_ne_metadataName _ hname
  obtain ⟨tree', hrun, hentries⟩ :=
    FileTree.writeEntries_spec hplace hmem (fun _ => entryName_of_mem_tableEntries) hfree hnodup
  refine ⟨tree', ?_, hentries⟩
  rw [← hrun, tableEntries, FileTree.writeEntries, createTableMetadata]
  congr 1
  funext next
  exact createPartitions_eq 0 blocks next

/-- The stored bitmap is the one that is read. -/
theorem StoresBitmap.bitmap_eq (h : setting.StoresBitmap tree bitmap) :
    setting.bitmap tree = some bitmap := by
  obtain ⟨mode, hstored⟩ := h.stored
  have hsmall := h.small
  have hsize : bitmap.length < 2 ^ 64 := by omega
  rw [CreateSetting.bitmap, hstored, Option.bind_eq_bind, Option.bind_some,
    readBitmap_bitmapContent mode hsize]

/-- Blocks that are taken. -/
theorem takes_assignFreeBlocks (bitmap : Bytes) (count : Nat) :
    setting.Takes bitmap (setting.commons.assignFreeBlocks bitmap count).2
      (setting.commons.assignFreeBlocks bitmap count).1 := by
  obtain ⟨hassign, hlength⟩ := @Bitarray.assignFreeBlocks_bits setting.commons count bitmap
  have hmarked : Marked ⟨0, setting.commons.bits bitmap, fun _ => []⟩
      (setting.commons.assignFreeBlocks bitmap count).1
      (setting.commons.bits (setting.commons.assignFreeBlocks bitmap count).2) := by
    have hbits := congrArg Prod.snd hassign
    have hblocks := congrArg Prod.fst hassign
    dsimp only at hbits hblocks
    rw [← hbits, ← hblocks, Lissandra.assignFreeBlocks]
    split
    · exact marked_takeFreeBlocks count ⟨0, setting.commons.bits bitmap, fun _ => []⟩
    · exact ⟨rfl, fun i => by simp⟩
  refine ⟨?_, fun block hblock => ?_, hlength, fun i hi => ?_⟩
  · have hnodup := availableBlocks_nodup (setting.commons.bits bitmap)
    rw [hmarked.free_eq] at hnodup
    exact (List.nodup_append.mp hnodup).1
  · have hfree : block ∈ availableBlocks (setting.commons.bits bitmap) := by
      rw [hmarked.free_eq]
      exact List.mem_append_left _ hblock
    obtain ⟨i, rfl, hclear⟩ := mem_availableBlocks.mp hfree
    rw [Bitarray.getElem?_bits] at hclear
    split at hclear
    · rename_i hi
      exact ⟨i, hi, rfl, Option.some.inj hclear⟩
    · cases hclear
  · have hbit := hmarked.bits i
    rw [Bitarray.getElem?_bits, hlength, if_pos hi] at hbit
    split at hbit
    · rename_i htaken
      rw [Option.some.inj hbit, decide_eq_true htaken, Bool.or_true]
    · rename_i htaken
      rw [Bitarray.getElem?_bits, if_pos hi] at hbit
      rw [Option.some.inj hbit, decide_eq_false htaken, Bool.or_false]

/-- A tree with a new directory, its files, and what is stored for the bitmap. -/
structure Writes (setting : CreateSetting) (tree written : FileTree) (tableName stored : Bytes)
    (entries : List (Bytes × Bytes)) : Prop where
  directory : ∃ place, place ∉ tree.directories ∧
    tree.locate (tableDirectory setting.mountPoint tableName) = some place ∧
    written.directories = place :: tree.directories ∧
    ∀ other, tree.files other = none → written.files other ≠ none → ∃ name, other = place ++ [name]
  bitmap : written.readFile (getBitmapDirectory setting.mountPoint) = some stored
  entries : ∀ entry ∈ entries,
    written.readFile (tableDirectory setting.mountPoint tableName ++ slash :: entry.1)
      = some entry.2
  others : ∀ path content, tree.readFile path = some content →
    tree.locate path ≠ tree.locate (getBitmapDirectory setting.mountPoint) →
      written.readFile path = some content

/-- `mkdir`, the files of the table and the bitmap, one after the other. -/
theorem create_writes {metadata : StoredMetadata} {content : Bytes}
    (hfolder : setting.createTableFolder tree tableName = some tree')
    (hbitmap : tree.readFile (getBitmapDirectory setting.mountPoint) = some content)
    (stored : Bytes) :
    ∃ listed written, (setting.createTableMetadata tree' metadata tableName >>=
        setting.createPartitions tableName 0 blocks) = some listed ∧
      listed.writeFile (getBitmapDirectory setting.mountPoint) stored = some written ∧
      Writes setting tree written tableName stored (tableEntries metadata blocks) := by
  rw [createTableFolder] at hfolder
  split at hfolder
  · cases hfolder
  obtain ⟨place, hplace, hnew, hnoFile, hdirectories, hfiles⟩ := FileTree.mkdir_eq_some hfolder
  obtain ⟨bitmapPlace, hbitmapPlace, hbitmapFile, hbitmapNew⟩ :=
    FileTree.locate_of_readFile hbitmap
  have hsub : tree.directories ⊆ tree'.directories := by
    rw [hdirectories]
    exact List.subset_cons_self _ _
  have hmem : place ∈ tree'.directories := by
    rw [hdirectories]
    exact List.mem_cons_self
  have hfree : ∀ name, place ++ [name] ∉ tree'.directories := by
    intro name hname
    rw [hdirectories] at hname
    rcases List.mem_cons.mp hname with heq | hname
    · have hlength := congrArg List.length heq
      simp at hlength
    · exact FileTree.not_mem_directories_child hnew name hname
  obtain ⟨listed, hlisted, hentries⟩ := @create_entries setting tree' tableName blocks place
    metadata (FileTree.locate_mono hsub hplace) hmem hfree
  -- the bitmap was a file before, so it is not in the new directory, nor the directory
  have hapart : ∀ name, bitmapPlace ≠ place ++ [name] := by
    intro name heq
    rw [heq, FileTree.files_child hnew name] at hbitmapFile
    cases hbitmapFile
  have hnotBitmap : bitmapPlace ∉ listed.directories := by
    rw [hentries.directories, hdirectories, List.mem_cons, not_or]
    refine ⟨fun heq => ?_, hbitmapNew⟩
    rw [heq, hnoFile] at hbitmapFile
    cases hbitmapFile
  have hlistedSub : tree.directories ⊆ listed.directories := hentries.directories.symm ▸ hsub
  obtain ⟨written, hwrite, hwrittenDirectories, hwrittenFiles⟩ :=
    FileTree.writeFile_of_locate (FileTree.locate_mono hlistedSub hbitmapPlace) hnotBitmap stored
  refine ⟨listed, written, hlisted, hwrite, ?_⟩
  have hwrittenSub : tree.directories ⊆ written.directories := hwrittenDirectories.symm ▸ hlistedSub
  have hall : written.directories = place :: tree.directories :=
    hwrittenDirectories.trans (hentries.directories.trans hdirectories)
  have hother : ∀ other, other ≠ bitmapPlace → (∀ name, other ≠ place ++ [name]) →
      written.files other = tree.files other := by
    intro other hne hchild
    rw [hwrittenFiles, Function.update_of_ne hne, hentries.kept other fun entry _ => hchild entry.1,
      hfiles]
  refine ⟨⟨place, hnew, hplace, hall, fun other hnone hsome => ?_⟩, ?_, fun entry hentry => ?_,
    fun path content hread hne => ?_⟩
  · by_contra hchild
    rw [not_exists] at hchild
    have hbitmapOther : other ≠ bitmapPlace := by
      rintro rfl
      rw [hbitmapFile] at hnone
      cases hnone
    exact hsome ((hother other hbitmapOther hchild).trans hnone)
  · rw [FileTree.readFile_of_locate (FileTree.locate_mono hwrittenSub hbitmapPlace), hwrittenFiles,
      Function.update_self]
  · have hentryPlace := FileTree.locate_child (FileTree.locate_mono hwrittenSub hplace)
      (hall ▸ List.mem_cons_self) (entryName_of_mem_tableEntries hentry)
    rw [FileTree.readFile_of_locate hentryPlace, hwrittenFiles,
      Function.update_of_ne (hapart entry.1).symm, hentries.written entry hentry]
  · obtain ⟨other, hotherPlace, hotherFile, -⟩ := FileTree.locate_of_readFile hread
    rw [FileTree.readFile_of_locate (FileTree.locate_mono hwrittenSub hotherPlace),
      hother other ?_ fun name heq => ?_, hotherFile]
    · rintro rfl
      exact hne (hotherPlace.trans hbitmapPlace.symm)
    · rw [heq, FileTree.files_child hnew name] at hotherFile
      cases hotherFile

/-- What was written is what a CREATE brings. -/
theorem Writes.created {input : CreateInput} {s : MountedFiles} {written : FileTree} {after : Bytes}
    (h : setting.StoresBitmap s.tree bitmap) (htakes : setting.Takes bitmap after taken)
    (hcount : taken.length = input.partitions.toInt.toNat)
    (hwrites : Writes setting s.tree written (toUppercase input.tableName.bytes)
      (bitmapContent setting.commons.lsbFirst after)
      (tableEntries ⟨input.compactionTime, input.consistency, input.partitions⟩ taken)) :
    setting.Created input s (setting.addTableToTableStateList { s with tree := written }
      (toUppercase input.tableName.bytes)) taken where
  count := hcount
  takes := by
    have hsmall := h.small
    have hsize : after.length < 2 ^ 64 := by
      rw [htakes.length]
      omega
    refine ⟨bitmap, after, h.bitmap_eq, ?_, htakes⟩
    show setting.bitmap written = some after
    rw [CreateSetting.bitmap, hwrites.bitmap, Option.bind_eq_bind, Option.bind_some,
      readBitmap_bitmapContent _ hsize]
  partitions i block hblock := by
    have hmem : block ∈ taken := List.mem_of_getElem? hblock
    have hentry := hwrites.entries (partitionName (i + 1), archiveContent [block] 0)
      (List.mem_cons_of_mem _ (mem_partitionEntries.mpr ⟨i, block, hblock, by rw [Nat.zero_add]⟩))
    have hbound : ∀ other ∈ [block], other < 2 ^ 31 := by
      intro other hother
      obtain rfl := List.mem_singleton.mp hother
      obtain ⟨bit, hbit, rfl, -⟩ := htakes.free other hmem
      have hsmall := h.small
      omega
    show setting.partition written _ _ = _
    rw [CreateSetting.partition, hentry, Option.bind_eq_bind, Option.bind_some,
      readFsArchive_archiveContent (by simp) hbound]
    rfl
  metadata := by
    have hentry := hwrites.entries (metadataName, metadataContent
      ⟨input.compactionTime, input.consistency, input.partitions⟩) List.mem_cons_self
    show setting.metadata written _ = _
    rw [CreateSetting.metadata, hentry, Option.bind_eq_bind, Option.bind_some,
      readMetadata_metadataContent]
  directory := hwrites.directory
  others := hwrites.others
  tableState := by
    show s.tableStateList ++ [_] = _
    rw [toUppercase_toUppercase]

/-- A CREATE on a stored bitmap answers -1 or -2 and leaves everything as it was, or 0 and brings
the bits, the partitions, the metadata and the entry of `table_state_list`. -/
theorem create_spec {input : CreateInput} {s : MountedFiles}
    (h : setting.StoresBitmap s.tree bitmap) (hpartitions : 0 ≤ input.partitions) :
    ∃ status s', setting.processCreate input s = some (status, s') ∧
      ((status = -1 ∨ status = -2) ∧ s' = s ∨
        status = 0 ∧ ∃ taken, setting.Created input s s' taken) := by
  obtain ⟨mode, hstored⟩ := h.stored
  have hsmall := h.small
  have hsize : bitmap.length < 2 ^ 64 := by omega
  have hsign : ¬ input.partitions < 0 := Int32.not_lt.mpr hpartitions
  have htakes := @takes_assignFreeBlocks setting bitmap input.partitions.toInt.toNat
  rw [processCreate, hstored, Option.bind_eq_bind, Option.bind_some,
    readBitmap_bitmapContent mode hsize, Option.bind_eq_bind, Option.bind_some, if_neg hsign]
  dsimp only
  by_cases hcount : (setting.commons.assignFreeBlocks bitmap
      input.partitions.toInt.toNat).1.length = input.partitions.toInt.toNat
  · rw [if_pos hcount]
    cases hfolder : setting.createTableFolder s.tree (toUppercase input.tableName.bytes) with
    | none => exact ⟨-1, s, rfl, Or.inl ⟨Or.inl rfl, rfl⟩⟩
    | some tree =>
      obtain ⟨listed, written, hlisted, hwrite, hwrites⟩ := create_writes hfolder hstored
        (bitmapContent setting.commons.lsbFirst
          (setting.commons.assignFreeBlocks bitmap input.partitions.toInt.toNat).2)
      refine ⟨0, _, ?_, Or.inr ⟨rfl, _, hwrites.created h htakes hcount⟩⟩
      dsimp only
      rw [← Option.bind_eq_bind, ← bind_assoc, hlisted, Option.bind_eq_bind, Option.bind_some,
        hwrite]
      rfl
  · rw [if_neg hcount]
    exact ⟨-2, s, rfl, Or.inl ⟨Or.inr rfl, rfl⟩⟩

/-- A mount point `/m/` with one byte of bitmap, of which the first block is used. -/
def oneByteTree : FileTree where
  directories := [[], [[109]], [[109], [77, 101, 116, 97, 100, 97, 116, 97]],
    [[109], [84, 97, 98, 108, 101, 115]]]
  files place :=
    if place = [[109], [77, 101, 116, 97, 100, 97, 116, 97],
        [66, 105, 116, 109, 97, 112, 46, 98, 105, 110]] then
      some (bitmapContent 0 [1])
    else none
  root := by decide
  closed := by decide
  parent place h := by
    split at h
    · rename_i heq
      subst heq
      decide
    · cases h
  apart := by decide

def oneByteSetting : CreateSetting := ⟨[47, 109, 47], lsbFirstBitarray, false, 3⟩

def oneByteFiles : MountedFiles := ⟨oneByteTree, [], 0⟩

/-- `CREATE t SC 2 60000`. -/
def createTwo : CreateInput := ⟨.ofBytes [116], .strongConsistency, 2, 60000⟩

theorem create_two_partitions :
    ∃ s' taken, oneByteSetting.processCreate createTwo oneByteFiles = some (0, s') ∧
      oneByteSetting.Created createTwo oneByteFiles s' taken := by
  have hstores : oneByteSetting.StoresBitmap oneByteFiles.tree [1] :=
    ⟨⟨0, by decide⟩, by decide⟩
  have hanswer : (oneByteSetting.processCreate createTwo oneByteFiles).map Prod.fst = some 0 := by
    decide
  obtain ⟨status, s', hrun, hspec⟩ := @create_spec oneByteSetting [1] createTwo oneByteFiles
    hstores (by decide)
  rw [hrun] at hanswer
  obtain rfl := Option.some.inj hanswer
  rcases hspec with ⟨hfails, -⟩ | ⟨-, taken, hcreated⟩
  · exact absurd hfails (by decide)
  · exact ⟨s', taken, hrun, hcreated⟩

end Create

end CreateSetting

end Lissandra
