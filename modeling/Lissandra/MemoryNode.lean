import Lissandra.RecordEncoding
import Lissandra.Filesystem
import Mathlib.Data.List.Sort

/-! # A memory node

The segments and pages over `g_main_memory`, and the functions of `memory_tables.c`,
`memory_utils.c` and `core/operations.c` that use them.

`process_insert` and `select_callback` post the semaphore before they list the page they
wrote, when it is a page of a new segment or took the place of another one.  So each is a
section that may leave a `Listing` to be done, and `list_add` is a step of its own
(`listAdd`).  Where `replace_algorithm` finds no page to evict the section ends with a
`JournalRegister`, which travels with the journal and comes back in `journal_callback`.

Results are `Option`s: `none` is a `NULL` that is dereferenced.
-/
namespace Lissandra

/-! ## Segments and pages -/

/-- `page_t`. -/
structure Page where
  index : Int
  modified : Bool
  deriving DecidableEq

/-- `segment_t`. -/
structure MemorySegment where
  name : Bytes
  page : List Page
  deriving DecidableEq

/-- `g_main_memory`, `g_segment_list` and `g_value_size`. -/
structure MemoryNode where
  memory : MainMemory
  segmentList : List MemorySegment
  valueSize : Nat
  deriving DecidableEq

/-- What is done to an element that a loop finds. -/
def updateFirst {α : Type} (p : α → Bool) (f : α → α) : List α → List α
  | [] => []
  | a :: rest => if p a then f a :: rest else a :: updateFirst p f rest

theorem mem_updateFirst {α : Type} {p : α → Bool} {f : α → α} {l : List α} {a : α}
    (h : a ∈ updateFirst p f l) : a ∈ l ∨ ∃ b ∈ l, p b = true ∧ a = f b := by
  induction l with
  | nil => exact absurd h List.not_mem_nil
  | cons first rest ih =>
    unfold updateFirst at h
    split at h
    · rename_i hfirst
      rcases List.mem_cons.mp h with rfl | hrest
      · exact .inr ⟨first, List.mem_cons_self, hfirst, rfl⟩
      · exact .inl (List.mem_cons_of_mem _ hrest)
    · rcases List.mem_cons.mp h with rfl | hrest
      · exact .inl List.mem_cons_self
      · rcases ih hrest with hmem | ⟨b, hb, hp, heq⟩
        · exact .inl (List.mem_cons_of_mem _ hmem)
        · exact .inr ⟨b, List.mem_cons_of_mem _ hb, hp, heq⟩

/-- `get_segment_by_name`. -/
def getSegmentByName (list : List MemorySegment) (tableName : Bytes) : Option MemorySegment :=
  list.find? fun segment => segment.name = tableName

/-- The loop of `get_page_by_key`: the first index whose page has the key. -/
def findKey (memory : MainMemory) (key : Int) : List Int → Option (Option Int)
  | [] => some none
  | index :: rest => do
    let comparator ← mainMemoryValues memory index .key
    if comparator = printInt key then some (some index) else findKey memory key rest

/-- `get_page_by_key`, and `get_page_by_index` for what it found. -/
def getPageByKey (memory : MainMemory) (segment : MemorySegment) (key : Int) :
    Option (Option Page) := do
  let found ← findKey memory key (segment.page.map Page.index)
  some (found.bind fun index => segment.page.find? fun page => page.index = index)

/-- `get_pages_by_modified`. -/
def getPagesByModified (list : List MemorySegment) (modified : Bool) : List Page :=
  list.flatMap fun segment => segment.page.filter fun page => page.modified = modified

/-- `get_segment_by_index_global`. -/
def getSegmentByIndexGlobal (list : List MemorySegment) (index : Int) : Option MemorySegment :=
  list.find? fun segment => segment.page.any fun page => page.index = index

/-- `get_table_name_by_index`. -/
def getTableNameByIndex (list : List MemorySegment) (index : Int) : Option Bytes :=
  (getSegmentByIndexGlobal list index).map MemorySegment.name

/-- `create_page` and `list_add` to the pages of a segment of the list. -/
def addPage (tableName : Bytes) (page : Page) (list : List MemorySegment) : List MemorySegment :=
  updateFirst (fun segment => segment.name = tableName)
    (fun segment => { segment with page := segment.page ++ [page] }) list

/-- `create_segment`, with a first page. -/
def createSegment (tableName : Bytes) (page : Page) : MemorySegment :=
  ⟨toUppercase tableName, [page]⟩

/-- `remove_segment`. -/
def removeSegment (node : MemoryNode) (segment : MemorySegment) : MemoryNode :=
  { node with
    memory := segment.page.foldl (fun memory page => memory.strcpy page.index.toNat null)
      node.memory
    segmentList := node.segmentList.eraseP fun other => other.name = segment.name }

/-- The loop of `delete_all_segments`, from the last segment on. -/
def deleteSegments : Nat → MemoryNode → Option MemoryNode
  | 0, node => some node
  | i + 1, node => do
    let segment ← node.segmentList[i]?
    deleteSegments i (removeSegment node segment)

/-- `delete_all_segments`. -/
def deleteAllSegments (node : MemoryNode) : Option MemoryNode :=
  deleteSegments node.segmentList.length node

/-! ## The replacement of pages -/

/-- `order_by_timestamp`. -/
def orderByTimestamp (memory : MainMemory) (first second : Int) : Bool :=
  let timestamp index := strtoll ((mainMemoryValues memory index .timestamp).getD [])
  timestamp first < timestamp second

/-- `list_sorted(indexes, order_by_timestamp)`. -/
def sortedIndexes (memory : MainMemory) (indexes : List Int) : List Int :=
  indexes.insertionSort fun first second => orderByTimestamp memory second first = false

/-- `eliminate_page_instance_by_index`. -/
def eliminatePageInstanceByIndex (node : MemoryNode) (index : Int) (tableName : Bytes) :
    Option MemoryNode := do
  let found ← getSegmentByIndexGlobal node.segmentList index
  let left := found.page.eraseP fun page => page.index = index
  let node := { node with
    memory := node.memory.strcpy index.toNat null
    segmentList := updateFirst (fun segment => segment.page.any fun page => page.index = index)
      (fun segment => { segment with page := left }) node.segmentList }
  some (if left = [] ∧ toUppercase tableName ≠ toUppercase found.name then
    removeSegment node { found with page := left } else node)

/-- `journal_register_t`. -/
structure JournalRegister where
  tableName : Bytes
  timestamp : Int64
  key : Int
  value : CString
  modified : Bool
  deriving DecidableEq

/-- What `replace_algorithm` comes to: the index of a page in the place of an evicted one,
or a journal. -/
inductive Replacement where
  | replaced (node : MemoryNode) (index : Int)
  | journaling

/-- `replace_algorithm`, up to the journal. -/
def replaceAlgorithm (node : MemoryNode) (timestamp : Int64) (key : Int) (value : Bytes)
    (tableName : Bytes) : Option Replacement :=
  match sortedIndexes node.memory ((getPagesByModified node.segmentList false).map Page.index) with
  | [] => some .journaling
  | replace :: _ => do
    let node ← eliminatePageInstanceByIndex node replace tableName
    let (memory, index) := memoryInsert node.memory timestamp key value
    some (.replaced { node with memory } index)

/-! ## Sections -/

/-- A page that is written and has to be listed: in the segment of this name, which is new
if `fresh`. -/
structure Listing where
  tableName : Bytes
  fresh : Bool
  page : Page
  deriving DecidableEq

/-- `list_add` of the page, and of its segment. -/
def listAdd (node : MemoryNode) (listing : Listing) : Option MemoryNode :=
  if listing.fresh then
    some { node with
        segmentList := node.segmentList ++ [createSegment listing.tableName listing.page] }
  else do
    let _ ← getSegmentByName node.segmentList listing.tableName
    some { node with segmentList := addPage listing.tableName listing.page node.segmentList }

/-- How a section that writes a page ends. -/
inductive SectionEnd where
  /-- All is done. -/
  | finished (node : MemoryNode)
  /-- The semaphore is posted and the page is not yet listed. -/
  | listing (node : MemoryNode) (listing : Listing)
  /-- The memory is as it was, and the record waits for a journal. -/
  | journaling (register : JournalRegister)
  deriving DecidableEq

/-- The memory after the section and the `list_add` that follows it. -/
def SectionEnd.run (node : MemoryNode) : SectionEnd → Option MemoryNode
  | .finished node => some node
  | .listing node entry => listAdd node entry
  | .journaling _ => some node

/-- What `process_insert` and `select_callback` do for a record that gets a new page.
`postsFirst` says, for an old and for a new segment, whether the semaphore is posted before
the page is listed when the memory is not full.  `replace_algorithm` posts it always. -/
def writePage (node : MemoryNode) (timestamp : Int64) (key : Int) (value : CString)
    (modified : Bool) (tableName : Bytes) (postsFirst : Bool → Bool) : Option SectionEnd := do
  let fresh := (getSegmentByName node.segmentList tableName).isNone
  if memoryFull node.memory then
    match ← replaceAlgorithm node timestamp key value.bytes tableName with
    | .replaced node index => some (.listing node ⟨tableName, fresh, ⟨index, modified⟩⟩)
    | .journaling => some (.journaling ⟨tableName, timestamp, key, value, modified⟩)
  else
    let (memory, index) := memoryInsert node.memory timestamp key value.bytes
    let node := { node with memory }
    let listing : Listing := ⟨tableName, fresh, ⟨index, modified⟩⟩
    if postsFirst fresh then some (.listing node listing)
    else (listAdd node listing).map .finished

/-! ## INSERT -/

/-- `get_segment_by_name` and `get_page_by_key`, as INSERT and SELECT look for a page. -/
def findPage (node : MemoryNode) (tableName : Bytes) (key : Int) :
    Option (Option (MemorySegment × Page)) :=
  match getSegmentByName node.segmentList tableName with
  | some segment => (getPageByKey node.memory segment key).map fun page => page.map (segment, ·)
  | none => some none

/-- `modify_memory_by_index`, and the page is modified. -/
def modifyPage (node : MemoryNode) (now : Int64) (tableName : Bytes) (page : Page) (key : Int)
    (value : Bytes) : MemoryNode :=
  { node with
    memory := modifyMemoryByIndex node.memory now page.index key value
    segmentList := updateFirst (fun segment => segment.name = tableName)
      (fun segment => { segment with
        page := updateFirst (fun other => other.index = page.index)
          (fun page => { page with modified := true }) segment.page }) node.segmentList }

/-- The section of `process_insert`.  The clock says `now` at its start and `later` where
it changes a page.  `none` inside is a value that is too long. -/
def insertSection (node : MemoryNode) (now later : Int64) (input : InsertInput) :
    Option (Option SectionEnd) :=
  let upperTableName := toUppercase input.tableName.bytes
  let key : Int := input.key.toNat
  if input.value.bytes.length ≤ node.valueSize then do
    match ← findPage node upperTableName key with
    | some (segment, page) =>
      some (some (.finished (modifyPage node later segment.name page key input.value.bytes)))
    | none => (writePage node now key input.value true upperTableName id).map some
  else some none

/-- The record that `process_insert` writes: a page that is written over gets the later
timestamp. -/
def writtenRecord (node : MemoryNode) (now later : Int64) (input : InsertInput) : Record :=
  ⟨if findPage node (toUppercase input.tableName.bytes) input.key.toNat =
    some none then now else later, input.key, input.value.bytes⟩

/-! ## SELECT -/

/-- What `process_select` comes to. -/
inductive Lookup where
  | hit (tableName : Bytes) (found : Found)
  | miss
  deriving DecidableEq

/-- The section of `process_select`. -/
def processSelect (node : MemoryNode) (input : SelectInput) : Option Lookup := do
  match ← findPage node (toUppercase input.tableName.bytes) input.key.toNat with
  | some (segment, page) => (pageRecord node.memory page.index).map (.hit segment.name ·)
  | none => some .miss

/-- The section of `select_callback`.  The page of the key that it looks up is not used;
`none` inside is an answer without a record. -/
def selectCallback (node : MemoryNode) (result : Option RecordT) : Option (Option SectionEnd) :=
  match result with
  | none => some none
  | some record =>
    if record.timestamp = -1 ∨ record.timestamp = -2 then some none
    else do
      let upperTableName := toUppercase record.tableName.bytes
      let _ ← findPage node upperTableName record.key.toInt
      (writePage node record.timestamp record.key.toInt record.value false upperTableName
        fun _ => false).map some

/-! ## DROP -/

/-- `process_drop`, up to the request to the filesystem. -/
def memoryDrop (node : MemoryNode) (input : DropInput) : MemoryNode :=
  match getSegmentByName node.segmentList (toUppercase input.tableName.bytes) with
  | some segment => removeSegment node segment
  | none => node

/-! ## JOURNAL -/

/-- `list_add_multi_lists`: the records of some pages, with the names of their tables.  A
`NULL` value is dereferenced when the request is sent. -/
def listAddMultiLists (node : MemoryNode) (pagesIndexes : List Int) :
    Option (List (Bytes × Record)) :=
  pagesIndexes.mapM fun index => do
    let timestamp ← mainMemoryValues node.memory index .timestamp
    let key ← mainMemoryValues node.memory index .key
    let value ← mainMemoryValues node.memory index .value
    let tableName ← getTableNameByIndex node.segmentList index
    some (tableName, ⟨strtoll timestamp, stringToUint16 key, value⟩)

/-- The batch that `journaling` sends. -/
def journalBatch (node : MemoryNode) : Option (List (Bytes × Record)) :=
  listAddMultiLists node ((getPagesByModified node.segmentList true).map Page.index)

/-- `journal_callback` on the memory.  The filesystem answers 0 or -1, or not at all. -/
def journalCallback (node : MemoryNode) (multiinsertResult : Option Int32)
    (register : Option JournalRegister) : Option MemoryNode := do
  let node ← if multiinsertResult = some 0 then deleteAllSegments node else some node
  match register with
  | none => some node
  | some reg =>
    if multiinsertResult = none ∨ multiinsertResult = some (-1) then some node
    else
      let (memory, index) := memoryInsert node.memory reg.timestamp reg.key reg.value.bytes
      some { node with
        memory
        segmentList := node.segmentList ++ [createSegment reg.tableName ⟨index, reg.modified⟩] }

/-! ## The first page -/

/-- `init_main_memory`, over what `malloc` returned. -/
def initMainMemory (allocated : Bytes) (totalPageSize totalPageCount : Nat) : MainMemory :=
  (List.range totalPageCount).foldl (fun memory i => memory.strcpy (i * totalPageSize) null)
    ⟨allocated, totalPageSize, totalPageCount⟩

/-- `digits_in_a_number`, of a number that is not negative. -/
def digitsInANumber (number : Nat) : Nat := (decimal number).length

/-- `get_value_callback` for the first value: the memory, unless a record would not fit. -/
def getValueCallback (allocated : Bytes) (value : Nat) (now : Nat) : Option MemoryNode :=
  let memorySize := allocated.length
  if memorySize < value + 21 then none
  else
    let totalPageSize := digitsInANumber 65535 + digitsInANumber now + value + 3
    some ⟨initMainMemory allocated totalPageSize (memorySize / totalPageSize), [], value⟩

end Lissandra
