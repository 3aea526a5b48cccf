import Lissandra.Eviction
import Lissandra.JournalLosses

/-! # What a memory owes the filesystem

The modified pages of a memory hold the INSERTs that the filesystem has not seen.  A journal sends
one entry for each of them, found by its frame and named by the segment that owns the frame, and
forgets all pages once the filesystem has accepted them; the record that had no page meanwhile
comes with the answer and gets the first frame.  Its text is not checked: a longer one than a
frame goes on in the frame behind (`journalsRightly_iff`).

A DROP frees the frames of its table before it asks the filesystem, and an exchange that fails
brings nothing back (`dropKeeps_iff`).
-/
namespace Lissandra

/-! ## Modified pages -/

/-- The pages that are modified, with their segments, in the order of the memory. -/
def modifiedPlaces (list : List MemorySegment) : List (MemorySegment × Page) :=
  list.flatMap fun segment =>
    (segment.page.filter fun page => page.modified = true).map fun page => (segment, page)

/-- The frame at this index has the text of the record. -/
def HoldsRecord (memory : MainMemory) (index : Int) (record : Record) : Prop :=
  memory.stringAt index.toNat = convertToTkv record ∧ Legible record.value

/-- A well-formed memory, whose values are not empty and have no `;`. -/
structure ReadableNode (node : MemoryNode) : Prop extends WellFormed node where
  readable : ∀ index ∈ indexesOf node.segmentList, ∃ record, HoldsRecord node.memory index record

section Batch
variable {node : MemoryNode} {index : Int} {record : Record} {place : MemorySegment × Page}

theorem HoldsRecord.values (h : HoldsRecord node.memory index record) :
    mainMemoryValues node.memory index .timestamp = some (printInt record.timestamp.toInt) ∧
      mainMemoryValues node.memory index .key = some (printInt record.key.toNat) ∧
      mainMemoryValues node.memory index .value = some record.value := by
  obtain ⟨htext, hlegible⟩ := h
  have hpieces := stringSplit_of_legible hlegible
  refine ⟨?_, ?_, ?_⟩ <;> simp [mainMemoryValues, htext, hpieces, MemoryVar.position]

theorem HoldsRecord.pageRecord (h : HoldsRecord node.memory index record) :
    Lissandra.pageRecord node.memory index = some record.found := by
  obtain ⟨htimestamp, hkey, hvalue⟩ := h.values
  simp [Lissandra.pageRecord, htimestamp, hkey, hvalue, stringToUint16_printInt, Record.found]

theorem mem_modifiedPlaces {list : List MemorySegment} (h : place ∈ modifiedPlaces list) :
    place.1 ∈ list ∧ place.2 ∈ place.1.page ∧ place.2.modified = true := by
  obtain ⟨segment, hsegment, hplace⟩ := List.mem_flatMap.mp h
  obtain ⟨page, hpage, rfl⟩ := List.mem_map.mp hplace
  obtain ⟨hpage, hmodified⟩ := List.mem_filter.mp hpage
  exact ⟨hsegment, hpage, of_decide_eq_true hmodified⟩

/-- The frames that the journal goes through. -/
theorem map_index_modifiedPlaces (list : List MemorySegment) :
    (getPagesByModified list true).map Page.index
      = (modifiedPlaces list).map fun place => place.2.index := by
  rw [getPagesByModified, modifiedPlaces, List.map_flatMap, List.map_flatMap]
  apply List.flatMap_congr
  intro segment _
  rw [List.map_map]
  rfl

/-- A loop whose steps all come to something. -/
theorem mapM_forall₂ {α β : Type} {f : α → Option β} {r : β → α → Prop} {l : List α}
    (h : ∀ a ∈ l, ∃ b, f a = some b ∧ r b a) :
    ∃ bs, l.mapM f = some bs ∧ List.Forall₂ r bs l := by
  induction l with
  | nil => exact ⟨[], rfl, .nil⟩
  | cons a l ih =>
    obtain ⟨b, hb, hr⟩ := h a List.mem_cons_self
    obtain ⟨bs, hbs, hrest⟩ := ih fun c hmem => h c (List.mem_cons_of_mem _ hmem)
    refine ⟨b :: bs, ?_, .cons hr hrest⟩
    rw [List.mapM_cons, hb, hbs]
    rfl

/-- The entry of the batch for a page: the name of its segment, and the record in its frame. -/
def EntryOf (node : MemoryNode) (entry : Bytes × Record) (place : MemorySegment × Page) : Prop :=
  entry.1 = place.1.name ∧ HoldsRecord node.memory place.2.index entry.2

/-- The batch has one entry for each modified page, in the order of the memory. -/
theorem ReadableNode.journalBatch (h : ReadableNode node) :
    ∃ batch, Lissandra.journalBatch node = some batch ∧
      List.Forall₂ (EntryOf node) batch (modifiedPlaces node.segmentList) := by
  rw [Lissandra.journalBatch, map_index_modifiedPlaces, listAddMultiLists, List.mapM_map]
  apply mapM_forall₂
  intro place hplace
  obtain ⟨hsegment, hpage, -⟩ := mem_modifiedPlaces hplace
  obtain ⟨record, hrecord⟩ := h.readable place.2.index
    (mem_indexesOf.mpr ⟨place.1, hsegment, place.2, hpage, rfl⟩)
  obtain ⟨htimestamp, hkey, hvalue⟩ := hrecord.values
  refine ⟨(place.1.name, record), ?_, rfl, hrecord⟩
  simp only [Function.comp_apply, htimestamp, hkey, hvalue, Option.bind_eq_bind, Option.bind_some,
    getTableNameByIndex_of_mem h.owns.nodup hsegment hpage, strtoll_printInt,
    stringToUint16_printInt]

end Batch

/-! ## The answer to a journal -/

/-- A memory without segments whose frames are all free. -/
structure AllFree (node : MemoryNode) : Prop where
  segmentList : node.segmentList = []
  free : ∀ i < node.memory.totalPageCount, node.memory.page i = null

/-- A memory with nothing but the record of a register: its segment has one page, at the first
frame, where the text is with its NUL, and the other frames are free. -/
structure OnlyRegister (node : MemoryNode) (reg : JournalRegister) : Prop where
  segmentList : node.segmentList = [createSegment reg.tableName ⟨0, reg.modified⟩]
  text : memoryText reg.timestamp reg.key reg.value.bytes ++ [0] <+: node.memory.frame 0
  free : ∀ i < node.memory.totalPageCount, i ≠ 0 → node.memory.page i = null

/-- What the memory is after a journal that succeeded. -/
def Journaled (node : MemoryNode) : Option JournalRegister → Prop
  | none => AllFree node
  | some reg => OnlyRegister node reg

/-- The batch has exactly the pending writes, a success clears the memory and a failure leaves it
as it was. -/
structure JournalsRightly (node : MemoryNode) (register : Option JournalRegister) : Prop where
  batch : ∃ batch, journalBatch node = some batch ∧
    List.Forall₂ (EntryOf node) batch (modifiedPlaces node.segmentList)
  success : ∃ node', journalCallback node (some 0) register = some node' ∧
    SameSizes node node' ∧ Journaled node' register
  failure : ∀ multiinsertResult, multiinsertResult = none ∨ multiinsertResult = some (-1) →
    journalCallback node multiinsertResult register = some node

section Journals
variable {node node' : MemoryNode} {register : Option JournalRegister} {reg : JournalRegister}

theorem WellFormed.allFree (h : WellFormed node) (hempty : node.segmentList = []) :
    AllFree node := by
  refine ⟨hempty, fun i hi => (h.owns.free_iff i hi).mpr ?_⟩
  rw [hempty]
  exact List.not_mem_nil

/-- The first frame of an empty memory is the one that is found. -/
theorem AllFree.memoryInsert (h : AllFree node) (hcount : 0 < node.memory.totalPageCount)
    (timestamp : Int64) (key : Int) (value : Bytes) :
    Lissandra.memoryInsert node.memory timestamp key value
      = (node.memory.strcpy 0 (memoryText timestamp key value), 0) := by
  obtain ⟨count, hcount⟩ := Nat.exists_eq_add_of_lt hcount
  have hfind : findNull node.memory node.memory.totalPageCount 0 = some 0 := by
    rw [hcount, Nat.zero_add, findNull, if_pos (h.free 0 (by omega))]
  rw [Lissandra.memoryInsert, hfind]
  simp

/-- A register whose text fits is all that there is afterwards. -/
theorem WellFormed.onlyRegister (h : WellFormed node) (hempty : node.segmentList = [])
    (hfits : Fits node.memory (memoryText reg.timestamp reg.key reg.value.bytes)) :
    OnlyRegister { node with
      memory := (memoryInsert node.memory reg.timestamp reg.key reg.value.bytes).1
      segmentList := node.segmentList ++ [createSegment reg.tableName
        ⟨(memoryInsert node.memory reg.timestamp reg.key reg.value.bytes).2, reg.modified⟩] }
      reg := by
  obtain ⟨hcount, hlen⟩ := hfits
  have hfree := h.allFree hempty
  have hstrcpy := h.owns.formatted.strcpy hcount hlen
    (nul_not_mem_memoryText reg.timestamp reg.key reg.value.noNul)
  have hprefix := @MainMemory.prefix_frame_strcpy node.memory
    (memoryText reg.timestamp reg.key reg.value.bytes) 0 (by simp) hlen
  rw [hfree.memoryInsert hcount]
  rw [Nat.zero_mul] at hstrcpy hprefix
  refine ⟨by rw [hempty]; rfl, hprefix, fun i hi hne => ?_⟩
  exact (hstrcpy.2 i hi).trans ((if_neg hne).trans (hfree.free i hi))

/-- What is left of a journal that succeeded, and its record. -/
theorem WellFormed.journalCallback_eq (h : WellFormed node) :
    ∃ empty, WellFormed empty ∧ empty.segmentList = [] ∧ SameSizes node empty ∧
      Lissandra.journalCallback node (some 0) none = some empty ∧
      ∀ reg, Lissandra.journalCallback node (some 0) (some reg) = some { empty with
        memory := (memoryInsert empty.memory reg.timestamp reg.key reg.value.bytes).1
        segmentList := empty.segmentList ++ [createSegment reg.tableName
          ⟨(memoryInsert empty.memory reg.timestamp reg.key reg.value.bytes).2,
            reg.modified⟩] } := by
  obtain ⟨empty, hdelete, hwell, hempty, hsizes⟩ := h.deleteAllSegments
  refine ⟨empty, hwell, hempty, hsizes, ?_, fun reg => journalCallback_success_some hdelete reg⟩
  rw [Lissandra.journalCallback, if_pos rfl, hdelete]
  rfl

/-- The record of a register is all that there is afterwards, and not more than a frame of it,
only if its text fits. -/
theorem OnlyRegister.fits (h : OnlyRegister { node with
      memory := (memoryInsert node.memory reg.timestamp reg.key reg.value.bytes).1
      segmentList := node.segmentList ++ [createSegment reg.tableName
        ⟨(memoryInsert node.memory reg.timestamp reg.key reg.value.bytes).2, reg.modified⟩] }
      reg) (hempty : node.segmentList = []) :
    Fits node.memory (memoryText reg.timestamp reg.key reg.value.bytes) := by
  have hindex : (memoryInsert node.memory reg.timestamp reg.key reg.value.bytes).2 = 0 := by
    have hlist := h.segmentList
    simp only [hempty, List.nil_append, createSegment, List.cons.injEq, MemorySegment.mk.injEq,
      Page.mk.injEq, and_true, true_and] at hlist
    exact hlist
  have hlen := MainMemory.lt_of_prefix_frame h.text
  unfold memoryInsert at hindex hlen
  cases hfind : findNull node.memory node.memory.totalPageCount 0 with
  | none =>
    -- without a frame the index is -1
    rw [hfind] at hindex
    cases hindex
  | some i =>
    rw [hfind] at hlen
    obtain ⟨-, hlt, -⟩ := findNull_some hfind
    exact ⟨by omega, hlen⟩

/-- **What a journal does.**  For every memory and every register that its request carries: the
batch has one entry for each modified page and no other, a failure leaves the memory as it was,
and a success leaves nothing but the record of the register, if and only if the text of this
record fits into a frame. -/
theorem journalsRightly_iff (h : ReadableNode node) (register : Option JournalRegister) :
    JournalsRightly node register ↔
      ∀ reg ∈ register, Fits node.memory (memoryText reg.timestamp reg.key reg.value.bytes) := by
  obtain ⟨empty, hwell, hempty, hsizes, hnone, hsome⟩ := h.toWellFormed.journalCallback_eq
  have hfits : ∀ text, Fits empty.memory text ↔ Fits node.memory text := by
    intro text
    rw [Fits, Fits, hsizes.totalPageCount, hsizes.totalPageSize]
  constructor
  · rintro hright reg rfl
    obtain ⟨node', hrun, -, hjournaled⟩ := hright.success
    obtain rfl := Option.some.inj ((hsome reg).symm.trans hrun)
    exact (hfits _).mp (OnlyRegister.fits hjournaled hempty)
  · intro hregister
    refine ⟨h.journalBatch, ?_, fun _ hfails => journalCallback_failure register hfails⟩
    cases register with
    | none => exact ⟨empty, hnone, hsizes, hwell.allFree hempty⟩
    | some reg =>
      have hfirst := (hwell.allFree hempty).memoryInsert
        (hsizes.totalPageCount ▸ (hregister reg rfl).1) reg.timestamp reg.key reg.value.bytes
      refine ⟨_, hsome reg, ⟨hsizes.valueSize, ?_, ?_⟩, ?_⟩
      · show (memoryInsert empty.memory reg.timestamp reg.key reg.value.bytes).1.totalPageSize = _
        rw [hfirst]
        exact hsizes.totalPageSize
      · show (memoryInsert empty.memory reg.timestamp reg.key reg.value.bytes).1.totalPageCount = _
        rw [hfirst]
        exact hsizes.totalPageCount
      · exact hwell.onlyRegister hempty ((hfits _).mpr (hregister reg rfl))

end Journals

/-- The full memory of two pages, which are modified or not. -/
def flaggedNode (first second : Bool) : MemoryNode :=
  { unmodifiedNode with segmentList := [⟨[84], [⟨0, first⟩]⟩, ⟨[85], [⟨23, second⟩]⟩] }

theorem flaggedNode_readable (first second : Bool) : ReadableNode (flaggedNode first second) where
  owns := by cases first <;> cases second <;>
    exact ⟨⟨by decide, by decide, by decide⟩, by decide, by decide, by decide⟩
  named := by cases first <;> cases second <;> exact ⟨by decide, by decide⟩
  nonempty := by cases first <;> cases second <;> decide
  readable := by
    have hindexes : indexesOf (flaggedNode first second).segmentList = [0, 23] := rfl
    rw [hindexes]
    intro index hmem
    rcases List.mem_cons.mp hmem with rfl | hmem
    · exact ⟨⟨1, 1, [97]⟩, by decide +revert, by decide, by decide⟩
    · obtain rfl := List.mem_singleton.mp hmem
      exact ⟨⟨2, 2, [98]⟩, by decide +revert, by decide, by decide⟩

/-- All pages are modified: this is what `replace_algorithm` starts a journal for. -/
def modifiedNode : MemoryNode := flaggedNode true true

theorem modifiedNode_readable : ReadableNode modifiedNode := flaggedNode_readable true true

/-- `INSERT T 3 "c"` waits for the journal. -/
def waitingInsert : JournalRegister := ⟨[84], 3, 3, .ofBytes [99], true⟩

theorem journalsRightly_waiting : JournalsRightly modifiedNode (some waitingInsert) := by
  refine (journalsRightly_iff modifiedNode_readable (some waitingInsert)).mpr fun reg hreg => ?_
  obtain rfl := Option.some.inj hreg
  decide

/-- The answer to a SELECT with the longest timestamp waits for the journal. -/
def waitingSelect : JournalRegister :=
  ⟨[84], 9223372036854775807, 65535, .ofBytes [97, 98], false⟩

/-- It goes on in the second frame, which then is neither free nor in use. -/
theorem journaled_record_overflows :
    (∃ node', journalCallback modifiedNode (some 0) (some waitingSelect) = some node' ∧
      node'.memory.page 1 = [51, 53, 59, 97, 98] ∧ indexesOf node'.segmentList = [0]) ∧
    ¬ JournalsRightly modifiedNode (some waitingSelect) := by
  refine ⟨⟨_, rfl, by decide, rfl⟩, fun hright => ?_⟩
  have hfits := (journalsRightly_iff modifiedNode_readable (some waitingSelect)).mp hright
    waitingSelect rfl
  exact absurd hfits (by decide)

/-! ## A DROP that fails -/

/-- `drop_callback`: what is answered. -/
def dropCallback (result : Option Int32) : Int32 :=
  match result with
  | none => -2
  | some dropStatus => dropStatus

/-- `process_drop` with the answer of the filesystem: the status, and the memory after it. -/
def dropExchange (node : MemoryNode) (input : DropInput) (result : Option Int32) :
    Int32 × MemoryNode :=
  (dropCallback result, memoryDrop node input)

/-- A DROP whose exchange fails is answered with -2 and leaves every INSERT that is not journaled
in a modified page of the table. -/
def DropKeeps (node : MemoryNode) (input : DropInput) : Prop :=
  (dropExchange node input none).1 = -2 ∧
    ∀ record, InModifiedPage node (toUppercase input.tableName.bytes) record →
      InModifiedPage (dropExchange node input none).2 (toUppercase input.tableName.bytes) record

section Drop
variable {node : MemoryNode} {segment : MemorySegment} {page : Page} {tableName : Bytes}

/-- The segment of the table is gone after a DROP. -/
theorem WellFormed.not_mem_memoryDrop (h : WellFormed node) (input : DropInput) :
    toUppercase input.tableName.bytes ∉
      (Lissandra.memoryDrop node input).segmentList.map MemorySegment.name := by
  rw [Lissandra.memoryDrop]
  cases hsegment : getSegmentByName node.segmentList (toUppercase input.tableName.bytes) with
  | none => exact getSegmentByName_eq_none_iff.mp hsegment
  | some segment =>
    obtain ⟨before, after, hsplit, -, hname, -, herase⟩ := updateFirst_of_find? id hsegment
    have hname : segment.name = toUppercase input.tableName.bytes := of_decide_eq_true hname
    intro hmem
    obtain ⟨other, hother, heq⟩ := List.mem_map.mp hmem
    have hlist : (Lissandra.removeSegment node segment).segmentList = before ++ after := by
      rw [← herase, ← hname]
      rfl
    exact (hsplit ▸ h.named).split (hlist ▸ hother) (heq.trans hname.symm)

/-- A modified page holds a record. -/
theorem ReadableNode.inModifiedPage (h : ReadableNode node) (hsegment : segment ∈ node.segmentList)
    (hname : segment.name = tableName) (hpage : page ∈ segment.page)
    (hmodified : page.modified = true) : ∃ record, InModifiedPage node tableName record := by
  obtain ⟨record, hrecord⟩ := h.readable page.index
    (mem_indexesOf.mpr ⟨segment, hsegment, page, hpage, rfl⟩)
  exact ⟨record, segment, hsegment, hname, page, hpage, hmodified, hrecord.pageRecord⟩

/-- **When a failed DROP keeps the data.**  For every memory and table: all INSERTs that are not
journaled stay in memory if and only if the table has no modified page. -/
theorem dropKeeps_iff (h : ReadableNode node) (input : DropInput) :
    DropKeeps node input ↔
      ∀ segment ∈ node.segmentList, segment.name = toUppercase input.tableName.bytes →
        ∀ page ∈ segment.page, page.modified = false := by
  constructor
  · rintro ⟨-, hkeeps⟩ segment hsegment hname page hpage
    by_contra hmodified
    obtain ⟨record, hrecord⟩ := h.inModifiedPage hsegment hname hpage
      (Bool.eq_true_of_not_eq_false hmodified)
    obtain ⟨left, hleft, hleftName, -⟩ := hkeeps record hrecord
    apply h.toWellFormed.not_mem_memoryDrop input
    rw [← hleftName]
    exact List.mem_map_of_mem hleft
  · intro hclean
    refine ⟨rfl, fun record => ?_⟩
    rintro ⟨segment, hsegment, hname, page, hpage, hmodified, -⟩
    rw [hclean segment hsegment hname page hpage] at hmodified
    cases hmodified

end Drop

/-- An INSERT into `T` is not journaled, and `U` has been read. -/
def insertedNode : MemoryNode := flaggedNode true false

/-- `DROP U`. -/
theorem dropKeeps_unmodified : DropKeeps insertedNode ⟨.ofBytes [117]⟩ :=
  (dropKeeps_iff (flaggedNode_readable true false) ⟨.ofBytes [117]⟩).mpr (by decide)

/-- The INSERT is nowhere any more, although the table still exists. -/
theorem failed_drop_loses :
    InModifiedPage insertedNode [84] ⟨1, 1, [97]⟩ ∧
      (dropExchange insertedNode ⟨.ofBytes [116]⟩ none).1 = -2 ∧
      ¬ InModifiedPage (dropExchange insertedNode ⟨.ofBytes [116]⟩ none).2 [84] ⟨1, 1, [97]⟩ := by
  refine ⟨⟨⟨[84], [⟨0, true⟩]⟩, by decide, rfl, ⟨0, true⟩, by decide, rfl, by decide⟩, rfl, ?_⟩
  rintro ⟨segment, hsegment, hname, -⟩
  have hlist : (dropExchange insertedNode ⟨.ofBytes [116]⟩ none).2.segmentList
      = [⟨[85], [⟨23, false⟩]⟩] := by decide
  rw [hlist, List.mem_singleton] at hsegment
  subst hsegment
  cases hname

end Lissandra
