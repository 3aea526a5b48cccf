import Lissandra.PageTable

/-! # Which page makes room

When the memory is full `replace_algorithm` sorts the pages that are not modified by the
timestamps in their texts, frees the first one and lets `memory_insert` look for a free frame
from the start of the memory.  That this is the frame just freed follows from the memory
being full before.  The record is then in this frame if its text fits there, and only then
(`replacesRightly_iff`): a longer one goes on in the frame behind.
-/
namespace Lissandra

/-! ## Frames as bytes -/

namespace MainMemory
variable {memory : MainMemory} {text : Bytes} {i j : Nat}

/-- The bytes of the `i`th page. -/
def frame (memory : MainMemory) (i : Nat) : Bytes :=
  (memory.bytes.drop (i * memory.totalPageSize)).take memory.totalPageSize

theorem getElem?_strcpy_of_lt {index position : Nat} (hindex : index ≤ memory.bytes.length)
    (h : position < index) : (memory.strcpy index text).bytes[position]? =
    memory.bytes[position]? := by
  have hlen : (memory.bytes.take index).length = index := List.length_take_of_le hindex
  unfold strcpy
  dsimp only
  rw [List.append_assoc, List.getElem?_append_left (by omega), List.getElem?_take_of_lt h]

theorem getElem?_strcpy_of_ge {index position : Nat} (hindex : index ≤ memory.bytes.length)
    (h : index + text.length + 1 ≤ position) :
    (memory.strcpy index text).bytes[position]? = memory.bytes[position]? := by
  obtain ⟨rest, rfl⟩ := Nat.exists_eq_add_of_le h
  have hlen : (memory.bytes.take index ++ text ++ [0]).length = index + text.length + 1 := by
    rw [List.length_append, List.length_append, List.length_take_of_le hindex]
    rfl
  unfold strcpy
  dsimp only
  rw [List.append_cons, List.getElem?_append_right (by omega), hlen, List.getElem?_drop]
  congr 1
  omega

/-- A text that fits into its frame changes no other one. -/
theorem frame_strcpy_of_ne (hend : i * memory.totalPageSize ≤ memory.bytes.length)
    (hlen : text.length < memory.totalPageSize) (hne : j ≠ i) :
    (memory.strcpy (i * memory.totalPageSize) text).frame j = memory.frame j := by
  refine List.ext_getElem? fun offset => ?_
  unfold frame
  rw [strcpy_totalPageSize, List.getElem?_take, List.getElem?_take]
  split
  · rename_i hoffset
    rw [List.getElem?_drop, List.getElem?_drop]
    rcases Nat.lt_or_gt_of_ne hne with hlt | hgt
    · have hbefore : j * memory.totalPageSize + memory.totalPageSize ≤ i * memory.totalPageSize :=
        pageEnd_le_of_lt hlt
      exact getElem?_strcpy_of_lt hend (by omega)
    · have hbehind : i * memory.totalPageSize + memory.totalPageSize ≤ j * memory.totalPageSize :=
        pageEnd_le_of_lt hgt
      exact getElem?_strcpy_of_ge hend (by omega)
  · rfl

/-- A text that fits is in its frame, with its NUL. -/
theorem prefix_frame_strcpy (hend : i * memory.totalPageSize ≤ memory.bytes.length)
    (hlen : text.length < memory.totalPageSize) :
    text ++ [0] <+: (memory.strcpy (i * memory.totalPageSize) text).frame i := by
  have hstart : (memory.bytes.take (i * memory.totalPageSize)).length = i * memory.totalPageSize :=
    List.length_take_of_le hend
  unfold frame strcpy
  dsimp only
  rw [List.append_assoc, List.drop_left' hstart, List.prefix_take_iff]
  refine ⟨⟨_, (List.append_cons _ _ _).symm⟩, ?_⟩
  rw [List.length_append]
  exact hlen

/-- Only a text that fits can be in a frame with its NUL. -/
theorem lt_of_prefix_frame (h : text ++ [0] <+: memory.frame i) :
    text.length < memory.totalPageSize := by
  have hlen := h.length_le
  unfold frame at hlen
  rw [List.length_append, List.length_singleton] at hlen
  exact hlen.trans (List.length_take_le _ _)

end MainMemory

/-- The only free frame is the one that is found. -/
theorem findNull_eq_of_forall {memory : MainMemory} {i : Nat} (hi : i < memory.totalPageCount)
    (hnull : memory.page i = null)
    (hothers : ∀ j < memory.totalPageCount, j ≠ i → memory.page j ≠ null) :
    findNull memory memory.totalPageCount 0 = some i := by
  cases hfind : findNull memory memory.totalPageCount 0 with
  | none => exact absurd hnull (findNull_none hfind (Nat.zero_le i) (by omega))
  | some j =>
    obtain ⟨-, hlt, hj⟩ := findNull_some hfind
    by_cases hne : j = i
    · rw [hne]
    · exact absurd hj (hothers j (by omega) hne)

/-! ## The timestamps of pages -/

/-- The string at this index is the text of a record with this timestamp. -/
def HoldsTimestamp (memory : MainMemory) (index : Int) (timestamp : Int64) : Prop :=
  ∃ (key : Int) (value : Bytes), memory.stringAt index.toNat = memoryText timestamp key value

/-- A well-formed node whose pages hold records. -/
structure Recorded (node : MemoryNode) : Prop extends WellFormed node where
  records : ∀ index ∈ indexesOf node.segmentList, ∃ timestamp,
    HoldsTimestamp node.memory index timestamp

section Timestamps
variable {memory : MainMemory} {indexes rest : List Int} {index replace : Int} {timestamp : Int64}

/-- What `order_by_timestamp` compares. -/
def recordTimestamp (memory : MainMemory) (index : Int) : Int64 :=
  strtoll ((mainMemoryValues memory index .timestamp).getD [])

theorem HoldsTimestamp.recordTimestamp (h : HoldsTimestamp memory index timestamp) :
    recordTimestamp memory index = timestamp := by
  obtain ⟨key, value, htext⟩ := h
  have hsemicolon : semicolon ∉ printInt timestamp.toInt := not_mem_printInt (by decide)
  have hvalues : mainMemoryValues memory index .timestamp = some (printInt timestamp.toInt) := by
    unfold mainMemoryValues stringSplit
    rw [htext]
    unfold memoryText
    dsimp only
    rw [List.append_assoc, List.append_assoc, List.append_assoc, List.singleton_append,
      List.splitOn_append_cons_self_of_not_mem hsemicolon,
      List.filter_cons_of_pos (by simpa using printInt_ne_nil _)]
    rfl
  unfold Lissandra.recordTimestamp
  rw [hvalues]
  exact strtoll_printInt timestamp

theorem orderByTimestamp_eq_false {first second : Int} :
    orderByTimestamp memory second first = false ↔
      recordTimestamp memory first ≤ recordTimestamp memory second := by
  unfold orderByTimestamp
  rw [decide_eq_false_iff_not, Int64.not_lt]
  rfl

/-- The first of the sorted indexes is the oldest. -/
theorem sortedIndexes_head (h : sortedIndexes memory indexes = replace :: rest)
    (hmem : index ∈ indexes) : recordTimestamp memory replace ≤ recordTimestamp memory index := by
  -- `order_by_timestamp` is strict: a page stands before another one unless that one is older
  let older (first second : Int) : Prop := orderByTimestamp memory second first = false
  have htotal : Std.Total older :=
    ⟨fun first second => by
      show orderByTimestamp memory second first = false ∨
        orderByTimestamp memory first second = false
      rw [orderByTimestamp_eq_false, orderByTimestamp_eq_false]
      exact Int64.le_total _ _⟩
  have htrans : IsTrans Int older :=
    ⟨fun first second third => by
      show orderByTimestamp memory second first = false →
        orderByTimestamp memory third second = false → orderByTimestamp memory third first = false
      rw [orderByTimestamp_eq_false, orderByTimestamp_eq_false, orderByTimestamp_eq_false]
      exact Int64.le_trans⟩
  have hsorted : (sortedIndexes memory indexes).Pairwise older :=
    List.pairwise_insertionSort older indexes
  have hperm : (sortedIndexes memory indexes).Perm indexes := List.perm_insertionSort older indexes
  have hindex : index ∈ sortedIndexes memory indexes := hperm.mem_iff.mpr hmem
  rw [h] at hsorted hindex
  rcases List.mem_cons.mp hindex with rfl | hrest
  · exact Int64.le_refl _
  · exact orderByTimestamp_eq_false.mp (List.rel_of_pairwise_cons hsorted hrest)

end Timestamps

/-! ## The page that is replaced -/

/-- `journal_invocation_t`. -/
inductive JournalInvocation where
  | select
  | insert
  deriving DecidableEq

/-- The `modified` of the page, or of the register, that `replace_algorithm` makes. -/
def JournalInvocation.modified : JournalInvocation → Bool
  | .select => false
  | .insert => true

/-- How `replace_algorithm` ends: it returns a page, or `NULL` after it asked for a journal. -/
inductive ReplaceEnd where
  | page (node : MemoryNode) (foundPage : Page)
  | journaling (node : MemoryNode) (reg : JournalRegister)
  deriving DecidableEq

/-- `replace_algorithm` with what it makes of the index. -/
def replaceAlgorithmPage (node : MemoryNode) (timestamp : Int64) (key : Int) (value : CString)
    (invocation : JournalInvocation) (tableName : Bytes) : Option ReplaceEnd :=
  (replaceAlgorithm node timestamp key value.bytes tableName).map fun
    | .replaced node index => .page node ⟨index, invocation.modified⟩
    | .journaling => .journaling node ⟨tableName, timestamp, key, value, invocation.modified⟩

/-- What `process_insert` and `select_callback` do with it. -/
def ReplaceEnd.sectionEnd (tableName : Bytes) (fresh : Bool) : ReplaceEnd → SectionEnd
  | .page node foundPage => .listing node ⟨tableName, fresh, foundPage⟩
  | .journaling _ reg => .journaling reg

/-- A page of a node, with the frame that it owns and all that is around it. -/
structure PagePlace (node : MemoryNode) where
  before : List MemorySegment
  found : MemorySegment
  after : List MemorySegment
  pages : List Page
  page : Page
  others : List Page
  frame : Nat
  segmentList_eq : node.segmentList = before ++ found :: after
  page_eq : found.page = pages ++ page :: others
  frame_lt : frame < node.memory.totalPageCount
  index_eq : page.index = (frame * node.memory.totalPageSize : Nat)

/-- The segments without the page: its own segment stays if it has other pages or is the one
of the table. -/
def PagePlace.left {node : MemoryNode} (victim : PagePlace node)
    (tableName : Bytes) : List MemorySegment :=
  if victim.pages ++ victim.others = [] ∧ victim.found.name ≠ toUppercase tableName then
    victim.before ++ victim.after
  else
    victim.before ++ { victim.found with page := victim.pages ++ victim.others } :: victim.after

/-- The record is stored in the place of the victim, and nothing else is changed. -/
structure EvictsOne (node : MemoryNode) (timestamp : Int64) (key : Int) (value : CString)
    (invocation : JournalInvocation) (tableName : Bytes) (victim : PagePlace node)
    (node' : MemoryNode) (foundPage : Page) : Prop where
  unmodified : victim.page.modified = false
  oldest : ∃ oldest, HoldsTimestamp node.memory victim.page.index oldest ∧
    ∀ page ∈ getPagesByModified node.segmentList false, ∀ timestamp,
      HoldsTimestamp node.memory page.index timestamp → oldest ≤ timestamp
  left : node'.segmentList = victim.left tableName
  stored : memoryText timestamp key value.bytes ++ [0] <+: node'.memory.frame victim.frame
  kept : ∀ j < node.memory.totalPageCount, j ≠ victim.frame →
    node'.memory.frame j = node.memory.frame j
  sizes : SameSizes node node'
  foundPage_eq : foundPage = ⟨victim.page.index, invocation.modified⟩

/-- One right page is evicted if there is an unmodified one, and none otherwise. -/
structure ReplacesRightly (node : MemoryNode) (timestamp : Int64) (key : Int) (value : CString)
    (invocation : JournalInvocation) (tableName : Bytes) : Prop where
  evicts : getPagesByModified node.segmentList false ≠ [] → ∃ victim node' foundPage,
    replaceAlgorithmPage node timestamp key value invocation tableName =
    some (.page node' foundPage) ∧
      EvictsOne node timestamp key value invocation tableName victim node' foundPage
  journals : getPagesByModified node.segmentList false = [] →
    replaceAlgorithmPage node timestamp key value invocation tableName =
      some (.journaling node ⟨tableName, timestamp, key, value, invocation.modified⟩)

section Replacement
variable {node : MemoryNode} {timestamp : Int64} {key : Int} {value : CString}
  {invocation : JournalInvocation} {tableName : Bytes} {index : Int}

/-- The calls of `replace_algorithm`, in a full memory. -/
theorem writePage_full (hfull : memoryFull node.memory = true) (postsFirst : Bool → Bool) :
    writePage node timestamp key value invocation.modified tableName postsFirst =
      (replaceAlgorithmPage node timestamp key value invocation tableName).map
        (ReplaceEnd.sectionEnd tableName (getSegmentByName node.segmentList tableName).isNone) := by
  unfold writePage replaceAlgorithmPage
  dsimp only
  rw [if_pos hfull, Option.map_map]
  cases replaceAlgorithm node timestamp key value.bytes tableName with
  | none => rfl
  | some replacement =>
    cases replacement with
    | replaced node' index => rfl
    | journaling => rfl

/-- The name of the table is compared without regard to case. -/
theorem eliminatePageInstanceByIndex_toUppercase :
    eliminatePageInstanceByIndex node index (toUppercase tableName) =
      eliminatePageInstanceByIndex node index tableName := by
  unfold eliminatePageInstanceByIndex
  rw [toUppercase_toUppercase]

theorem mem_pages_of_getPagesByModified {list : List MemorySegment} {modified : Bool} {page : Page}
    (h : page ∈ getPagesByModified list modified) : page ∈ list.flatMap MemorySegment.page := by
  obtain ⟨segment, hsegment, hpage⟩ := List.mem_flatMap.mp h
  exact List.mem_flatMap.mpr ⟨segment, hsegment, (List.mem_filter.mp hpage).1⟩

theorem PagePlace.mem (place : PagePlace node) :
    place.page ∈ node.segmentList.flatMap MemorySegment.page := by
  refine List.mem_flatMap.mpr ⟨place.found, ?_, ?_⟩
  · rw [place.segmentList_eq]
    exact List.mem_append_cons_self
  · rw [place.page_eq]
    exact List.mem_append_cons_self

/-- No two pages have one index. -/
theorem WellFormed.page_ext (h : WellFormed node) {first second : Page}
    (hfirst : first ∈ node.segmentList.flatMap MemorySegment.page)
    (hsecond : second ∈ node.segmentList.flatMap MemorySegment.page)
    (heq : first.index = second.index) :
    first = second :=
  List.inj_on_of_nodup_map h.owns.nodup hfirst hsecond heq

/-- Evicting a page of the node. -/
theorem WellFormed.eliminate_place (h : WellFormed node) {page : Page}
    (hpage : page ∈ getPagesByModified node.segmentList false) :
    ∃ victim : PagePlace node, victim.page.index = page.index ∧ victim.page.modified = false ∧
      eliminatePageInstanceByIndex node page.index tableName =
        some { node with
          memory := node.memory.strcpy (victim.frame * node.memory.totalPageSize) null
          segmentList := victim.left tableName } := by
  obtain ⟨hindex, hmodified⟩ := mem_indexesOf_getPagesByModified hpage
  obtain ⟨i, hi, hframe⟩ := h.owns.aligned page.index hindex
  obtain ⟨before, found, after, pages, victim, others, list, hsplit, hpages, hvictim, hrun,
    hlist⟩ := h.eliminate_cases hindex (toUppercase_toUppercase tableName)
  let place : PagePlace node :=
    ⟨before, found, after, pages, victim, others, i, hsplit, hpages, hi, hvictim.trans hframe⟩
  have hleft : list = place.left tableName := by
    unfold PagePlace.left
    rcases hlist with ⟨rfl, hkept⟩ | ⟨rfl, hnil, hne⟩
    · rw [if_neg fun hgone => hgone.2 (hkept hgone.1)]
    · rw [if_pos ⟨hnil, hne⟩]
  refine ⟨place, hvictim, ?_, ?_⟩
  · -- what is found by its index is the page itself
    have hsame : place.page = page :=
      h.page_ext place.mem (mem_pages_of_getPagesByModified hpage) hvictim
    rw [hsame]
    exact hmodified
  · rw [← eliminatePageInstanceByIndex_toUppercase, hrun, hframe, Int.toNat_natCast, hleft]

/-- After the eviction from a full memory the record goes to the frame that was freed. -/
theorem WellFormed.memoryInsert_freed (h : WellFormed node) (hfull : memoryFull node.memory = true)
    {i : Nat} (hi : i < node.memory.totalPageCount) :
    memoryInsert (node.memory.strcpy (i * node.memory.totalPageSize) null) timestamp key
      value.bytes = ((node.memory.strcpy (i * node.memory.totalPageSize) null).strcpy
        (i * node.memory.totalPageSize)
          (memoryText timestamp key value.bytes),
          ((i * node.memory.totalPageSize : Nat) : Int)) := by
  have hformatted := h.owns.formatted
  obtain ⟨-, hpage⟩ := hformatted.strcpy hi hformatted.room nul_not_mem_null
  -- the memory was full, so no frame but the one just freed says `null`
  have hused : ∀ j < node.memory.totalPageCount, node.memory.page j ≠ null := by
    intro j hj hnull
    have hfree : memoryFull node.memory = false := memoryFull_iff.mpr ⟨j, hj, hnull⟩
    rw [hfull] at hfree
    cases hfree
  have hfind := @findNull_eq_of_forall
    (node.memory.strcpy (i * node.memory.totalPageSize) null) i hi (by rw [hpage i hi, if_pos rfl])
    (fun j hj hne => by
      rw [hpage j hj, if_neg hne]
      exact hused j hj)
  unfold memoryInsert
  rw [hfind]
  rfl

/-- What `replace_algorithm` does where it finds a page. -/
theorem WellFormed.replaceAlgorithmPage (h : WellFormed node)
    (hfull : memoryFull node.memory = true)
    (hsome : getPagesByModified node.segmentList false ≠ []) :
    ∃ victim : PagePlace node, victim.page.modified = false ∧
      (∀ page ∈ getPagesByModified node.segmentList false,
        recordTimestamp node.memory victim.page.index ≤ recordTimestamp node.memory page.index) ∧
      Lissandra.replaceAlgorithmPage node timestamp key value invocation tableName =
        some (.page
          { node with
            memory := (node.memory.strcpy (victim.frame * node.memory.totalPageSize) null).strcpy
              (victim.frame * node.memory.totalPageSize) (memoryText timestamp key value.bytes)
            segmentList := victim.left tableName }
          ⟨victim.page.index, invocation.modified⟩) := by
  unfold Lissandra.replaceAlgorithmPage replaceAlgorithm
  cases hsorted : sortedIndexes node.memory
    ((getPagesByModified node.segmentList false).map Page.index) with
  | nil =>
    -- sorting loses no page
    have hlength : (sortedIndexes node.memory
      ((getPagesByModified node.segmentList false).map Page.index)).length =
        ((getPagesByModified node.segmentList false).map Page.index).length :=
        List.length_insertionSort _ _
    rw [hsorted, List.length_map] at hlength
    exact absurd (List.length_eq_zero_iff.mp hlength.symm) hsome
  | cons replace rest =>
    obtain ⟨page, hpage, rfl⟩ := List.mem_map.mp (mem_of_sortedIndexes hsorted)
    obtain ⟨victim, hindex, hmodified, hrun⟩ :=
      @WellFormed.eliminate_place node tableName h page hpage
    refine ⟨victim, hmodified, fun other hother => ?_, ?_⟩
    · rw [hindex]
      exact sortedIndexes_head hsorted (List.mem_map_of_mem hother)
    · dsimp only
      rw [hrun, Option.bind_eq_bind, Option.bind_some]
      dsimp only
      rw [h.memoryInsert_freed hfull victim.frame_lt, victim.index_eq]
      rfl

/-- Nothing is evicted where every page is modified. -/
theorem replaceAlgorithmPage_modified (hnone : getPagesByModified node.segmentList false = []) :
    replaceAlgorithmPage node timestamp key value invocation tableName =
      some (.journaling node ⟨tableName, timestamp, key, value, invocation.modified⟩) := by
  unfold replaceAlgorithmPage replaceAlgorithm
  rw [hnone]
  rfl

/-- A record that is stored in one frame fits there. -/
theorem ReplacesRightly.length_lt
    (h : ReplacesRightly node timestamp key value invocation tableName)
    (hsome : getPagesByModified node.segmentList false ≠ []) :
    (memoryText timestamp key value.bytes).length < node.memory.totalPageSize := by
  obtain ⟨victim, node', foundPage, -, hevicts⟩ := h.evicts hsome
  rw [← hevicts.sizes.totalPageSize]
  exact MainMemory.lt_of_prefix_frame hevicts.stored

end Replacement

/-- **When the replacement is right.**  In a full memory `replace_algorithm` frees one page, the
oldest of the unmodified ones, and stores the record in its place without touching anything else,
exactly if the text of the record fits into a page; where every page is modified it evicts
nothing. -/
theorem replacesRightly_iff {node : MemoryNode} (h : Recorded node)
    (hfull : memoryFull node.memory = true) (timestamp : Int64) (key : Int) (value : CString)
    (invocation : JournalInvocation) (tableName : Bytes) :
    ReplacesRightly node timestamp key value invocation tableName ↔
      (getPagesByModified node.segmentList false ≠ [] →
        (memoryText timestamp key value.bytes).length < node.memory.totalPageSize) := by
  refine ⟨ReplacesRightly.length_lt, fun hfits => ⟨fun hsome => ?_, replaceAlgorithmPage_modified⟩⟩
  obtain ⟨victim, hmodified, holdest, hrun⟩ := h.toWellFormed.replaceAlgorithmPage hfull hsome
  obtain ⟨oldest, hholds⟩ := h.records victim.page.index
    (mem_indexesOf.mpr
      ⟨victim.found, by simp [victim.segmentList_eq], victim.page, by simp [victim.page_eq], rfl⟩)
  have hformatted := h.owns.formatted
  have hlen := hfits hsome
  have hend := hformatted.pageEnd_le victim.frame_lt
  have hroom := hformatted.room
  -- the record is written after `null` is, in the same frame
  have hend' : victim.frame * node.memory.totalPageSize ≤
      (node.memory.strcpy (victim.frame * node.memory.totalPageSize) null).bytes.length := by
    rw [MainMemory.length_strcpy (by omega)]
    omega
  refine ⟨victim, _, _, hrun, hmodified, ⟨oldest, hholds, fun page hpage other hother => ?_⟩,
    rfl, ?_, ?_, ?_, rfl⟩
  · rw [← hholds.recordTimestamp, ← hother.recordTimestamp]
    exact holdest page hpage
  · exact MainMemory.prefix_frame_strcpy hend' hlen
  · intro j hj hne
    show ((node.memory.strcpy (victim.frame * node.memory.totalPageSize) null).strcpy
      _ _).frame j = _
    rw [← @MainMemory.frame_strcpy_of_ne node.memory null victim.frame j (by omega) hroom hne]
    exact MainMemory.frame_strcpy_of_ne hend' hlen hne
  · exact ⟨rfl, rfl, rfl⟩

/-! ## A full memory -/

/-- Two pages of 23 bytes with the records of two tables. -/
def unmodifiedNode : MemoryNode where
  memory := ((initMainMemory (List.replicate 46 0) 23 2).strcpy 0 (memoryText 1 1 [97])).strcpy 23
    (memoryText 2 2 [98])
  segmentList := [⟨[84], [⟨0, false⟩]⟩, ⟨[85], [⟨23, false⟩]⟩]
  valueSize := 2

theorem unmodifiedNode_recorded : Recorded unmodifiedNode where
  owns := ⟨⟨by decide, by decide, by decide⟩, by decide, by decide, by decide⟩
  named := ⟨by decide, by decide⟩
  nonempty := by decide
  records := by
    have hindexes : indexesOf unmodifiedNode.segmentList = [0, 23] := rfl
    rw [hindexes]
    rintro index (_ | ⟨_, _ | ⟨_, hmem⟩⟩)
    · exact ⟨1, 1, [97], by decide⟩
    · exact ⟨2, 2, [98], by decide⟩
    · exact absurd hmem List.not_mem_nil

/-- `INSERT T 3 "c"` takes the place of the oldest page. -/
theorem replacesRightly_third :
    ReplacesRightly unmodifiedNode 3 3 (.ofBytes [99]) .insert [84] ↔
      (getPagesByModified unmodifiedNode.segmentList false ≠ [] →
        (memoryText 3 3 (CString.ofBytes [99]).bytes).length <
        unmodifiedNode.memory.totalPageSize) :=
  replacesRightly_iff unmodifiedNode_recorded (by decide) 3 3 (.ofBytes [99]) .insert [84]

/-- The answer to a SELECT with the longest timestamp goes on in the page behind. -/
theorem replaced_page_overflows :
    (∃ node' foundPage,
      replaceAlgorithmPage unmodifiedNode 9223372036854775807 65535 (.ofBytes [97, 98]) .select
      [84] =
        some (.page node' foundPage) ∧
      unmodifiedNode.memory.page 1 = memoryText 2 2 [98] ∧
      node'.memory.page 1 = [51, 53, 59, 97, 98]) ∧
    ¬ ∀ (node : MemoryNode) (timestamp : Int64) (key : Int) (value : CString)
      (invocation : JournalInvocation) (tableName : Bytes), Recorded node →
      memoryFull node.memory = true →
        ReplacesRightly node timestamp key value invocation tableName := by
  refine ⟨⟨_, _, rfl, by decide, by decide⟩, fun hclaim => ?_⟩
  have hright := hclaim unmodifiedNode 9223372036854775807 65535 (.ofBytes [97, 98]) .select [84]
    unmodifiedNode_recorded (by decide)
  exact absurd (hright.length_lt (by decide)) (by decide)

end Lissandra
