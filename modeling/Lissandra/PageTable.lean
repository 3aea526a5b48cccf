import Lissandra.MemoryNode
import Lissandra.Runs

/-! # Which page owns which frame

A memory node keeps the same fact twice: the segments say which frames are in use, and so
does the text `null` in the frames that are not.  `Owns` is the agreement of the two over
a list of indexes, whatever segments these belong to; writing a free frame adds an index
to it, freeing one takes an index away.  A node is `WellFormed` when its segments own their
frames and each has a page and a name of its own.

Every operation executed alone leaves a well-formed node behind (`WellFormed.step`), the
eviction that empties another segment and the journal that starts the memory anew
included.
-/
namespace Lissandra

/-! ## Frames -/

/-- The frames with these indexes are in use, and no others. -/
structure Owns (memory : MainMemory) (indexes : List Int) : Prop where
  formatted : memory.Formatted
  aligned : ∀ index ∈ indexes, ∃ i < memory.totalPageCount, index = (i * memory.totalPageSize : Nat)
  nodup : indexes.Nodup
  free_iff : ∀ i < memory.totalPageCount,
    memory.page i = null ↔ ((i * memory.totalPageSize : Nat) : Int) ∉ indexes

section Frames
variable {memory : MainMemory} {indexes : List Int} {index : Int} {i : Nat} {text : Bytes}

theorem Owns.perm {other : List Int} (h : Owns memory indexes) (hperm : indexes.Perm other) :
    Owns memory other where
  formatted := h.formatted
  aligned index hmem := h.aligned index (hperm.mem_iff.mpr hmem)
  nodup := hperm.nodup_iff.mp h.nodup
  free_iff i hi := by rw [h.free_iff i hi, hperm.mem_iff]

theorem Owns.index_injective (h : Owns memory indexes) {i j : Nat}
    (heq : ((i * memory.totalPageSize : Nat) : Int) = (j * memory.totalPageSize : Nat)) : i = j :=
  Nat.eq_of_mul_eq_mul_right (Nat.zero_lt_of_lt h.formatted.room) (Int.ofNat_inj.mp heq)

/-- A text over a free frame. -/
theorem Owns.insert (h : Owns memory indexes) (hi : i < memory.totalPageCount)
    (hfree : memory.page i = null) (hlen : text.length < memory.totalPageSize) (hnul : 0 ∉ text)
    (hnull : text ≠ null) :
    Owns (memory.strcpy (i * memory.totalPageSize) text)
      ((i * memory.totalPageSize : Nat) :: indexes) := by
  obtain ⟨hformatted, hpage⟩ := h.formatted.strcpy hi hlen hnul
  refine ⟨hformatted, ?_, List.nodup_cons.mpr ⟨(h.free_iff i hi).mp hfree, h.nodup⟩, fun j hj => ?_⟩
  · rintro index (_ | ⟨_, hmem⟩)
    · exact ⟨i, hi, rfl⟩
    · exact h.aligned index hmem
  · rw [hpage j hj, List.mem_cons, MainMemory.strcpy_totalPageSize]
    split
    · rename_i hji
      simp [hji, hnull]
    · rename_i hji
      have hne : ((j * memory.totalPageSize : Nat) : Int) ≠ (i * memory.totalPageSize : Nat) :=
        fun heq => hji (h.index_injective heq)
      rw [h.free_iff j hj, not_or, iff_and_self]
      exact fun _ => hne

/-- Another text over a frame in use. -/
theorem Owns.modify (h : Owns memory indexes) (hmem : index ∈ indexes)
    (hlen : text.length < memory.totalPageSize) (hnul : 0 ∉ text) (hnull : text ≠ null) :
    Owns (memory.strcpy index.toNat text) indexes := by
  obtain ⟨i, hi, rfl⟩ := h.aligned index hmem
  rw [Int.toNat_natCast]
  obtain ⟨hformatted, hpage⟩ := h.formatted.strcpy hi hlen hnul
  refine ⟨hformatted, h.aligned, h.nodup, fun j hj => ?_⟩
  rw [hpage j hj]
  split
  · rename_i hji
    exact iff_of_false hnull (not_not_intro (hji ▸ hmem))
  · exact h.free_iff j hj

/-- `null` over a frame in use. -/
theorem Owns.release (h : Owns memory (index :: indexes)) :
    Owns (memory.strcpy index.toNat null) indexes := by
  obtain ⟨i, hi, rfl⟩ := h.aligned index List.mem_cons_self
  obtain ⟨hnot, hnodup⟩ := List.nodup_cons.mp h.nodup
  rw [Int.toNat_natCast]
  obtain ⟨hformatted, hpage⟩ := h.formatted.strcpy hi h.formatted.room nul_not_mem_null
  refine ⟨hformatted, fun index hmem => h.aligned index (List.mem_cons_of_mem _ hmem), hnodup,
    fun j hj => ?_⟩
  rw [hpage j hj]
  split
  · rename_i hji
    simp only [hji, MainMemory.strcpy_totalPageSize, hnot, not_false_eq_true]
  · rename_i hji
    have hne : ((j * memory.totalPageSize : Nat) : Int) ≠ (i * memory.totalPageSize : Nat) :=
      fun heq => hji (h.index_injective heq)
    rw [h.free_iff j hj, List.mem_cons, not_or, MainMemory.strcpy_totalPageSize]
    exact and_iff_right hne

/-- Several frames are freed. -/
theorem Owns.releaseAll {pages : List Page} (h : Owns memory (pages.map Page.index ++ indexes)) :
    Owns (pages.foldl (fun memory page => memory.strcpy page.index.toNat null) memory) indexes := by
  induction pages generalizing memory with
  | nil => exact h
  | cons page pages ih => exact ih h.release

theorem memoryFull_iff :
    memoryFull memory = false ↔ ∃ i < memory.totalPageCount, memory.page i = null := by
  rw [memoryFull]
  cases hfind : findNull memory memory.totalPageCount 0 with
  | none =>
    simp only [Option.isNone_none, Bool.true_eq_false, false_iff]
    rintro ⟨i, hi, hnull⟩
    exact findNull_none hfind (Nat.zero_le i) (by omega) hnull
  | some i =>
    obtain ⟨-, hlt, hnull⟩ := findNull_some hfind
    simp only [Option.isNone_some, true_iff]
    exact ⟨i, by omega, hnull⟩

/-- `memory_insert` while a frame is free. -/
theorem Owns.memoryInsert (h : Owns memory indexes) (hfull : memoryFull memory = false)
    {timestamp : Int64} {key : Int} {value : Bytes} (hnul : 0 ∉ value)
    (hlen : (memoryText timestamp key value).length < memory.totalPageSize) :
    ∃ i < memory.totalPageCount, memory.page i = null ∧
      Lissandra.memoryInsert memory timestamp key value =
        (memory.strcpy (i * memory.totalPageSize) (memoryText timestamp key value),
          ((i * memory.totalPageSize : Nat) : Int)) ∧
      Owns (memory.strcpy (i * memory.totalPageSize) (memoryText timestamp key value))
        ((i * memory.totalPageSize : Nat) :: indexes) := by
  cases hfind : findNull memory memory.totalPageCount 0 with
  | none =>
    rw [memoryFull, hfind] at hfull
    exact absurd hfull (by simp)
  | some i =>
    obtain ⟨-, hlt, hnull⟩ := findNull_some hfind
    have hi : i < memory.totalPageCount := by omega
    refine ⟨i, hi, hnull, by rw [Lissandra.memoryInsert, hfind], ?_⟩
    exact h.insert hi hnull hlen (nul_not_mem_memoryText _ _ hnul) (memoryText_ne_null _ _ _)

end Frames

/-! ## Segments -/

/-- The indexes of all pages. -/
def indexesOf (list : List MemorySegment) : List Int :=
  (list.flatMap MemorySegment.page).map Page.index

section Segments
variable {list : List MemorySegment} {segment : MemorySegment} {tableName : Bytes} {page : Page}
  {index : Int}

theorem indexesOf_append (list more : List MemorySegment) :
    indexesOf (list ++ more) = indexesOf list ++ indexesOf more := by
  simp [indexesOf]

theorem updateFirst_of_find? {α : Type} {p : α → Bool} {l : List α} {a : α} (f : α → α)
    (h : l.find? p = some a) :
    ∃ before after, l = before ++ a :: after ∧ (∀ b ∈ before, p b = false) ∧ p a = true ∧
      updateFirst p f l = before ++ f a :: after ∧ l.eraseP p = before ++ after := by
  induction l with
  | nil => exact absurd h (by simp)
  | cons b l ih =>
    by_cases hb : p b = true
    · rw [List.find?_cons_of_pos hb, Option.some.injEq] at h
      subst h
      exact ⟨[], l, rfl, fun _ hmem => absurd hmem List.not_mem_nil, hb, if_pos hb,
        List.eraseP_cons_of_pos hb⟩
    · rw [List.find?_cons_of_neg hb] at h
      obtain ⟨before, after, rfl, hbefore, ha, hupdate, herase⟩ := ih h
      refine ⟨b :: before, after, rfl, ?_, ha, ?_, ?_⟩
      · rintro c (_ | ⟨_, hmem⟩)
        · exact Bool.not_eq_true _ ▸ hb
        · exact hbefore c hmem
      · rw [updateFirst, if_neg hb, hupdate, List.cons_append]
      · rw [List.eraseP_cons_of_neg hb, herase, List.cons_append]

/-- What a loop that finds a segment by name or by a page does to the indexes. -/
theorem indexesOf_split (before after : List MemorySegment) (segment : MemorySegment) :
    (indexesOf (before ++ segment :: after)).Perm
      (segment.page.map Page.index ++ indexesOf (before ++ after)) := by
  rw [← List.singleton_append, indexesOf_append, indexesOf_append, indexesOf_append]
  have hone : indexesOf [segment] = segment.page.map Page.index := by simp [indexesOf]
  rw [hone, ← List.append_assoc, ← List.append_assoc]
  exact (List.perm_append_comm).append_right _

/-- The page joins the pages of the segment. -/
theorem indexesOf_addPage (page : Page) (h : getSegmentByName list tableName = some segment) :
    (indexesOf (addPage tableName page list)).Perm (page.index :: indexesOf list) := by
  obtain ⟨before, after, rfl, -, -, hupdate, -⟩ := updateFirst_of_find?
    (fun segment => { segment with page := segment.page ++ [page] }) h
  rw [addPage, hupdate]
  refine (indexesOf_split _ _ _).trans ?_
  rw [List.map_append, List.map_singleton, List.append_assoc]
  exact List.perm_middle.trans ((indexesOf_split before after segment).symm.cons _)

/-- The pages of a segment leave with it. -/
theorem indexesOf_eraseP (h : getSegmentByName list tableName = some segment) :
    (indexesOf list).Perm (segment.page.map Page.index ++
      indexesOf (list.eraseP fun other => other.name = tableName)) := by
  obtain ⟨before, after, rfl, -, -, -, herase⟩ := updateFirst_of_find? id h
  rw [herase]
  exact indexesOf_split _ _ _

/-- A segment has a name of its own, in upper case. -/
structure Named (list : List MemorySegment) : Prop where
  nodup : (list.map MemorySegment.name).Nodup
  upper : ∀ segment ∈ list, toUppercase segment.name = segment.name

theorem map_name_updateFirst {p : MemorySegment → Bool} {f : MemorySegment → MemorySegment}
    (hf : ∀ segment, (f segment).name = segment.name) :
    (updateFirst p f list).map MemorySegment.name = list.map MemorySegment.name := by
  induction list with
  | nil => rfl
  | cons segment list ih =>
    rw [updateFirst]
    split
    · rw [List.map_cons, hf, List.map_cons]
    · rw [List.map_cons, ih, List.map_cons]

theorem Named.congr {other : List MemorySegment} (h : Named list)
    (hnames : other.map MemorySegment.name = list.map MemorySegment.name) : Named other := by
  refine ⟨hnames ▸ h.nodup, fun segment hmem => ?_⟩
  have hname : segment.name ∈ list.map MemorySegment.name := hnames ▸ List.mem_map_of_mem hmem
  obtain ⟨old, hold, heq⟩ := List.mem_map.mp hname
  exact heq ▸ h.upper old hold

theorem Named.sublist {other : List MemorySegment} (h : Named list) (hsub : other.Sublist list) :
    Named other :=
  ⟨h.nodup.sublist (hsub.map _), fun segment hmem => h.upper segment (hsub.subset hmem)⟩

theorem getSegmentByName_eq_none_iff :
    getSegmentByName list tableName = none ↔ tableName ∉ list.map MemorySegment.name := by
  rw [getSegmentByName, List.find?_eq_none, List.mem_map, not_exists]
  refine forall_congr' fun segment => ?_
  rw [not_and, decide_eq_true_eq]

theorem Named.add (h : Named list) (hnone : getSegmentByName list (toUppercase tableName) = none)
    (page : Page) : Named (list ++ [createSegment tableName page]) := by
  refine ⟨?_, fun segment hmem => ?_⟩
  · rw [List.map_append, List.map_singleton, List.nodup_append]
    refine ⟨h.nodup, List.nodup_singleton _, ?_⟩
    rintro name hname _ hsingle rfl
    obtain rfl := List.mem_singleton.mp hsingle
    exact getSegmentByName_eq_none_iff.mp hnone hname
  · rcases List.mem_append.mp hmem with hmem | hmem
    · exact h.upper segment hmem
    · obtain rfl := List.mem_singleton.mp hmem
      exact toUppercase_toUppercase tableName

/-- With names of their own a segment is the one that is found by its name. -/
theorem Named.getSegmentByName (h : Named list) (hmem : segment ∈ list) :
    Lissandra.getSegmentByName list segment.name = some segment := by
  obtain ⟨hnodup, -⟩ := h
  induction list with
  | nil => exact absurd hmem List.not_mem_nil
  | cons first rest ih =>
    obtain ⟨hfirst, hrest⟩ := List.nodup_cons.mp hnodup
    rw [Lissandra.getSegmentByName]
    rcases List.mem_cons.mp hmem with rfl | hmem
    · exact List.find?_cons_of_pos (by simp)
    · have hne : first.name ≠ segment.name := fun heq => hfirst (heq ▸ List.mem_map_of_mem hmem)
      rw [List.find?_cons_of_neg (by simpa using hne)]
      exact ih hmem hrest

end Segments

/-! ## Well-formed nodes -/

/-- The segments own their frames, have names of their own and at least one page each. -/
structure WellFormed (node : MemoryNode) : Prop where
  owns : Owns node.memory (indexesOf node.segmentList)
  named : Named node.segmentList
  nonempty : ∀ segment ∈ node.segmentList, segment.page ≠ []

/-- The sizes of pages, memory and values stay. -/
structure SameSizes (node node' : MemoryNode) : Prop where
  valueSize : node'.valueSize = node.valueSize
  totalPageSize : node'.memory.totalPageSize = node.memory.totalPageSize
  totalPageCount : node'.memory.totalPageCount = node.memory.totalPageCount

section Nodes
variable {node node' node₁ start : MemoryNode} {segment : MemorySegment} {tableName : Bytes}
  {index : Int}

theorem SameSizes.refl (node : MemoryNode) : SameSizes node node := ⟨rfl, rfl, rfl⟩

theorem SameSizes.trans (h₁ : SameSizes node node₁) (h₂ : SameSizes node₁ node') :
    SameSizes node node' :=
  ⟨h₂.valueSize.trans h₁.valueSize, h₂.totalPageSize.trans h₁.totalPageSize,
    h₂.totalPageCount.trans h₁.totalPageCount⟩

theorem mem_indexesOf {list : List MemorySegment} :
    index ∈ indexesOf list ↔ ∃ segment ∈ list, ∃ page ∈ segment.page, page.index = index := by
  simp only [indexesOf, List.mem_map, List.mem_flatMap]
  constructor
  · rintro ⟨page, ⟨segment, hsegment, hpage⟩, rfl⟩
    exact ⟨segment, hsegment, page, hpage, rfl⟩
  · rintro ⟨segment, hsegment, page, hpage, rfl⟩
    exact ⟨page, ⟨segment, hsegment, hpage⟩, rfl⟩

theorem mem_indexesOf_getPagesByModified {list : List MemorySegment} {modified : Bool} {page : Page}
    (h : page ∈ getPagesByModified list modified) :
    page.index ∈ indexesOf list ∧ page.modified = modified := by
  obtain ⟨segment, hsegment, hpage⟩ := List.mem_flatMap.mp h
  obtain ⟨hpage, hmodified⟩ := List.mem_filter.mp hpage
  exact ⟨mem_indexesOf.mpr ⟨segment, hsegment, page, hpage, rfl⟩, of_decide_eq_true hmodified⟩

theorem getSegmentByIndexGlobal_isSome {list : List MemorySegment} (h : index ∈ indexesOf list) :
    ∃ segment, getSegmentByIndexGlobal list index = some segment := by
  obtain ⟨segment, hsegment, page, hpage, hindex⟩ := mem_indexesOf.mp h
  rw [← Option.isSome_iff_exists, getSegmentByIndexGlobal, List.find?_isSome]
  exact ⟨segment, hsegment, List.any_eq_true.mpr ⟨page, hpage, decide_eq_true hindex⟩⟩

theorem sameSizes_removeSegment (node : MemoryNode) (segment : MemorySegment) :
    SameSizes node (Lissandra.removeSegment node segment) := by
  have hsizes : ∀ (pages : List Page) (memory : MainMemory),
      (pages.foldl (fun memory page => memory.strcpy page.index.toNat null) memory).totalPageSize =
        memory.totalPageSize ∧
      (pages.foldl (fun memory page => memory.strcpy page.index.toNat null) memory).totalPageCount =
        memory.totalPageCount := by
    intro pages
    induction pages with
    | nil => exact fun _ => ⟨rfl, rfl⟩
    | cons page pages ih => exact fun memory => ih _
  exact ⟨rfl, (hsizes _ _).1, (hsizes _ _).2⟩

/-- A segment that is removed by its name. -/
theorem WellFormed.removeSegment (h : WellFormed node) (hmem : segment ∈ node.segmentList) :
    WellFormed (removeSegment node segment) where
  owns := (h.owns.perm (indexesOf_eraseP (h.named.getSegmentByName hmem))).releaseAll
  named := h.named.sublist List.eraseP_sublist
  nonempty other hother := h.nonempty other (List.mem_of_mem_eraseP hother)

/-- All segments are removed, from the last one on. -/
theorem WellFormed.deleteAllSegments (h : WellFormed node) :
    ∃ node', Lissandra.deleteAllSegments node = some node' ∧ WellFormed node' ∧
      node'.segmentList = [] ∧ SameSizes node node' := by
  rw [Lissandra.deleteAllSegments]
  generalize hlen : node.segmentList.length = i
  induction i generalizing node with
  | zero => exact ⟨node, rfl, h, List.length_eq_zero_iff.mp hlen, SameSizes.refl node⟩
  | succ i ih =>
    have hne : node.segmentList ≠ [] := List.length_pos_iff.mp (by omega)
    have hlast : node.segmentList[i]? = some (node.segmentList.getLast hne) := by
      rw [List.getLast_eq_getElem, ← List.getElem?_eq_getElem]
      congr 1
      omega
    have hmem := List.getLast_mem hne
    have herase : (Lissandra.removeSegment node (node.segmentList.getLast hne)).segmentList.length =
      i := by
      rw [Lissandra.removeSegment, List.length_eraseP_of_mem hmem (by simp), hlen]
      rfl
    obtain ⟨node', hrun, hwell, hempty, hsizes⟩ := ih (h.removeSegment hmem) herase
    refine ⟨node', ?_, hwell, hempty, (sameSizes_removeSegment node _).trans hsizes⟩
    rw [deleteSegments, hlast]
    exact hrun

/-- The page that `replace_algorithm` evicts is one of the clean ones. -/
theorem mem_of_sortedIndexes {memory : MainMemory} {indexes rest : List Int} {replace : Int}
    (h : sortedIndexes memory indexes = replace :: rest) : replace ∈ indexes := by
  have hmem : replace ∈ sortedIndexes memory indexes := h ▸ List.mem_cons_self
  exact (List.perm_insertionSort _ _).mem_iff.mp hmem

/-- Names that are different leave a segment only one place. -/
theorem Named.split {before after : List MemorySegment} (h : Named (before ++ segment :: after))
    {other : MemorySegment} (hmem : other ∈ before ++ after) : other.name ≠ segment.name := by
  intro heq
  have hnodup := h.nodup
  rw [List.map_append, List.map_cons] at hnodup
  have hnot := List.nodup_middle.mp hnodup
  rw [List.nodup_cons, ← List.map_append] at hnot
  exact hnot.1 (heq ▸ List.mem_map_of_mem hmem)

theorem mem_split {before after : List MemorySegment} {other : MemorySegment} :
    other ∈ before ++ segment :: after ↔ other = segment ∨ other ∈ before ++ after := by
  simp only [List.mem_append, List.mem_cons]
  exact or_left_comm

/-- What evicting a page does: the page leaves its segment, and the segment goes too when it
is empty, unless it is the one that is to get the new page. -/
theorem WellFormed.eliminate_cases (h : WellFormed node)
    (hindex : index ∈ indexesOf node.segmentList) (hupper : toUppercase tableName = tableName) :
    ∃ before found after pages page others list,
      node.segmentList = before ++ found :: after ∧ found.page = pages ++ page :: others ∧
      page.index = index ∧
      eliminatePageInstanceByIndex node index tableName =
        some { node with memory := node.memory.strcpy index.toNat null, segmentList := list } ∧
      (list = before ++ { found with page := pages ++ others } :: after ∧
          (pages ++ others = [] → found.name = tableName) ∨
        list = before ++ after ∧ pages ++ others = [] ∧ found.name ≠ tableName) := by
  obtain ⟨found, hfound⟩ := getSegmentByIndexGlobal_isSome hindex
  let left := found.page.eraseP fun page => page.index = index
  obtain ⟨before, after, hsplit, -, hany, hupdate, -⟩ := updateFirst_of_find?
    (fun segment => { segment with page := left }) hfound
  obtain ⟨page, hfind⟩ : ∃ page, found.page.find? (fun page => page.index = index) = some page := by
    rw [← Option.isSome_iff_exists, List.find?_isSome]
    exact List.any_eq_true.mp hany
  obtain ⟨pages, others, hpages, -, hpage, -, herase⟩ := updateFirst_of_find? id hfind
  have hfoundUpper : toUppercase found.name = found.name :=
    h.named.upper found (List.mem_of_find?_eq_some hfound)
  let node₁ : MemoryNode := { node with
    memory := node.memory.strcpy index.toNat null
    segmentList := updateFirst (fun segment => segment.page.any fun page => page.index = index)
      (fun segment => { segment with page := left }) node.segmentList }
  have hrun : eliminatePageInstanceByIndex node index tableName =
      some (if left = [] ∧ toUppercase tableName ≠ toUppercase found.name then
        Lissandra.removeSegment node₁ { found with page := left } else node₁) := by
    rw [eliminatePageInstanceByIndex, hfound]
    rfl
  have hlist : node₁.segmentList = before ++ { found with page := left } :: after := hupdate
  have hleft : left = pages ++ others := herase
  rw [hupper, hfoundUpper] at hrun
  by_cases hremove : left = [] ∧ tableName ≠ found.name
  · rw [if_pos hremove] at hrun
    -- Names are different, so the segment that is found by its name is this one.
    have hnamed : Named (before ++ { found with page := left } :: after) := by
      refine h.named.congr ?_
      rw [hsplit, List.map_append, List.map_append, List.map_cons, List.map_cons]
    have heraseSegment : node₁.segmentList.eraseP (fun other => other.name = found.name) =
        before ++ after := by
      rw [hlist, List.eraseP_append_right, List.eraseP_cons_of_pos (by simp)]
      intro other hmem
      have hne := @Named.split { found with page := left } before after hnamed other
        (List.mem_append_left _ hmem)
      simpa using hne
    refine ⟨before, found, after, pages, page, others, before ++ after, hsplit, hpages,
      of_decide_eq_true hpage, ?_, Or.inr ⟨rfl, hleft ▸ hremove.1, hremove.2.symm⟩⟩
    rw [hrun, Lissandra.removeSegment]
    simp only [heraseSegment, hremove.1, List.foldl_nil]
    rfl
  · rw [if_neg hremove] at hrun
    refine ⟨before, found, after, pages, page, others, _, hsplit, hpages, of_decide_eq_true hpage,
      hrun, Or.inl ⟨hleft ▸ hlist, fun hnil => by_contra fun hne =>
        hremove ⟨hleft.trans hnil, Ne.symm hne⟩⟩⟩

/-- A node with a free frame, where the segment of the table may have no page. -/
structure Vacant (node : MemoryNode) (tableName : Bytes) : Prop where
  owns : Owns node.memory (indexesOf node.segmentList)
  named : Named node.segmentList
  nonempty : ∀ segment ∈ node.segmentList, segment.page ≠ [] ∨ segment.name = tableName
  free : memoryFull node.memory = false

/-- A node with a page that is written and not yet listed. -/
structure Unlisted (node : MemoryNode) (listing : Listing) : Prop where
  owns : Owns node.memory (listing.page.index :: indexesOf node.segmentList)
  named : Named node.segmentList
  nonempty : ∀ segment ∈ node.segmentList, segment.page ≠ [] ∨ segment.name = listing.tableName
  upper : toUppercase listing.tableName = listing.tableName
  fresh : listing.fresh = true ↔ listing.tableName ∉ node.segmentList.map MemorySegment.name

theorem WellFormed.vacant (h : WellFormed node) (hfull : memoryFull node.memory = false)
    (tableName : Bytes) : Vacant node tableName :=
  ⟨h.owns, h.named, fun segment hmem => Or.inl (h.nonempty segment hmem), hfull⟩

theorem WellFormed.eliminate (h : WellFormed node) (hindex : index ∈ indexesOf node.segmentList)
    (hupper : toUppercase tableName = tableName) :
    ∃ node', eliminatePageInstanceByIndex node index tableName = some node' ∧
      Vacant node' tableName ∧ (tableName ∈ node'.segmentList.map MemorySegment.name ↔
        tableName ∈ node.segmentList.map MemorySegment.name) ∧ SameSizes node node' := by
  obtain ⟨before, found, after, pages, page, others, list, hsplit, hpages, hpage, hrun, hlist⟩ :=
    h.eliminate_cases hindex hupper
  have hperm : (indexesOf node.segmentList).Perm (index :: indexesOf list) := by
    rw [hsplit]
    refine (indexesOf_split before after found).trans ?_
    have hmiddle : (found.page.map Page.index ++ indexesOf (before ++ after)).Perm
        (index :: ((pages ++ others).map Page.index ++ indexesOf (before ++ after))) := by
      rw [hpages, List.map_append, List.map_cons, hpage, List.map_append]
      exact List.perm_middle.append_right _
    refine hmiddle.trans (List.Perm.cons _ ?_)
    rcases hlist with ⟨rfl, -⟩ | ⟨rfl, hnil, -⟩
    · exact (indexesOf_split before after { found with page := pages ++ others }).symm
    · rw [hnil, List.map_nil, List.nil_append]
  have howns : Owns (node.memory.strcpy index.toNat null) (indexesOf list) :=
    (h.owns.perm hperm).release
  have hothers : ∀ segment ∈ before ++ after, segment.page ≠ [] := fun segment hmem =>
    h.nonempty segment (hsplit ▸ mem_split.mpr (Or.inr hmem))
  have hfree : memoryFull (node.memory.strcpy index.toNat null) = false := by
    obtain ⟨i, hi, rfl⟩ := h.owns.aligned index hindex
    refine memoryFull_iff.mpr ⟨i, hi, (howns.free_iff i hi).mpr ?_⟩
    exact (List.nodup_cons.mp (hperm.nodup_iff.mp h.owns.nodup)).1
  refine ⟨_, hrun, ⟨howns, ?_, ?_, hfree⟩, ?_, ⟨rfl, rfl, rfl⟩⟩
  · rcases hlist with ⟨rfl, -⟩ | ⟨rfl, -, -⟩
    · refine h.named.congr ?_
      rw [hsplit, List.map_append, List.map_append, List.map_cons, List.map_cons]
    · refine h.named.sublist ?_
      rw [hsplit]
      exact List.Sublist.append_left (List.sublist_cons_self _ _) _
  · intro segment hmem
    rcases hlist with ⟨rfl, hleft⟩ | ⟨rfl, -, -⟩
    · rcases mem_split.mp hmem with rfl | hmem
      · exact (em _).symm.imp_right hleft
      · exact Or.inl (hothers segment hmem)
    · exact Or.inl (hothers segment hmem)
  · rw [hsplit]
    rcases hlist with ⟨rfl, -⟩ | ⟨rfl, -, hne⟩
    · simp only [List.map_append, List.map_cons]
    · simp only [List.map_append, List.map_cons, List.mem_append, List.mem_cons]
      have : tableName ≠ found.name := hne.symm
      simp [this]

/-! ## New pages -/

theorem isNone_getSegmentByName {list : List MemorySegment} :
    (getSegmentByName list tableName).isNone = true ↔ tableName ∉ list.map MemorySegment.name := by
  rw [Option.isNone_iff_eq_none, getSegmentByName_eq_none_iff]

/-- `memory_insert`, before the page is listed. -/
theorem Vacant.write (h : Vacant node tableName) (hupper : toUppercase tableName = tableName)
    {fresh : Bool} (hfresh : fresh = true ↔ tableName ∉ node.segmentList.map MemorySegment.name)
    (modified : Bool) {timestamp : Int64} {key : Int} {value : CString}
    (hlen : (memoryText timestamp key value.bytes).length < node.memory.totalPageSize) :
    ∃ i < node.memory.totalPageCount, node.memory.page i = null ∧
      memoryInsert node.memory timestamp key value.bytes =
        (node.memory.strcpy (i * node.memory.totalPageSize) (memoryText timestamp key value.bytes),
          ((i * node.memory.totalPageSize : Nat) : Int)) ∧
      Unlisted ⟨node.memory.strcpy (i * node.memory.totalPageSize)
        (memoryText timestamp key value.bytes),
          node.segmentList, node.valueSize⟩
        ⟨tableName, fresh, ⟨(i * node.memory.totalPageSize : Nat), modified⟩⟩ := by
  obtain ⟨i, hi, hnull, hinsert, howns⟩ := h.owns.memoryInsert h.free value.noNul hlen
  exact ⟨i, hi, hnull, hinsert, howns, h.named, h.nonempty, hupper, hfresh⟩

/-- The segment of a page that is to be listed. -/
theorem Unlisted.getSegmentByName {listing : Listing} (h : Unlisted node listing)
    (hfresh : listing.fresh = false) :
    ∃ segment, Lissandra.getSegmentByName node.segmentList listing.tableName = some segment := by
  refine Option.ne_none_iff_exists'.mp fun hnone => ?_
  rw [h.fresh.mpr (getSegmentByName_eq_none_iff.mp hnone)] at hfresh
  exact absurd hfresh (by simp)

/-- Listing a page whose frame is written. -/
theorem Unlisted.listAdd {listing : Listing} (h : Unlisted node listing) :
    ∃ node', Lissandra.listAdd node listing = some node' ∧ WellFormed node' ∧
      SameSizes node node' := by
  rw [Lissandra.listAdd]
  cases hcase : listing.fresh with
  | true =>
    have hnone := h.fresh.mp hcase
    refine ⟨_, if_pos rfl, ⟨?_, ?_, fun segment hmem => ?_⟩, ⟨rfl, rfl, rfl⟩⟩
    · rw [indexesOf_append]
      exact h.owns.perm (List.perm_append_singleton _ _).symm
    · exact h.named.add (h.upper.symm ▸ getSegmentByName_eq_none_iff.mpr hnone) listing.page
    · rcases List.mem_append.mp hmem with hmem | hmem
      · refine (h.nonempty segment hmem).resolve_right fun hname => hnone ?_
        exact hname ▸ List.mem_map_of_mem hmem
      · obtain rfl := List.mem_singleton.mp hmem
        exact List.cons_ne_nil _ _
  | false =>
    obtain ⟨segment, hget⟩ := h.getSegmentByName hcase
    refine ⟨{ node with segmentList := addPage listing.tableName listing.page node.segmentList },
      by simp [hget], ⟨?_, ?_, fun other hmem => ?_⟩, ⟨rfl, rfl, rfl⟩⟩
    · exact h.owns.perm (indexesOf_addPage listing.page hget).symm
    · exact h.named.congr (map_name_updateFirst fun _ => rfl)
    · obtain ⟨before, after, hsplit, -, hname, hupdate, -⟩ := updateFirst_of_find?
        (fun segment => { segment with page := segment.page ++ [listing.page] }) hget
      change other ∈ addPage listing.tableName listing.page node.segmentList at hmem
      rw [addPage, hupdate] at hmem
      rcases mem_split.mp hmem with rfl | hother
      · exact List.append_ne_nil_of_right_ne_nil _ (List.cons_ne_nil _ _)
      · refine (h.nonempty other (hsplit ▸ mem_split.mpr (Or.inr hother))).resolve_right
          fun heq => ?_
        exact (hsplit ▸ h.named).split hother (heq.trans (of_decide_eq_true hname).symm)

/-- **A record that gets a page of its own.**  The memory is full and nothing can be
evicted, or the page is written to a frame that was free or was freed. -/
theorem WellFormed.writePage_cases (h : WellFormed node) {timestamp : Int64} {key : Int}
    {value : CString} {modified : Bool} {postsFirst : Bool → Bool}
    (hupper : toUppercase tableName = tableName)
    (hlen : (memoryText timestamp key value.bytes).length < node.memory.totalPageSize) :
    Lissandra.writePage node timestamp key value modified tableName postsFirst =
        some (.journaling ⟨tableName, timestamp, key, value, modified⟩) ∨
    ∃ vacant i, (vacant = node ∨ ∃ page ∈ getPagesByModified node.segmentList false,
        eliminatePageInstanceByIndex node page.index tableName = some vacant) ∧
      Vacant vacant tableName ∧ SameSizes node vacant ∧
      i < vacant.memory.totalPageCount ∧ vacant.memory.page i = null ∧
      ∃ written listing node', written = ⟨vacant.memory.strcpy (i * vacant.memory.totalPageSize)
            (memoryText timestamp key value.bytes), vacant.segmentList, vacant.valueSize⟩ ∧
        listing = ⟨tableName, (getSegmentByName node.segmentList tableName).isNone,
          ⟨(i * vacant.memory.totalPageSize : Nat), modified⟩⟩ ∧
        Unlisted written listing ∧ Lissandra.listAdd written listing = some node' ∧
        SameSizes node written ∧ WellFormed node' ∧ SameSizes node node' ∧
        (Lissandra.writePage node timestamp key value modified tableName postsFirst =
            some (.listing written listing) ∨
          Lissandra.writePage node timestamp key value modified tableName postsFirst =
            some (.finished node')) := by
  rw [Lissandra.writePage]
  cases hfull : memoryFull node.memory with
  | false =>
    obtain ⟨i, hi, hnull, hinsert, hwritten⟩ :=
      (h.vacant hfull tableName).write hupper isNone_getSegmentByName modified hlen
    obtain ⟨node', hadd, hwell, hsizes⟩ := hwritten.listAdd
    refine Or.inr ⟨node, i, Or.inl rfl, h.vacant hfull tableName, SameSizes.refl node, hi, hnull,
      _, _, node', rfl, rfl, hwritten, hadd, ⟨rfl, rfl, rfl⟩, hwell,
      ⟨hsizes.1, hsizes.2, hsizes.3⟩, ?_⟩
    simp only [Bool.false_eq_true, if_false, hinsert]
    split
    · exact Or.inl rfl
    · exact Or.inr (by rw [hadd]; rfl)
  | true =>
    simp only [if_true, replaceAlgorithm]
    cases hsorted : sortedIndexes node.memory
        ((getPagesByModified node.segmentList false).map Page.index) with
    | nil => exact Or.inl rfl
    | cons replace rest =>
      obtain ⟨page, hpage, rfl⟩ := List.mem_map.mp (mem_of_sortedIndexes hsorted)
      obtain ⟨node₁, hrun, hvacant, hnames, hsizes₁⟩ :=
        h.eliminate (mem_indexesOf_getPagesByModified hpage).1 hupper
      rw [← hsizes₁.totalPageSize] at hlen
      obtain ⟨i, hi, hnull, hinsert, hwritten⟩ := hvacant.write hupper
        (isNone_getSegmentByName.trans (not_congr hnames.symm)) modified hlen
      obtain ⟨node', hadd, hwell, hsizes⟩ := hwritten.listAdd
      refine Or.inr ⟨node₁, i, Or.inr ⟨page, hpage, hrun⟩, hvacant, hsizes₁, hi, hnull,
        _, _, node', rfl, rfl, hwritten, hadd, hsizes₁.trans ⟨rfl, rfl, rfl⟩, hwell,
        hsizes₁.trans ⟨hsizes.1, hsizes.2, hsizes.3⟩, Or.inl ?_⟩
      simp only [Option.bind_eq_bind, hrun, Option.bind_some, hinsert]

theorem WellFormed.writePage (h : WellFormed node) {timestamp : Int64} {key : Int} {value : CString}
    {modified : Bool} {postsFirst : Bool → Bool} (hupper : toUppercase tableName = tableName)
    (hlen : (memoryText timestamp key value.bytes).length < node.memory.totalPageSize) :
    ∃ ending node', Lissandra.writePage node timestamp key value modified tableName postsFirst =
        some ending ∧
      ending.run node = some node' ∧ WellFormed node' ∧ SameSizes node node' := by
  rcases h.writePage_cases hupper hlen with hwrite | ⟨vacant, i, -, -, -, -, -, written, listing,
    node', -, -, -, hadd, -, hwell, hsizes, hwrite | hwrite⟩
  · exact ⟨_, node, hwrite, rfl, h, SameSizes.refl node⟩
  · exact ⟨_, node', hwrite, hadd, hwell, hsizes⟩
  · exact ⟨_, node', hwrite, rfl, hwell, hsizes⟩

theorem findPage_some {key : Int} {page : Page}
    (h : findPage node tableName key = some (some (segment, page))) :
    getSegmentByName node.segmentList tableName = some segment ∧ page ∈ segment.page := by
  rw [findPage] at h
  split at h
  · rename_i found hfound
    obtain ⟨found', hpage, heq⟩ := Option.map_eq_some_iff.mp h
    obtain ⟨page', rfl, hpair⟩ := Option.map_eq_some_iff.mp heq
    obtain ⟨rfl, rfl⟩ := Prod.mk.inj hpair
    obtain ⟨found', -, hfind⟩ := Option.bind_eq_some_iff.mp hpage
    obtain ⟨index, -, hpage⟩ := Option.bind_eq_some_iff.mp (Option.some.inj hfind)
    exact ⟨hfound, List.mem_of_find?_eq_some hpage⟩
  · exact absurd h (by simp)

theorem mem_of_getSegmentByName {list : List MemorySegment}
    (h : getSegmentByName list tableName = some segment) :
    segment ∈ list ∧ segment.name = tableName := by
  rw [getSegmentByName] at h
  exact ⟨List.mem_of_find?_eq_some h, by simpa using List.find?_some h⟩

theorem map_index_updateFirst {pages : List Page} {p : Page → Bool} {f : Page → Page}
    (hf : ∀ page, (f page).index = page.index) :
    (updateFirst p f pages).map Page.index = pages.map Page.index := by
  induction pages with
  | nil => rfl
  | cons page pages ih =>
    rw [updateFirst]
    split
    · rw [List.map_cons, hf, List.map_cons]
    · rw [List.map_cons, ih, List.map_cons]

/-- A loop that changes a segment, but neither its name nor the indexes of its pages. -/
theorem updateFirst_keeps {list : List MemorySegment} {p : MemorySegment → Bool}
    {f : MemorySegment → MemorySegment}
    (hname : ∀ segment, (f segment).name = segment.name)
    (hpages : ∀ segment, (f segment).page.map Page.index = segment.page.map Page.index) :
    (updateFirst p f list).map MemorySegment.name = list.map MemorySegment.name ∧
      indexesOf (updateFirst p f list) = indexesOf list ∧
      ∀ segment ∈ updateFirst p f list, ∃ old ∈ list,
        segment.page.map Page.index = old.page.map Page.index := by
  refine ⟨map_name_updateFirst hname, ?_⟩
  induction list with
  | nil => exact ⟨rfl, fun _ hmem => absurd hmem List.not_mem_nil⟩
  | cons first list ih =>
    rw [updateFirst]
    split
    · refine ⟨?_, ?_⟩
      · simp only [indexesOf, List.flatMap_cons, List.map_append, hpages]
      · rintro segment (_ | ⟨_, hmem⟩)
        · exact ⟨first, List.mem_cons_self, hpages first⟩
        · exact ⟨segment, List.mem_cons_of_mem _ hmem, rfl⟩
    · refine ⟨?_, ?_⟩
      · have hrest := ih.1
        simp only [indexesOf] at hrest
        simp only [indexesOf, List.flatMap_cons, List.map_append, hrest]
      · rintro segment (_ | ⟨_, hmem⟩)
        · exact ⟨first, List.mem_cons_self, rfl⟩
        · obtain ⟨old, hold, hpage⟩ := ih.2 segment hmem
          exact ⟨old, List.mem_cons_of_mem _ hold, hpage⟩

/-- A record over the one a page has. -/
theorem WellFormed.modifyPage (h : WellFormed node) (hmem : segment ∈ node.segmentList)
    {page : Page} (hpage : page ∈ segment.page) {timestamp : Int64} {key : Int} {value : CString}
    (hlen : (memoryText timestamp key value.bytes).length < node.memory.totalPageSize) :
    WellFormed (Lissandra.modifyPage node timestamp tableName page key value.bytes) := by
  obtain ⟨hnames, hindexes, hpages⟩ := @updateFirst_keeps node.segmentList
    (fun segment => segment.name = tableName)
    (fun segment => { segment with
      page := updateFirst (fun other => other.index = page.index)
        (fun page => { page with modified := true }) segment.page })
    (fun _ => rfl) (fun _ => map_index_updateFirst fun _ => rfl)
  refine ⟨?_, h.named.congr hnames, fun segment hsegment => ?_⟩
  · change Owns (node.memory.strcpy page.index.toNat (memoryText timestamp key value.bytes))
      (indexesOf (updateFirst _ _ node.segmentList))
    rw [hindexes]
    exact h.owns.modify (mem_indexesOf.mpr ⟨segment, hmem, page, hpage, rfl⟩) hlen
      (nul_not_mem_memoryText _ _ value.noNul) (memoryText_ne_null _ _ _)
  · obtain ⟨old, hold, hsame⟩ := hpages segment hsegment
    intro hnil
    rw [hnil, List.map_nil] at hsame
    exact h.nonempty old hold (List.map_eq_nil_iff.mp hsame.symm)

/-! ## Operations -/

/-- There is a page, and the text fits into it. -/
def Fits (memory : MainMemory) (text : Bytes) : Prop :=
  0 < memory.totalPageCount ∧ text.length < memory.totalPageSize

instance (memory : MainMemory) (text : Bytes) : Decidable (Fits memory text) :=
  inferInstanceAs (Decidable (_ ∧ _))

/-- What is asked of a memory node. -/
inductive NodeOp where
  | processInsert (now later : Int64) (input : InsertInput)
  | processSelect (input : SelectInput)
  | selectCallback (result : Option RecordT)
  | processDrop (input : DropInput)
  | journalCallback (multiinsertResult : Option Int32) (register : Option JournalRegister)
  deriving DecidableEq

/-- A section without a record leaves the memory alone. -/
def runSection (node : MemoryNode) (ending : Option SectionEnd) : Option MemoryNode :=
  match ending with
  | none => some node
  | some ending => ending.run node

/-- The memory after an operation with nothing in between. -/
def NodeOp.run (node : MemoryNode) : NodeOp → Option MemoryNode
  | .processInsert now later input => insertSection node now later input >>= runSection node
  | .processSelect input => (Lissandra.processSelect node input).map fun _ => node
  | .selectCallback result => Lissandra.selectCallback node result >>= runSection node
  | .processDrop input => some (memoryDrop node input)
  | .journalCallback multiinsertResult register =>
    Lissandra.journalCallback node multiinsertResult register

/-- The records of an operation fit, and a journal succeeds or fails. -/
def NodeOp.Fits (node : MemoryNode) : NodeOp → Prop
  | .processInsert now later input =>
    Lissandra.Fits node.memory (memoryText now input.key.toNat input.value.bytes) ∧
      Lissandra.Fits node.memory (memoryText later input.key.toNat input.value.bytes)
  | .selectCallback (some record) =>
    Lissandra.Fits node.memory (memoryText record.timestamp record.key.toInt record.value.bytes)
  | .journalCallback multiinsertResult register =>
    (multiinsertResult = none ∨ multiinsertResult = some 0 ∨ multiinsertResult = some (-1)) ∧
      ∀ reg ∈ register, Lissandra.Fits node.memory
      (memoryText reg.timestamp reg.key reg.value.bytes)
  | _ => True

instance (op : NodeOp) : Decidable (op.Fits node) := by
  unfold NodeOp.Fits
  split <;> infer_instance

theorem WellFormed.insertSection (h : WellFormed node) {now later : Int64} {input : InsertInput}
    (hfits : (NodeOp.processInsert now later input).Fits node) {ending : Option SectionEnd}
    (hrun : Lissandra.insertSection node now later input = some ending)
    (hend : runSection node ending = some node') : WellFormed node' ∧ SameSizes node node' := by
  rw [Lissandra.insertSection] at hrun
  split at hrun
  · obtain ⟨found, hfound, hrun⟩ := Option.bind_eq_some_iff.mp hrun
    cases found with
    | none =>
      obtain ⟨ending', hwrite, rfl⟩ := Option.map_eq_some_iff.mp hrun
      obtain ⟨ending, node₁, hwrite', hrun', hwell, hsizes⟩ := @WellFormed.writePage node _ h now
        input.key.toNat input.value true id (toUppercase_toUppercase input.tableName.bytes)
        hfits.1.2
      obtain rfl := Option.some.inj (hwrite.symm.trans hwrite')
      obtain rfl := Option.some.inj (hend.symm.trans hrun')
      exact ⟨hwell, hsizes⟩
    | some found =>
      obtain ⟨segment, page⟩ := found
      obtain rfl := Option.some.inj hrun
      obtain rfl := Option.some.inj hend
      obtain ⟨hsegment, hpage⟩ := findPage_some hfound
      exact ⟨h.modifyPage (mem_of_getSegmentByName hsegment).1 hpage hfits.2.2, rfl, rfl, rfl⟩
  · obtain rfl := Option.some.inj hrun
    obtain rfl := Option.some.inj hend
    exact ⟨h, SameSizes.refl node⟩

theorem WellFormed.selectCallback (h : WellFormed node) {result : Option RecordT}
    (hfits : (NodeOp.selectCallback result).Fits node) {ending : Option SectionEnd}
    (hrun : Lissandra.selectCallback node result = some ending)
    (hend : runSection node ending = some node') : WellFormed node' ∧ SameSizes node node' := by
  have hsame : ending = none → WellFormed node' ∧ SameSizes node node' := by
    rintro rfl
    obtain rfl := Option.some.inj hend
    exact ⟨h, SameSizes.refl node⟩
  cases result with
  | none => exact hsame (Option.some.inj hrun).symm
  | some record =>
    rw [Lissandra.selectCallback] at hrun
    split at hrun
    · exact hsame (Option.some.inj hrun).symm
    · obtain ⟨-, -, hrun⟩ := Option.bind_eq_some_iff.mp hrun
      obtain ⟨ending', hwrite, rfl⟩ := Option.map_eq_some_iff.mp hrun
      obtain ⟨ending, node₁, hwrite', hrun', hwell, hsizes⟩ := @WellFormed.writePage node _ h
        record.timestamp record.key.toInt record.value false (fun _ => false)
        (toUppercase_toUppercase record.tableName.bytes) hfits.2
      obtain rfl := Option.some.inj (hwrite.symm.trans hwrite')
      obtain rfl := Option.some.inj (hend.symm.trans hrun')
      exact ⟨hwell, hsizes⟩

theorem WellFormed.memoryDrop (h : WellFormed node) (input : DropInput) :
    WellFormed (Lissandra.memoryDrop node input) ∧
      SameSizes node (Lissandra.memoryDrop node input) := by
  rw [Lissandra.memoryDrop]
  split
  · rename_i segment hsegment
    exact ⟨h.removeSegment (List.mem_of_find?_eq_some hsegment), sameSizes_removeSegment _ _⟩
  · exact ⟨h, SameSizes.refl node⟩

/-- `journal_callback` after a failure. -/
theorem journalCallback_failure {multiinsertResult : Option Int32}
    (register : Option JournalRegister)
    (hfails : multiinsertResult = none ∨ multiinsertResult = some (-1)) :
    journalCallback node multiinsertResult register = some node := by
  have hne : multiinsertResult ≠ some 0 := by rcases hfails with rfl | rfl <;> decide
  rw [journalCallback, if_neg hne]
  cases register with
  | none => rfl
  | some reg => exact if_pos hfails

/-- `journal_callback` after a success, with a register. -/
theorem journalCallback_success_some (hdelete : deleteAllSegments node = some node₁)
    (reg : JournalRegister) :
    journalCallback node (some 0) (some reg) =
      some { node₁ with
        memory := (memoryInsert node₁.memory reg.timestamp reg.key reg.value.bytes).1
        segmentList := node₁.segmentList ++ [createSegment reg.tableName
          ⟨(memoryInsert node₁.memory reg.timestamp reg.key reg.value.bytes).2, reg.modified⟩]
          } := by
  rw [journalCallback, if_pos rfl, hdelete]
  rfl

/-- The register of a journal that succeeded goes to the first page of an empty memory. -/
theorem WellFormed.journalCallback (h : WellFormed node) {multiinsertResult : Option Int32}
    {register : Option JournalRegister}
    (hfits : (NodeOp.journalCallback multiinsertResult register).Fits node)
    (hrun : Lissandra.journalCallback node multiinsertResult register = some node') :
    WellFormed node' ∧ SameSizes node node' := by
  obtain ⟨hresult, hregister⟩ := hfits
  have hfailed : multiinsertResult = none ∨ multiinsertResult = some (-1) →
      WellFormed node' ∧ SameSizes node node' := by
    intro hfailed
    obtain rfl := Option.some.inj ((journalCallback_failure register hfailed).symm.trans hrun)
    exact ⟨h, SameSizes.refl node⟩
  rcases hresult with rfl | rfl | rfl
  · exact hfailed (Or.inl rfl)
  · obtain ⟨node₁, hdelete, hwell, hempty, hsizes⟩ := h.deleteAllSegments
    cases register with
    | none =>
      rw [Lissandra.journalCallback, if_pos rfl, hdelete] at hrun
      obtain rfl := Option.some.inj hrun
      exact ⟨hwell, hsizes⟩
    | some reg =>
      have howns := hwell.owns
      rw [hempty] at howns
      obtain ⟨hcount, hlen⟩ := hregister reg rfl
      rw [← hsizes.totalPageCount] at hcount
      rw [← hsizes.totalPageSize] at hlen
      have hfree : memoryFull node₁.memory = false :=
        memoryFull_iff.mpr ⟨0, hcount, (howns.free_iff 0 hcount).mpr (by simp [indexesOf])⟩
      obtain ⟨i, -, -, hinsert, howns'⟩ := howns.memoryInsert hfree reg.value.noNul hlen
      rw [journalCallback_success_some hdelete, hinsert, hempty] at hrun
      obtain rfl := Option.some.inj hrun
      refine ⟨⟨?_, ?_, ?_⟩, hsizes.trans ⟨rfl, rfl, rfl⟩⟩
      · exact howns'
      · refine ⟨List.nodup_singleton _, fun segment hmem => ?_⟩
        obtain rfl := List.mem_singleton.mp hmem
        exact toUppercase_toUppercase _
      · intro segment hmem
        obtain rfl := List.mem_singleton.mp hmem
        exact List.cons_ne_nil _ _
  · exact hfailed (Or.inr rfl)

/-- **One operation.** -/
theorem WellFormed.step (h : WellFormed node) {op : NodeOp} (hfits : op.Fits node)
    (hrun : op.run node = some node') : WellFormed node' ∧ SameSizes node node' := by
  cases op with
  | processInsert now later input =>
    obtain ⟨ending, hsection, hend⟩ := Option.bind_eq_some_iff.mp hrun
    exact h.insertSection hfits hsection hend
  | processSelect input =>
    obtain ⟨-, -, rfl⟩ := Option.map_eq_some_iff.mp hrun
    exact ⟨h, SameSizes.refl node⟩
  | selectCallback result =>
    obtain ⟨ending, hsection, hend⟩ := Option.bind_eq_some_iff.mp hrun
    exact h.selectCallback hfits hsection hend
  | processDrop input =>
    obtain rfl := Option.some.inj hrun
    exact h.memoryDrop input
  | journalCallback multiinsertResult register => exact h.journalCallback hfits hrun

/-! ## The first page table -/

/-- `init_main_memory`, whatever the bytes were. -/
theorem initMainMemory_spec {allocated : Bytes} {totalPageSize totalPageCount : Nat}
    (hfits : totalPageCount * totalPageSize ≤ allocated.length)
    (hroom : null.length < totalPageSize) :
    (initMainMemory allocated totalPageSize totalPageCount).Formatted ∧
      (initMainMemory allocated totalPageSize totalPageCount).totalPageSize = totalPageSize ∧
      (initMainMemory allocated totalPageSize totalPageCount).totalPageCount = totalPageCount ∧
      ∀ i < totalPageCount, (initMainMemory allocated totalPageSize totalPageCount).page i =
      null := by
  have hprefix : ∀ n ≤ totalPageCount, ∃ memory : MainMemory,
      (List.range n).foldl (fun memory i => memory.strcpy (i * totalPageSize) null)
        ⟨allocated, totalPageSize, totalPageCount⟩ = memory ∧
      memory.totalPageSize = totalPageSize ∧ memory.totalPageCount = totalPageCount ∧
      memory.bytes.length = allocated.length ∧ ∀ i < n, memory.page i = null := by
    intro n
    induction n with
    | zero => exact fun _ => ⟨_, rfl, rfl, rfl, rfl, fun i hi => absurd hi (Nat.not_lt_zero i)⟩
    | succ n ih =>
      intro hn
      obtain ⟨memory, hmemory, hsize, hcount, hlength, hpages⟩ := ih (by omega)
      have hend : n * totalPageSize + totalPageSize ≤ allocated.length :=
        (MainMemory.pageEnd_le_of_lt hn).trans hfits
      refine ⟨memory.strcpy (n * totalPageSize) null, ?_, hsize, hcount, ?_, fun i hi => ?_⟩
      · rw [List.range_succ, List.foldl_append, hmemory]
        rfl
      · rw [MainMemory.length_strcpy (by omega), hlength]
      · rw [MainMemory.page, MainMemory.strcpy_totalPageSize, hsize]
        rcases Nat.eq_or_lt_of_le (Nat.le_of_lt_succ hi) with rfl | hlt
        · exact MainMemory.stringAt_strcpy_self (by omega) nul_not_mem_null
        · have hpage := hpages i hlt
          rw [MainMemory.page, hsize] at hpage
          have hbefore : i * totalPageSize + totalPageSize ≤ n * totalPageSize :=
            MainMemory.pageEnd_le_of_lt hlt
          rw [MainMemory.stringAt_strcpy_of_lt (by omega) (by omega) (by rw [hpage]; omega), hpage]
  obtain ⟨memory, hmemory, hsize, hcount, hlength, hpages⟩ := hprefix totalPageCount le_rfl
  rw [initMainMemory, hmemory]
  refine ⟨⟨?_, ?_, fun i hi => ?_⟩, hsize, hcount, hpages⟩
  · rw [hcount, hsize, hlength]
    exact hfits
  · rw [hsize]
    exact hroom
  · rw [hcount] at hi
    rw [hpages i hi, hsize]
    exact hroom

/-- The memory that the first answer with the value size leaves. -/
theorem wellFormed_getValueCallback {allocated : Bytes} {value now : Nat}
    (h : getValueCallback allocated value now = some node) : WellFormed node := by
  rw [getValueCallback] at h
  split at h
  · exact absurd h (by simp)
  · obtain rfl := Option.some.inj h
    have hdigits : digitsInANumber 65535 = 5 := by decide
    have hroom : null.length < digitsInANumber 65535 + digitsInANumber now + value + 3 := by
      rw [hdigits]
      change 4 < _
      omega
    obtain ⟨hformatted, hsize, hcount, hpages⟩ :=
      initMainMemory_spec (Nat.div_mul_le_self allocated.length _) hroom
    refine ⟨⟨hformatted, ?_, List.nodup_nil, fun i hi => ?_⟩, ⟨List.nodup_nil, ?_⟩, ?_⟩
    · exact fun index hmem => absurd hmem List.not_mem_nil
    · rw [hcount] at hi
      exact iff_of_true (hpages i hi) List.not_mem_nil
    · exact fun segment hmem => absurd hmem List.not_mem_nil
    · exact fun segment hmem => absurd hmem List.not_mem_nil

/-! ## Every sequence of operations -/

/-- The node after a sequence of operations. -/
abbrev NodeRun (start node : MemoryNode) : Prop :=
  Run NodeOp.run (fun node op _ => op.Fits node) start node

theorem WellFormed.run (h : WellFormed start) (hrun : NodeRun start node) :
    WellFormed node ∧ SameSizes start node := by
  have hstart : WellFormed start ∧ SameSizes start start := ⟨h, SameSizes.refl start⟩
  refine Run.invariant (P := fun node => WellFormed node ∧ SameSizes start node) hrun hstart ?_
  rintro node op node' ⟨hwell, hsizes⟩ hstep hfits
  obtain ⟨hwell', hsizes'⟩ := hwell.step hfits hstep
  exact ⟨hwell', hsizes.trans hsizes'⟩

/-- **The page table of a memory node.**  From the first memory on, whatever the operations:
indexes are those of frames, no two pages have one in common, a frame is free exactly when
no page owns it, and every segment has a name of its own and a page. -/
theorem page_table {allocated : Bytes} {value now : Nat}
    (hstart : getValueCallback allocated value now = some start) (hrun : NodeRun start node) :
    (∀ segment ∈ node.segmentList, ∀ page ∈ segment.page,
      (start.memory.totalPageSize : Int) ∣ page.index ∧ 0 ≤ page.index ∧
        page.index < start.memory.totalPageCount * start.memory.totalPageSize) ∧
    ((node.segmentList.flatMap MemorySegment.page).map Page.index).Nodup ∧
    (∀ i < start.memory.totalPageCount, node.memory.page i ≠ null ↔
      ∃ segment ∈ node.segmentList, ∃ page ∈ segment.page,
        page.index = i * start.memory.totalPageSize) ∧
    (node.segmentList.map MemorySegment.name).Nodup ∧
    ∀ segment ∈ node.segmentList, segment.page ≠ [] := by
  obtain ⟨⟨howns, hnamed, hnonempty⟩, -, hsize, hcount⟩ :=
    (wellFormed_getValueCallback hstart).run hrun
  rw [← hsize, ← hcount]
  refine ⟨fun segment hsegment page hpage => ?_, howns.nodup, fun i hi => ?_, hnamed.nodup,
    hnonempty⟩
  · obtain ⟨i, hi, hindex⟩ := howns.aligned _
      (mem_indexesOf.mpr ⟨segment, hsegment, page, hpage, rfl⟩)
    rw [hindex, ← Int.natCast_mul, Int.natCast_dvd_natCast]
    have hroom := howns.formatted.room
    refine ⟨Nat.dvd_mul_left _ _, Int.natCast_nonneg _, Int.ofNat_lt.mpr ?_⟩
    exact Nat.mul_lt_mul_of_pos_right hi (by omega)
  · rw [Ne, howns.free_iff i hi, not_not, mem_indexesOf, Int.natCast_mul]

end Nodes

/-! ## A run -/

/-- The clock when the memory is set up, and a memory of two pages of 23 bytes. -/
def firstClock : Nat := 1560000000000

/-- An INSERT with a value of one byte. -/
def shortInsert (key : UInt16) : InsertInput := ⟨.ofBytes [116], key, .ofBytes [97], 0⟩

/-- Two INSERTs fill the memory, a third one has to wait for a journal, and a DROP frees it. -/
def fillingOps : List NodeOp :=
  [.processInsert 1 2 (shortInsert 1), .processInsert 3 4 (shortInsert 2),
    .processInsert 5 6 (shortInsert 1), .processInsert 7 8 (shortInsert 3),
    .journalCallback (some 0) (some ⟨[84], 7, 3, .ofBytes [97], true⟩),
    .selectCallback (some ⟨.ofBytes [117], 2, 9, .ofBytes [98], none⟩),
    .processDrop ⟨.ofBytes [116]⟩]

def filledNode : Option MemoryNode :=
  getValueCallback (List.replicate 50 7) 2 firstClock >>= fun start =>
    runSteps NodeOp.run (fun node op _ => op.Fits node) start fillingOps

theorem filledNode_runs : filledNode.isSome = true := by decide +kernel

theorem page_table_filled :
    ∃ start node, NodeRun start node ∧ node.segmentList = [⟨[85], [⟨23, false⟩]⟩] ∧
      (node.segmentList.map MemorySegment.name).Nodup := by
  obtain ⟨node, hnode⟩ := Option.isSome_iff_exists.mp filledNode_runs
  have hlist : filledNode.map MemoryNode.segmentList =
    some [⟨[85], [⟨23, false⟩]⟩] := by decide +kernel
  rw [hnode] at hlist
  rw [filledNode] at hnode
  obtain ⟨start, hstart, hsteps⟩ := Option.bind_eq_some_iff.mp hnode
  have hrun : NodeRun start node := run_of_runSteps hsteps
  exact ⟨start, node, hrun, Option.some.inj hlist, (page_table hstart hrun).2.2.2.1⟩

end Lissandra
