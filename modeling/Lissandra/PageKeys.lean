import Lissandra.CacheMap

/-! # One page for a key

`get_page_by_key` stops at the first page of a key, so a second page of the same key is never
looked at.  INSERT takes a page only when it has found none.  A SELECT that finds none asks the
filesystem, and `select_callback` takes a page for what comes back: it looks the key up once
more, but does not use what it finds.

A node has one page for a key as long as every record that comes back finds its key without a
page (`onePagePerKey_of_run`).
-/
namespace Lissandra

/-! ## The keys of a segment -/

/-- The keys in the frames of a segment, in the order of its pages. -/
def keysOf (memory : MainMemory) (segment : MemorySegment) : List Bytes :=
  segment.page.filterMap fun page => mainMemoryValues memory page.index .key

/-- No segment has two pages whose frames hold the same key. -/
def OnePagePerKey (node : MemoryNode) : Prop :=
  ∀ segment ∈ node.segmentList, (keysOf node.memory segment).Nodup

instance (node : MemoryNode) : Decidable (OnePagePerKey node) :=
  inferInstanceAs (Decidable (∀ segment ∈ node.segmentList, (keysOf node.memory segment).Nodup))

/-- A page of the table holds the key. -/
def HasPage (node : MemoryNode) (tableName : Bytes) (key : Int) : Prop :=
  ∃ segment ∈ node.segmentList, segment.name = tableName ∧
    printInt key ∈ keysOf node.memory segment

instance (node : MemoryNode) (tableName : Bytes) (key : Int) :
    Decidable (HasPage node tableName key) :=
  inferInstanceAs (Decidable (∃ segment ∈ node.segmentList, segment.name = tableName ∧
    printInt key ∈ keysOf node.memory segment))

/-- Every segment is one of the other node, perhaps with fewer pages. -/
def KeysFrom (node node' : MemoryNode) : Prop :=
  ∀ segment' ∈ node'.segmentList, ∃ segment ∈ node.segmentList, segment'.name = segment.name ∧
    (keysOf node'.memory segment').Sublist (keysOf node.memory segment)

section Keys
variable {node node' : MemoryNode} {memory memory' : MainMemory} {segment : MemorySegment}
  {tableName : Bytes} {key : Int} {page : Page}

theorem KeysFrom.onePagePerKey (h : KeysFrom node node') (hone : OnePagePerKey node) :
    OnePagePerKey node' := by
  intro segment' hsegment'
  obtain ⟨segment, hsegment, -, hkeys⟩ := h segment' hsegment'
  exact (hone segment hsegment).sublist hkeys

theorem KeysFrom.hasPage (h : KeysFrom node node') (hpage : HasPage node' tableName key) :
    HasPage node tableName key := by
  obtain ⟨segment', hsegment', hname', hkey⟩ := hpage
  obtain ⟨segment, hsegment, hname, hkeys⟩ := h segment' hsegment'
  exact ⟨segment, hsegment, hname.symm.trans hname', hkeys.subset hkey⟩

theorem mainMemoryValues_congr {index : Int} (type : MemoryVar)
    (h : memory'.stringAt index.toNat = memory.stringAt index.toNat) :
    mainMemoryValues memory' index type = mainMemoryValues memory index type := by
  rw [mainMemoryValues, mainMemoryValues, h]

theorem keysOf_congr
    (h : ∀ page ∈ segment.page, mainMemoryValues memory' page.index .key
      = mainMemoryValues memory page.index .key) :
    keysOf memory' segment = keysOf memory segment :=
  List.filterMap_congr h

/-- Only the indexes of the pages matter. -/
theorem keysOf_eq : keysOf memory segment
    = (segment.page.map Page.index).filterMap fun index => mainMemoryValues memory index .key := by
  rw [List.filterMap_map]
  rfl

/-- A new segment has one page. -/
theorem nodup_keysOf_createSegment : (keysOf memory (createSegment tableName page)).Nodup := by
  rw [keysOf, createSegment, List.filterMap_cons]
  cases mainMemoryValues memory page.index .key with
  | none => exact List.nodup_nil
  | some key => exact List.nodup_singleton key

/-- The key of a frame is the second piece of its text, whatever the value is. -/
theorem mainMemoryValues_key {index : Int} {timestamp : Int64} {value : Bytes}
    (h : memory.stringAt index.toNat = memoryText timestamp key value) :
    mainMemoryValues memory index .key = some (printInt key) := by
  have htimestamp : semicolon ∉ printInt timestamp.toInt := not_mem_printInt (by decide)
  have hkey : semicolon ∉ printInt key := not_mem_printInt (by decide)
  unfold mainMemoryValues stringSplit
  rw [h]
  unfold memoryText
  dsimp only
  rw [List.append_assoc, List.append_assoc, List.append_assoc, List.singleton_append,
    List.splitOn_append_cons_self_of_not_mem htimestamp, List.singleton_append,
    List.splitOn_append_cons_self_of_not_mem hkey,
    List.filter_cons_of_pos (by simpa using printInt_ne_nil _),
    List.filter_cons_of_pos (by simpa using printInt_ne_nil _)]
  rfl

/-! ## Looking for a key -/

/-- A loop that ends without a page has compared all of them. -/
theorem findKey_eq_none {indexes : List Int} (h : findKey memory key indexes = some none) :
    ∀ index ∈ indexes, mainMemoryValues memory index .key ≠ some (printInt key) := by
  induction indexes with
  | nil => exact fun _ hmem => absurd hmem List.not_mem_nil
  | cons first rest ih =>
    obtain ⟨comparator, hcomparator, hrest⟩ := Option.bind_eq_some_iff.mp h
    split at hrest
    · cases hrest
    · rename_i hne
      intro index hmem
      rcases List.mem_cons.mp hmem with rfl | hmem
      · rw [hcomparator]
        exact fun heq => hne (Option.some.inj heq)
      · exact ih hrest index hmem

theorem findKey_eq_some {indexes : List Int} {index : Int}
    (h : findKey memory key indexes = some (some index)) :
    index ∈ indexes ∧ mainMemoryValues memory index .key = some (printInt key) := by
  induction indexes with
  | nil => cases h
  | cons first rest ih =>
    obtain ⟨comparator, hcomparator, hrest⟩ := Option.bind_eq_some_iff.mp h
    split at hrest
    · rename_i heq
      obtain rfl := Option.some.inj (Option.some.inj hrest)
      exact ⟨List.mem_cons_self, heq ▸ hcomparator⟩
    · exact (ih hrest).imp_left (List.mem_cons_of_mem _)

/-- What is not found is not there. -/
theorem not_hasPage_of_findPage (hnamed : Named node.segmentList)
    (h : findPage node tableName key = some none) : ¬ HasPage node tableName key := by
  rintro ⟨segment, hsegment, rfl, hkey⟩
  rw [findPage, hnamed.getSegmentByName hsegment] at h
  obtain ⟨found, hfound, hnone⟩ := Option.map_eq_some_iff.mp h
  obtain rfl := Option.map_eq_none_iff.mp hnone
  obtain ⟨index, hfind, hpage⟩ := Option.bind_eq_some_iff.mp hfound
  obtain ⟨page, hmem, hkey⟩ := List.mem_filterMap.mp hkey
  have hindex : page.index ∈ segment.page.map Page.index := List.mem_map_of_mem hmem
  cases index with
  | none => exact findKey_eq_none hfind page.index hindex hkey
  | some index =>
    -- the index is one of a page, and a page is found by it
    have hnone : (segment.page.find? fun page => page.index = index) = none :=
      Option.some.inj hpage
    obtain ⟨page, hmem, rfl⟩ := List.mem_map.mp (findKey_eq_some hfind).1
    exact List.find?_eq_none.mp hnone page hmem (decide_eq_true rfl)

/-- The page that is found holds the key. -/
theorem key_of_findPage (h : findPage node tableName key = some (some (segment, page))) :
    mainMemoryValues node.memory page.index .key = some (printInt key) := by
  rw [findPage] at h
  cases hsegment : getSegmentByName node.segmentList tableName with
  | none =>
    rw [hsegment] at h
    cases h
  | some found =>
    rw [hsegment] at h
    obtain ⟨result, hfound, hmap⟩ := Option.map_eq_some_iff.mp h
    obtain ⟨foundPage, rfl, hpair⟩ := Option.map_eq_some_iff.mp hmap
    obtain ⟨rfl, rfl⟩ := Prod.mk.inj hpair
    obtain ⟨result, hfind, hbind⟩ := Option.bind_eq_some_iff.mp hfound
    obtain ⟨index, rfl, hpage⟩ := Option.bind_eq_some_iff.mp (Option.some.inj hbind)
    have hindex : foundPage.index = index :=
      of_decide_eq_true
        (@List.find?_some _ (fun page : Page => decide (page.index = index)) _ _ hpage)
    rw [hindex]
    exact (findKey_eq_some hfind).2

/-! ## Pages that come and go -/

/-- The other frames are as they were. -/
theorem Owns.key_strcpy {indexes : List Int} (h : Owns memory indexes) {i : Nat} {text : Bytes}
    {index : Int} (hi : i < memory.totalPageCount) (hlen : text.length < memory.totalPageSize)
    (hnul : 0 ∉ text) (hmem : index ∈ indexes) (hne : index ≠ (i * memory.totalPageSize : Nat)) :
    mainMemoryValues (memory.strcpy (i * memory.totalPageSize) text) index .key
      = mainMemoryValues memory index .key := by
  apply mainMemoryValues_congr
  rw [h.stringAt_strcpy hi hlen hnul hmem, if_neg hne]

theorem mem_indexesOf_of_mem {list : List MemorySegment} (hsegment : segment ∈ list)
    (hpage : page ∈ segment.page) : page.index ∈ indexesOf list :=
  mem_indexesOf.mpr ⟨segment, hsegment, page, hpage, rfl⟩

/-- Evicting a page. -/
theorem WellFormed.eliminate_keys (h : WellFormed node)
    (hpage : page ∈ getPagesByModified node.segmentList false)
    (hupper : toUppercase tableName = tableName)
    (hrun : eliminatePageInstanceByIndex node page.index tableName = some node') :
    KeysFrom node node' := by
  have hindex := (mem_indexesOf_getPagesByModified hpage).1
  obtain ⟨i, hi, hframe⟩ := h.owns.aligned page.index hindex
  obtain ⟨before, found, after, pages, other, others, list, hsplit, hpages, hother, hrun', hlist⟩ :=
    h.eliminate_cases hindex hupper
  obtain rfl := Option.some.inj (hrun.symm.trans hrun')
  obtain ⟨hpagesNot, hsegmentsNot⟩ := nodup_split (hsplit ▸ h.owns.nodup) hpages
  rw [hother] at hpagesNot hsegmentsNot
  have hsame : ∀ index ∈ indexesOf node.segmentList, index ≠ page.index →
      mainMemoryValues (node.memory.strcpy page.index.toNat null) index .key
        = mainMemoryValues node.memory index .key := by
    intro index hmem hne
    rw [hframe] at hne
    rw [hframe, Int.toNat_natCast]
    exact h.owns.key_strcpy hi h.owns.formatted.room nul_not_mem_null hmem hne
  have hothers : ∀ segment ∈ before ++ after, ∃ old ∈ node.segmentList, segment.name = old.name ∧
      (keysOf (node.memory.strcpy page.index.toNat null) segment).Sublist
        (keysOf node.memory old) := by
    intro segment hsegment
    have hmem : segment ∈ node.segmentList := hsplit ▸ mem_split.mpr (Or.inr hsegment)
    refine ⟨segment, hmem, rfl, ?_⟩
    rw [keysOf_congr fun kept hkept => hsame kept.index (mem_indexesOf_of_mem hmem hkept)
      fun heq => hsegmentsNot (heq ▸ mem_indexesOf_of_mem hsegment hkept)]
  rcases hlist with ⟨rfl, -⟩ | ⟨rfl, -, -⟩
  · -- the segment stays, without the page
    intro segment hsegment
    rcases mem_split.mp hsegment with rfl | hsegment
    · have hmem : found ∈ node.segmentList := hsplit ▸ List.mem_append_cons_self
      have hsub : (pages ++ others).Sublist found.page := by
        rw [hpages]
        exact List.Sublist.append_left (List.sublist_cons_self _ _) _
      refine ⟨found, hmem, rfl, ?_⟩
      rw [@keysOf_congr node.memory _ { found with page := pages ++ others } fun kept hkept =>
        hsame kept.index (mem_indexesOf_of_mem hmem (hsub.subset hkept))
          fun heq => hpagesNot (heq ▸ List.mem_map_of_mem hkept)]
      exact hsub.filterMap _
    · exact hothers segment hsegment
  · exact hothers

/-- A text in a free frame. -/
theorem Vacant.write_keys (h : Vacant node tableName) {i : Nat} {text : Bytes}
    (hi : i < node.memory.totalPageCount) (hfree : node.memory.page i = null)
    (hlen : text.length < node.memory.totalPageSize) (hnul : 0 ∉ text) :
    KeysFrom node { node with
      memory := node.memory.strcpy (i * node.memory.totalPageSize) text } := by
  intro segment hsegment
  refine ⟨segment, hsegment, rfl, ?_⟩
  rw [keysOf_congr fun page hpage => ?_]
  have hmem : page.index ∈ indexesOf node.segmentList := mem_indexesOf_of_mem hsegment hpage
  apply h.owns.key_strcpy hi hlen hnul hmem
  intro heq
  exact (h.owns.free_iff i hi).mp hfree (heq ▸ hmem)

/-- Listing a page whose key has none. -/
theorem Unlisted.listAdd_onePagePerKey {listing : Listing} (h : Unlisted node listing)
    (hone : OnePagePerKey node)
    (hkey : mainMemoryValues node.memory listing.page.index .key = some (printInt key))
    (hnone : ¬ HasPage node listing.tableName key)
    (hadd : Lissandra.listAdd node listing = some node') : OnePagePerKey node' := by
  rw [Lissandra.listAdd] at hadd
  cases hfresh : listing.fresh with
  | true =>
    rw [if_pos hfresh] at hadd
    obtain rfl := Option.some.inj hadd
    intro segment hsegment
    rcases List.mem_append.mp hsegment with hsegment | hsegment
    · exact hone segment hsegment
    · obtain rfl := List.mem_singleton.mp hsegment
      exact nodup_keysOf_createSegment
  | false =>
    obtain ⟨found, hfound⟩ := h.getSegmentByName hfresh
    rw [hfresh, if_neg Bool.false_ne_true, hfound] at hadd
    obtain rfl := Option.some.inj hadd
    obtain ⟨hmem, hname⟩ := mem_of_getSegmentByName hfound
    obtain ⟨before, after, hsplit, -, -, hupdate, -⟩ := updateFirst_of_find?
      (fun segment => { segment with page := segment.page ++ [listing.page] }) hfound
    intro segment hsegment
    change segment ∈ addPage listing.tableName listing.page node.segmentList at hsegment
    rw [addPage, hupdate] at hsegment
    rcases mem_split.mp hsegment with rfl | hother
    · have hkeys : keysOf node.memory { found with page := found.page ++ [listing.page] }
          = keysOf node.memory found ++ [printInt key] := by
        simp [keysOf, hkey]
      show (keysOf node.memory { found with page := found.page ++ [listing.page] }).Nodup
      rw [hkeys, List.nodup_append]
      refine ⟨hone found hmem, List.nodup_singleton _, ?_⟩
      rintro other hother _ hsingle rfl
      obtain rfl := List.mem_singleton.mp hsingle
      exact hnone ⟨found, hmem, hname, hother⟩
    · exact hone segment (hsplit ▸ mem_split.mpr (Or.inr hother))

/-! ## Sections -/

/-- A record that gets a page, where its key has none. -/
theorem WellFormed.writePage_onePagePerKey (h : WellFormed node) (hone : OnePagePerKey node)
    {timestamp : Int64} {value : CString} {modified : Bool} {postsFirst : Bool → Bool}
    (hupper : toUppercase tableName = tableName)
    (hlen : (memoryText timestamp key value.bytes).length < node.memory.totalPageSize)
    (hnone : ¬ HasPage node tableName key) {ending : SectionEnd}
    (hwrite : Lissandra.writePage node timestamp key value modified tableName postsFirst
      = some ending) (hrun : ending.run node = some node') : OnePagePerKey node' := by
  rcases h.writePage_cases hupper hlen with hjournal | ⟨vacant, i, hvacant, hvacantNode, hsizes, hi,
    hnull, written, listing, listed, rfl, rfl, hunlisted, hadd, -, -, -, hends⟩
  · -- the page waits for a journal
    obtain rfl := Option.some.inj (hwrite.symm.trans hjournal)
    obtain rfl := Option.some.inj hrun
    exact hone
  · have hlisted : node' = listed := by
      rcases hends with hends | hends
      · obtain rfl := Option.some.inj (hwrite.symm.trans hends)
        exact Option.some.inj (hrun.symm.trans hadd)
      · obtain rfl := Option.some.inj (hwrite.symm.trans hends)
        exact (Option.some.inj hrun).symm
    subst hlisted
    have hfrom : KeysFrom node vacant := by
      rcases hvacant with rfl | ⟨page, hpage, hevict⟩
      · exact fun segment hsegment => ⟨segment, hsegment, rfl, List.Sublist.refl _⟩
      · exact h.eliminate_keys hpage hupper hevict
    have hnul := nul_not_mem_memoryText timestamp key value.noNul
    have htext := (hvacantNode.owns.formatted.strcpy hi (hsizes.totalPageSize ▸ hlen) hnul).2 i hi
    rw [if_pos rfl] at htext
    have hwritten := hvacantNode.write_keys hi hnull (hsizes.totalPageSize ▸ hlen) hnul
    refine hunlisted.listAdd_onePagePerKey (hwritten.onePagePerKey (hfrom.onePagePerKey hone))
      (mainMemoryValues_key htext) (fun hpage => ?_) hadd
    exact hnone (hfrom.hasPage (hwritten.hasPage hpage))

/-- Writing over the page of a key. -/
theorem WellFormed.modifyPage_keys (h : WellFormed node) {now : Int64} {value : CString}
    (hlen : (memoryText now key value.bytes).length < node.memory.totalPageSize)
    (hfind : findPage node tableName key = some (some (segment, page))) :
    KeysFrom node (Lissandra.modifyPage node now segment.name page key value.bytes) := by
  obtain ⟨hsegment, hpage⟩ := findPage_some hfind
  have hindex := mem_indexesOf_of_mem (mem_of_getSegmentByName hsegment).1 hpage
  obtain ⟨i, hi, hframe⟩ := h.owns.aligned page.index hindex
  have hnul := nul_not_mem_memoryText now key value.noNul
  have hkeys : ∀ index ∈ indexesOf node.segmentList,
      mainMemoryValues (modifyMemoryByIndex node.memory now page.index key value.bytes) index .key
        = mainMemoryValues node.memory index .key := by
    intro index hmem
    by_cases hself : index = page.index
    · rw [hself, key_of_findPage hfind]
      apply mainMemoryValues_key
      rw [modifyMemoryByIndex, hframe, Int.toNat_natCast]
      exact (h.owns.stringAt_strcpy hi hlen hnul (hframe ▸ hindex)).trans (if_pos rfl)
    · rw [modifyMemoryByIndex, hframe, Int.toNat_natCast]
      exact h.owns.key_strcpy hi hlen hnul hmem (hframe ▸ hself)
  intro segment' hsegment'
  obtain ⟨old, hold, hname, hindexes⟩ : ∃ old ∈ node.segmentList, segment'.name = old.name ∧
      segment'.page.map Page.index = old.page.map Page.index := by
    rcases mem_updateFirst hsegment' with hsame | ⟨old, hold, -, rfl⟩
    · exact ⟨segment', hsame, rfl, rfl⟩
    · exact ⟨old, hold, rfl, map_index_updateFirst fun _ => rfl⟩
  refine ⟨old, hold, hname, ?_⟩
  rw [keysOf_eq, hindexes, ← keysOf_eq]
  show (keysOf (modifyMemoryByIndex node.memory now page.index key value.bytes) old).Sublist _
  rw [keysOf_congr fun kept hkept => hkeys kept.index (mem_indexesOf_of_mem hold hkept)]

/-- An INSERT takes a page only for a key that has none. -/
theorem WellFormed.insertSection_onePagePerKey (h : WellFormed node) (hone : OnePagePerKey node)
    {now later : Int64} {input : InsertInput}
    (hfits : (NodeOp.processInsert now later input).Fits node) {ending : Option SectionEnd}
    (hsection : Lissandra.insertSection node now later input = some ending)
    (hrun : runSection node ending = some node') : OnePagePerKey node' := by
  rw [Lissandra.insertSection] at hsection
  split at hsection
  · obtain ⟨found, hfind, hsection⟩ := Option.bind_eq_some_iff.mp hsection
    cases found with
    | none =>
      obtain ⟨ending, hwrite, rfl⟩ := Option.map_eq_some_iff.mp hsection
      exact h.writePage_onePagePerKey hone (toUppercase_toUppercase input.tableName.bytes)
        hfits.1.2 (not_hasPage_of_findPage h.named hfind) hwrite hrun
    | some found =>
      obtain rfl := Option.some.inj hsection
      obtain rfl := Option.some.inj hrun
      exact (h.modifyPage_keys hfits.2.2 hfind).onePagePerKey hone
  · obtain rfl := Option.some.inj hsection
    obtain rfl := Option.some.inj hrun
    exact hone

/-- The filesystem answers with a record. -/
def IsRecord (result : RecordT) : Prop := ¬ (result.timestamp = -1 ∨ result.timestamp = -2)

instance (result : RecordT) : Decidable (IsRecord result) :=
  inferInstanceAs (Decidable (¬ (_ ∨ _)))

/-- The record of an answer fits, and its key has no page. -/
def Unpaged (node : MemoryNode) (result : Option RecordT) : Prop :=
  ∀ record ∈ result, IsRecord record →
    (NodeOp.selectCallback (some record)).Fits node ∧
      ¬ HasPage node (toUppercase record.tableName.bytes) record.key.toInt

instance (node : MemoryNode) (result : Option RecordT) : Decidable (Unpaged node result) := by
  unfold Unpaged
  infer_instance

/-- An answer whose record finds no page of its key. -/
theorem WellFormed.selectCallback_onePagePerKey (h : WellFormed node) (hone : OnePagePerKey node)
    {result : Option RecordT} (hunpaged : Unpaged node result) {ending : Option SectionEnd}
    (hsection : Lissandra.selectCallback node result = some ending)
    (hrun : runSection node ending = some node') :
    WellFormed node' ∧ OnePagePerKey node' ∧ SameSizes node node' := by
  have hsame : ending = none → WellFormed node' ∧ OnePagePerKey node' ∧ SameSizes node node' := by
    rintro rfl
    obtain rfl := Option.some.inj hrun
    exact ⟨h, hone, SameSizes.refl node⟩
  cases result with
  | none => exact hsame (Option.some.inj hsection).symm
  | some record =>
    by_cases hrecord : IsRecord record
    · obtain ⟨hfits, hnone⟩ := hunpaged record rfl hrecord
      obtain ⟨hwell, hsizes⟩ := h.selectCallback hfits hsection hrun
      refine ⟨hwell, ?_, hsizes⟩
      rw [Lissandra.selectCallback, if_neg hrecord] at hsection
      obtain ⟨-, -, hsection⟩ := Option.bind_eq_some_iff.mp hsection
      obtain ⟨ending, hwrite, rfl⟩ := Option.map_eq_some_iff.mp hsection
      exact h.writePage_onePagePerKey hone (toUppercase_toUppercase record.tableName.bytes)
        hfits.2 hnone hwrite hrun
    · rw [Lissandra.selectCallback, if_pos (not_not.mp hrecord)] at hsection
      exact hsame (Option.some.inj hsection).symm

/-- A journal that succeeded leaves at most one page. -/
theorem WellFormed.journalCallback_onePagePerKey (h : WellFormed node) (hone : OnePagePerKey node)
    {multiinsertResult : Option Int32} {register : Option JournalRegister}
    (hresult : multiinsertResult = none ∨ multiinsertResult = some 0 ∨
      multiinsertResult = some (-1))
    (hrun : Lissandra.journalCallback node multiinsertResult register = some node') :
    OnePagePerKey node' := by
  have hfailed : multiinsertResult = none ∨ multiinsertResult = some (-1) →
      OnePagePerKey node' := by
    intro hfails
    obtain rfl := Option.some.inj ((journalCallback_failure register hfails).symm.trans hrun)
    exact hone
  rcases hresult with rfl | rfl | rfl
  · exact hfailed (Or.inl rfl)
  · obtain ⟨empty, hdelete, -, hempty, -⟩ := h.deleteAllSegments
    cases register with
    | none =>
      rw [Lissandra.journalCallback, if_pos rfl, hdelete] at hrun
      obtain rfl := Option.some.inj hrun
      intro segment hsegment
      rw [hempty] at hsegment
      cases hsegment
    | some reg =>
      rw [journalCallback_success_some hdelete, hempty] at hrun
      obtain rfl := Option.some.inj hrun
      intro segment hsegment
      obtain rfl := List.mem_singleton.mp hsegment
      exact nodup_keysOf_createSegment
  · exact hfailed (Or.inr rfl)

end Keys

/-! ## Requests and answers -/

/-- A memory node with the SELECTs that have missed and the journals that are on the way. -/
structure AskedNode where
  node : MemoryNode
  misses : List SelectInput
  journals : List (Option JournalRegister)
  deriving DecidableEq

/-- The bodies that run, one after the other. -/
inductive AskedNode.Action where
  | processInsert (now later : Int64) (input : InsertInput)
  | processSelect (input : SelectInput)
  | journaling
  /-- `select_callback` for one of the misses. -/
  | selectCallback (i : Nat) (result : Option RecordT)
  /-- `journal_callback` for one of the journals. -/
  | journalCallback (i : Nat) (multiinsertResult : Option Int32)

/-- A record that is answered is one of the table and key that were asked for. -/
def AnswersMiss (input : SelectInput) (result : Option RecordT) : Prop :=
  ∀ record ∈ result, IsRecord record →
    toUppercase record.tableName.bytes = toUppercase input.tableName.bytes ∧
      record.key.toInt = input.key.toNat

instance (input : SelectInput) (result : Option RecordT) :
    Decidable (AnswersMiss input result) := by
  unfold AnswersMiss
  infer_instance

/-- A journal is sent. -/
def AskedNode.send (s : AskedNode) (register : Option JournalRegister) : Option AskedNode := do
  let _ ← journalBatch s.node
  some { s with journals := s.journals ++ [register] }

/-- The end of a body that may have to journal. -/
def AskedNode.settle (s : AskedNode) : Option SectionEnd → Option AskedNode
  | some (.journaling register) => s.send (some register)
  | ending => (runSection s.node ending).map fun node => { s with node }

/-- One body. -/
def AskedNode.step (s : AskedNode) : AskedNode.Action → Option AskedNode
  | .processInsert now later input => insertSection s.node now later input >>= s.settle
  | .processSelect input => do
    match ← Lissandra.processSelect s.node input with
    | .hit .. => some s
    | .miss => some { s with misses := s.misses ++ [input] }
  | .journaling => s.send none
  | .selectCallback i result => do
    let input ← s.misses[i]?
    if AnswersMiss input result then
      let s := { s with misses := s.misses.eraseIdx i }
      Lissandra.selectCallback s.node result >>= s.settle
    else none
  | .journalCallback i multiinsertResult => do
    let register ← s.journals[i]?
    if multiinsertResult = none ∨ multiinsertResult = some 0 ∨ multiinsertResult = some (-1) then
      let node ← Lissandra.journalCallback s.node multiinsertResult register
      some { s with node, journals := s.journals.eraseIdx i }
    else none

/-- Records fit into a page, and the key of a record that comes back has no page. -/
def AskedNode.Keeps (s : AskedNode) : AskedNode.Action → Prop
  | .processInsert now later input => (NodeOp.processInsert now later input).Fits s.node
  | .selectCallback _ result => Unpaged s.node result
  | _ => True

instance (s : AskedNode) (action : AskedNode.Action) : Decidable (s.Keeps action) := by
  unfold AskedNode.Keeps
  split <;> infer_instance

/-- The states after any number of requests and answers. -/
abbrev AskedRun (start s : AskedNode) : Prop :=
  Run AskedNode.step (fun s action _ => s.Keeps action) start s

/-- What holds between bodies. -/
structure AskedNode.Inv (s : AskedNode) : Prop where
  wellFormed : WellFormed s.node
  onePage : OnePagePerKey s.node
  /-- A register that comes back fits. -/
  registers : ∀ reg, some reg ∈ s.journals →
    Fits s.node.memory (memoryText reg.timestamp reg.key reg.value.bytes)

section Registers
variable {node : MemoryNode} {timestamp : Int64} {key : Int} {value : CString} {modified : Bool}
  {tableName : Bytes} {postsFirst : Bool → Bool} {reg : JournalRegister}

theorem register_of_writePage
    (h : writePage node timestamp key value modified tableName postsFirst
      = some (.journaling reg)) : reg = ⟨tableName, timestamp, key, value, modified⟩ := by
  unfold writePage at h
  dsimp only at h
  split at h
  · obtain ⟨replacement, -, h⟩ := Option.bind_eq_some_iff.mp h
    cases replacement with
    | replaced node index => cases h
    | journaling =>
      cases h
      rfl
  · split at h
    · cases h
    · obtain ⟨node, -, h⟩ := Option.map_eq_some_iff.mp h
      cases h

theorem register_of_insertSection {now later : Int64} {input : InsertInput}
    (h : insertSection node now later input = some (some (.journaling reg))) :
    reg = ⟨toUppercase input.tableName.bytes, now, input.key.toNat, input.value, true⟩ := by
  unfold insertSection at h
  dsimp only at h
  split at h
  · obtain ⟨found, -, h⟩ := Option.bind_eq_some_iff.mp h
    cases found with
    | none =>
      obtain ⟨ending, hwrite, hend⟩ := Option.map_eq_some_iff.mp h
      obtain rfl := Option.some.inj hend
      exact register_of_writePage hwrite
    | some found => cases h
  · cases h

theorem register_of_selectCallback {result : Option RecordT}
    (h : selectCallback node result = some (some (.journaling reg))) :
    ∃ record, result = some record ∧ IsRecord record ∧
      reg = ⟨toUppercase record.tableName.bytes, record.timestamp, record.key.toInt, record.value,
        false⟩ := by
  cases result with
  | none => cases h
  | some record =>
    unfold selectCallback at h
    dsimp only at h
    split at h
    · cases h
    · rename_i hrecord
      obtain ⟨-, -, h⟩ := Option.bind_eq_some_iff.mp h
      obtain ⟨ending, hwrite, hend⟩ := Option.map_eq_some_iff.mp h
      obtain rfl := Option.some.inj hend
      exact ⟨record, rfl, hrecord, register_of_writePage hwrite⟩

end Registers

section Bodies
variable {s s' : AskedNode} {ending : Option SectionEnd} {register : Option JournalRegister}

/-- Sending a journal. -/
theorem AskedNode.Inv.send (h : s.Inv) (hsend : s.send register = some s')
    (hfits : ∀ reg ∈ register,
      Fits s.node.memory (memoryText reg.timestamp reg.key reg.value.bytes)) : s'.Inv := by
  obtain ⟨-, -, hsent⟩ := Option.bind_eq_some_iff.mp hsend
  obtain rfl := Option.some.inj hsent
  refine ⟨h.wellFormed, h.onePage, fun reg hreg => ?_⟩
  rcases List.mem_append.mp hreg with hreg | hreg
  · exact h.registers reg hreg
  · exact hfits reg (List.mem_singleton.mp hreg).symm

/-- Another memory of the same sizes. -/
theorem AskedNode.Inv.move (h : s.Inv) {node : MemoryNode} (hwell : WellFormed node)
    (hone : OnePagePerKey node) (hsizes : SameSizes s.node node)
    {journals : List (Option JournalRegister)} (hjournals : journals ⊆ s.journals) :
    AskedNode.Inv { s with node, journals } := by
  refine ⟨hwell, hone, fun reg hreg => ?_⟩
  have hfits := h.registers reg (hjournals hreg)
  rw [Fits, ← hsizes.totalPageCount, ← hsizes.totalPageSize] at hfits
  exact hfits

/-- The end of a body. -/
theorem AskedNode.Inv.settle (h : s.Inv) (hsettle : s.settle ending = some s')
    (hrun : ∀ node', runSection s.node ending = some node' →
      WellFormed node' ∧ OnePagePerKey node' ∧ SameSizes s.node node')
    (hregister : ∀ reg, ending = some (.journaling reg) →
      Fits s.node.memory (memoryText reg.timestamp reg.key reg.value.bytes)) : s'.Inv := by
  unfold AskedNode.settle at hsettle
  split at hsettle
  · rename_i reg
    refine h.send hsettle fun other hother => ?_
    obtain rfl := Option.some.inj hother
    exact hregister _ rfl
  · obtain ⟨node, hnode, rfl⟩ := Option.map_eq_some_iff.mp hsettle
    obtain ⟨hwell, hone, hsizes⟩ := hrun node hnode
    exact h.move hwell hone hsizes (List.Subset.refl _)

/-- **One body.** -/
theorem AskedNode.Inv.step (h : s.Inv) {action : AskedNode.Action}
    (hstep : s.step action = some s') (hkeeps : s.Keeps action) : s'.Inv := by
  cases action with
  | processInsert now later input =>
    obtain ⟨ending, hsection, hsettle⟩ := Option.bind_eq_some_iff.mp hstep
    refine h.settle hsettle (fun node' hrun => ?_) fun reg hreg => ?_
    · obtain ⟨hwell, hsizes⟩ := h.wellFormed.insertSection hkeeps hsection hrun
      exact ⟨hwell, h.wellFormed.insertSection_onePagePerKey h.onePage hkeeps hsection hrun, hsizes⟩
    · subst hreg
      obtain rfl := register_of_insertSection hsection
      exact hkeeps.1
  | processSelect input =>
    obtain ⟨lookup, -, hlookup⟩ := Option.bind_eq_some_iff.mp hstep
    cases lookup with
    | hit tableName found =>
      obtain rfl := Option.some.inj hlookup
      exact h
    | miss =>
      obtain rfl := Option.some.inj hlookup
      exact ⟨h.wellFormed, h.onePage, h.registers⟩
  | journaling => exact h.send hstep fun reg hreg => by cases hreg
  | selectCallback i result =>
    obtain ⟨input, -, hanswer⟩ := Option.bind_eq_some_iff.mp hstep
    split at hanswer
    · obtain ⟨ending, hsection, hsettle⟩ := Option.bind_eq_some_iff.mp hanswer
      have hleft : AskedNode.Inv { s with misses := s.misses.eraseIdx i } :=
        ⟨h.wellFormed, h.onePage, h.registers⟩
      refine hleft.settle hsettle (fun node' hrun => ?_) fun reg hreg => ?_
      · exact h.wellFormed.selectCallback_onePagePerKey h.onePage hkeeps hsection hrun
      · obtain ⟨record, rfl, hrecord, rfl⟩ := register_of_selectCallback (hreg ▸ hsection)
        exact (hkeeps record rfl hrecord).1
    · cases hanswer
  | journalCallback i multiinsertResult =>
    obtain ⟨register, hregister, hcallback⟩ := Option.bind_eq_some_iff.mp hstep
    split at hcallback
    · rename_i hresult
      obtain ⟨node, hrun, hnode⟩ := Option.bind_eq_some_iff.mp hcallback
      obtain rfl := Option.some.inj hnode
      have hfits : (NodeOp.journalCallback multiinsertResult register).Fits s.node := by
        refine ⟨hresult, fun reg hreg => h.registers reg ?_⟩
        obtain rfl : register = some reg := hreg
        exact List.mem_of_getElem? hregister
      obtain ⟨hwell, hsizes⟩ := h.wellFormed.journalCallback hfits hrun
      exact h.move hwell (h.wellFormed.journalCallback_onePagePerKey h.onePage hresult hrun) hsizes
        List.eraseIdx_subset
    · cases hcallback

/-- **One page for a key.**  From the first memory on, whatever is asked and in whatever order
the filesystem's answers are processed: as long as records fit into a page and no record comes
back to a key that has got a page meanwhile, no segment has two pages of a key. -/
theorem onePagePerKey_of_run {allocated : Bytes} {value now : Nat} {node : MemoryNode}
    (hstart : getValueCallback allocated value now = some node)
    (hrun : AskedRun ⟨node, [], []⟩ s) : OnePagePerKey s.node := by
  have hinv : AskedNode.Inv ⟨node, [], []⟩ := by
    refine ⟨wellFormed_getValueCallback hstart, fun segment hsegment => ?_, fun _ hreg => by
      cases hreg⟩
    rw [segmentList_getValueCallback hstart] at hsegment
    cases hsegment
  exact (hrun.invariant hinv fun _ _ _ h hstep hkeeps => h.step hstep hkeeps).onePage

end Bodies

/-! ## Two answers for one key -/

/-- `SELECT T 1`, and what the filesystem answers. -/
def firstMiss : SelectInput := ⟨.ofBytes [116], 1⟩

def firstRecord : RecordT := ⟨.ofBytes [84], 9, 1, .ofBytes [98], none⟩

/-- Two SELECTs of different keys miss, and are answered in the other order. -/
def crossedActions : List AskedNode.Action :=
  [.processSelect firstMiss, .processSelect ⟨.ofBytes [116], 2⟩,
    .selectCallback 1 (some ⟨.ofBytes [84], 9, 2, .ofBytes [98], none⟩),
    .selectCallback 0 (some firstRecord)]

/-- Two SELECTs of one key miss before the first one is answered. -/
def doubledActions : List AskedNode.Action :=
  [.processSelect firstMiss, .processSelect firstMiss, .selectCallback 0 (some firstRecord),
    .selectCallback 0 (some firstRecord)]

/-- The node after such actions. -/
def askedNode (allowed : AskedNode → AskedNode.Action → Prop)
    [∀ s action, Decidable (allowed s action)] (actions : List AskedNode.Action) :
    Option AskedNode :=
  getValueCallback (List.replicate 50 7) 2 firstClock >>= fun start =>
    runSteps AskedNode.step (fun s action _ => allowed s action) ⟨start, [], []⟩ actions

theorem onePagePerKey_crossed : ∃ node s, AskedRun ⟨node, [], []⟩ s ∧
    s.node.segmentList = [⟨[84], [⟨0, false⟩, ⟨23, false⟩]⟩] ∧ OnePagePerKey s.node := by
  have hlist : (askedNode AskedNode.Keeps crossedActions).map (fun s => s.node.segmentList)
      = some [⟨[84], [⟨0, false⟩, ⟨23, false⟩]⟩] := by decide +kernel
  obtain ⟨s, hs, hlist⟩ := Option.map_eq_some_iff.mp hlist
  unfold askedNode at hs
  obtain ⟨node, hstart, hsteps⟩ := Option.bind_eq_some_iff.mp hs
  have hrun : AskedRun ⟨node, [], []⟩ s := run_of_runSteps hsteps
  exact ⟨node, s, hrun, hlist, onePagePerKey_of_run hstart hrun⟩

/-- The table has two pages for the key. -/
theorem two_pages_for_key : ∃ node s,
    getValueCallback (List.replicate 50 7) 2 firstClock = some node ∧
      Run AskedNode.step (fun _ _ _ => True) ⟨node, [], []⟩ s ∧
      s.node.segmentList.map (keysOf s.node.memory) = [[[49], [49]]] ∧
      ¬ OnePagePerKey s.node := by
  have hkeys : (askedNode (fun _ _ => True) doubledActions).map
      (fun s => s.node.segmentList.map (keysOf s.node.memory)) = some [[[49], [49]]] := by
    decide +kernel
  obtain ⟨s, hs, hkeys⟩ := Option.map_eq_some_iff.mp hkeys
  unfold askedNode at hs
  obtain ⟨node, hstart, hsteps⟩ := Option.bind_eq_some_iff.mp hs
  refine ⟨node, s, hstart, run_of_runSteps hsteps, hkeys, fun hone => ?_⟩
  have hmem : [[49], [49]] ∈ s.node.segmentList.map (keysOf s.node.memory) := by
    rw [hkeys]
    exact List.mem_singleton_self _
  obtain ⟨segment, hsegment, hsame⟩ := List.mem_map.mp hmem
  have hnodup := hone segment hsegment
  rw [hsame] at hnodup
  exact absurd hnodup (by decide)

end Lissandra
