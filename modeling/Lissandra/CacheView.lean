import Lissandra.PageTable
import Lissandra.WriteBack

/-! # What a memory node holds

The pages of a node seen as copies of records: for every table, in the order in which
`get_page_by_key` looks at its pages, the record that each page holds and whether it is
modified.  `Shows` relates a node to this view, and every operation on pages is one of the
operations of the view: a copy joins the ones of its table, an unmodified one goes, the
first one of a key is written over, or all go.
-/
namespace Lissandra

/-! ## Pages -/

/-- The values that come out of a page as they went in. -/
structure Legible (value : Bytes) : Prop where
  nonempty : value ≠ []
  noSeparator : semicolon ∉ value

/-- The page holds the record, and is modified if the copy is. -/
structure PageHolds (memory : MainMemory) (page : Page) (copy : Copy Record) : Prop where
  modified : page.modified = copy.modified
  text : memory.stringAt page.index.toNat = convertToTkv copy.record
  legible : Legible copy.record.value

section Pages
variable {memory : MainMemory} {page : Page} {copy : Copy Record} {record : Record}

theorem stringSplit_of_legible (h : Legible record.value) :
    stringSplit (convertToTkv record) semicolon =
      [printInt record.timestamp.toInt, printInt record.key.toNat, record.value] := by
  have hvalue : stringSplit record.value semicolon = [record.value] := by
    rw [stringSplit, List.splitOn_eq_singleton h.noSeparator,
      List.filter_cons_of_pos (by simpa using h.nonempty), List.filter_nil]
  rw [convertToTkv, stringSplit_tkvText, hvalue]

theorem PageHolds.mainMemoryValues (h : PageHolds memory page copy) (type : MemoryVar) :
    Lissandra.mainMemoryValues memory page.index type = some (match type with
      | .timestamp => printInt copy.record.timestamp.toInt
      | .key => printInt copy.record.key.toNat
      | .value => copy.record.value) := by
  rw [Lissandra.mainMemoryValues, h.text, stringSplit_of_legible h.legible]
  cases type <;> rfl

theorem PageHolds.pageRecord (h : PageHolds memory page copy) :
    Lissandra.pageRecord memory page.index = some copy.record.found := by
  simp [Lissandra.pageRecord, h.mainMemoryValues, stringToUint16_printInt, Record.found]

theorem PageHolds.key_iff (h : PageHolds memory page copy) (key : UInt16) :
    Lissandra.mainMemoryValues memory page.index .key = some (printInt key.toNat) ↔
      copy.record.key = key := by
  rw [h.mainMemoryValues, Option.some.injEq]
  constructor
  · intro heq
    exact UInt16.toNat_inj.mp (Int.ofNat_inj.mp (printInt_injective heq))
  · rintro rfl
    rfl

/-- Only what is written over a page changes what it holds. -/
theorem PageHolds.congr {memory' : MainMemory} (h : PageHolds memory page copy)
    (hsame : memory'.stringAt page.index.toNat = memory.stringAt page.index.toNat) :
    PageHolds memory' page copy :=
  ⟨h.modified, hsame.trans h.text, h.legible⟩

theorem Owns.stringAt_strcpy {indexes : List Int} (h : Owns memory indexes) {i : Nat} {text : Bytes}
    {index : Int} (hi : i < memory.totalPageCount) (hlen : text.length < memory.totalPageSize)
    (hnul : 0 ∉ text) (hmem : index ∈ indexes) :
    (memory.strcpy (i * memory.totalPageSize) text).stringAt index.toNat =
      if index = (i * memory.totalPageSize : Nat) then text else memory.stringAt index.toNat := by
  obtain ⟨j, hj, rfl⟩ := h.aligned index hmem
  have hpage := (h.formatted.strcpy hi hlen hnul).2 j hj
  rw [MainMemory.page, MainMemory.strcpy_totalPageSize] at hpage
  rw [Int.toNat_natCast, hpage]
  refine if_congr ⟨fun heq => heq ▸ rfl, fun heq => h.index_injective heq⟩ rfl rfl

end Pages

/-! ## The view -/

/-- The copies of every table, in the order of its pages. -/
abbrev View := Bytes → List (Copy Record)

/-- The pages of the segment of this name. -/
def pagesOf (list : List MemorySegment) (tableName : Bytes) : List Page :=
  ((getSegmentByName list tableName).map MemorySegment.page).getD []

/-- What the pages of a node hold. -/
def Shows (node : MemoryNode) (view : View) : Prop :=
  ∀ tableName, List.Forall₂ (PageHolds node.memory) (pagesOf node.segmentList tableName)
  (view tableName)

/-- The copies of a key. -/
def View.of (view : View) (tableName : Bytes) (key : UInt16) : List (Copy Record) :=
  (view tableName).filter fun copy => copy.record.key = key

/-- A copy joins the ones of its table. -/
def View.add (view : View) (tableName : Bytes) (copy : Copy Record) : View :=
  Function.update view tableName (view tableName ++ [copy])

/-- An unmodified copy goes. -/
def View.Evicts (view view' : View) : Prop :=
  ∃ tableName before copy after, view tableName = before ++ copy :: after ∧ copy.modified = false ∧
    view' = Function.update view tableName (before ++ after)

/-- The first copy of a key is written over. -/
def View.Writes (view : View) (tableName : Bytes) (record : Record) (view' : View) : Prop :=
  ∃ before copy after, view tableName = before ++ copy :: after ∧ copy.record.key = record.key ∧
    (∀ other ∈ before, other.record.key ≠ record.key) ∧
    view' = Function.update view tableName (before ++ ⟨record, true⟩ :: after)

/-- No copies. -/
def View.empty : View := fun _ => []

section Views
variable {view view' : View} {tableName other : Bytes} {key : UInt16} {copy : Copy Record}
  {record : Record}

theorem View.of_update (copies : List (Copy Record)) :
    View.of (Function.update view tableName copies) other key =
      if other = tableName then copies.filter fun copy => copy.record.key = key
      else view.of other key := by
  rw [View.of, Function.update_apply]
  split
  · rfl
  · rfl

@[simp] theorem View.of_empty : View.empty.of tableName key = [] := rfl

theorem View.of_add (view : View) (tableName other : Bytes) (copy : Copy Record) (key : UInt16) :
    (view.add tableName copy).of other key =
      if other = tableName ∧ key = copy.record.key then view.of other key ++ [copy]
      else view.of other key := by
  rw [View.add, View.of_update]
  by_cases htable : other = tableName
  · subst htable
    by_cases hkey : key = copy.record.key
    · subst hkey
      simp [View.of]
    · simp [View.of, hkey, Ne.symm hkey]
  · simp [htable]

/-- An eviction takes one unmodified copy of one key. -/
theorem View.Evicts.of (h : view.Evicts view') (other : Bytes) (key : UInt16) :
    view'.of other key = view.of other key ∨
      ∃ before copy after, view.of other key = before ++ copy :: after ∧ copy.modified = false ∧
        view'.of other key = before ++ after := by
  obtain ⟨tableName, before, copy, after, hview, hclean, rfl⟩ := h
  rw [View.of_update]
  by_cases htable : other = tableName
  · subst htable
    by_cases hkey : copy.record.key = key
    · refine Or.inr ⟨before.filter fun copy => copy.record.key = key, copy,
        after.filter fun copy => copy.record.key = key, ?_, hclean, ?_⟩
      · rw [View.of, hview, List.filter_append, List.filter_cons_of_pos (by simpa using hkey)]
      · rw [if_pos rfl, List.filter_append]
    · refine Or.inl ?_
      rw [if_pos rfl, View.of, hview, List.filter_append, List.filter_append,
        List.filter_cons_of_neg (by simpa using hkey)]
  · exact Or.inl (if_neg htable)

theorem View.Writes.of (h : view.Writes tableName record view') (other : Bytes) (key : UInt16) :
    view'.of other key =
      if other = tableName ∧ key = record.key then ⟨record, true⟩ :: (view.of other key).tail
      else view.of other key := by
  obtain ⟨before, copy, after, hview, hcopy, hbefore, rfl⟩ := h
  rw [View.of_update]
  by_cases htable : other = tableName
  · subst htable
    by_cases hkey : key = record.key
    · subst hkey
      have hnil : before.filter (fun copy => copy.record.key = record.key) = [] :=
        List.filter_eq_nil_iff.mpr fun other hmem => by simpa using hbefore other hmem
      simp [View.of, hview, hnil, hcopy]
    · simp [View.of, hview, hkey, Ne.symm hkey, hcopy]
  · simp [htable]

end Views

/-! ## Segments and their pages -/

section Segments
variable {list before after : List MemorySegment} {segment segment' : MemorySegment}
  {tableName : Bytes} {page : Page} {index : Int}

theorem updateFirst_append {α : Type} {p : α → Bool} {f : α → α} {before after : List α} {a : α}
    (hbefore : ∀ b ∈ before, p b = false) (ha : p a = true) :
    updateFirst p f (before ++ a :: after) = before ++ f a :: after := by
  induction before with
  | nil => exact if_pos ha
  | cons b before ih =>
    rw [List.cons_append, updateFirst, if_neg (by simp [hbefore b List.mem_cons_self]),
      ih fun c hmem => hbefore c (List.mem_cons_of_mem _ hmem), List.cons_append]

theorem pagesOf_of_getSegmentByName (h : getSegmentByName list tableName = some segment) :
    pagesOf list tableName = segment.page := by
  rw [pagesOf, h]
  rfl

theorem pagesOf_of_not_mem (h : tableName ∉ list.map MemorySegment.name) :
    pagesOf list tableName = [] := by
  rw [pagesOf, getSegmentByName_eq_none_iff.mpr h]
  rfl

theorem pagesOf_self (h : Named (before ++ segment :: after)) :
    pagesOf (before ++ segment :: after) segment.name = segment.page :=
  pagesOf_of_getSegmentByName (h.getSegmentByName (List.mem_append_right _ List.mem_cons_self))

theorem pagesOf_of_ne (h : tableName ≠ segment.name) :
    pagesOf (before ++ segment :: after) tableName = pagesOf (before ++ after) tableName := by
  simp [pagesOf, getSegmentByName, h.symm]

theorem mem_indexesOf_of_pagesOf (h : page ∈ pagesOf list tableName) :
    page.index ∈ indexesOf list := by
  rw [pagesOf] at h
  cases hsegment : getSegmentByName list tableName with
  | none => rw [hsegment] at h; exact absurd h List.not_mem_nil
  | some segment =>
    rw [hsegment] at h
    exact mem_indexesOf.mpr ⟨segment, (mem_of_getSegmentByName hsegment).1, page, h, rfl⟩

/-- An index belongs to one page of one segment. -/
theorem nodup_split {pages others : List Page}
    (h : (indexesOf (before ++ segment :: after)).Nodup)
    (hpages : segment.page = pages ++ page :: others) :
    page.index ∉ (pages ++ others).map Page.index ∧ page.index ∉ indexesOf (before ++ after) := by
  have hnodup := (indexesOf_split before after segment).nodup_iff.mp h
  rw [hpages, List.map_append, List.map_cons, List.append_assoc, List.cons_append] at hnodup
  have hnot := (List.nodup_cons.mp (List.perm_middle.nodup_iff.mp hnodup)).1
  rw [← List.append_assoc, ← List.map_append, List.mem_append, not_or] at hnot
  exact hnot

theorem eq_of_index_eq {other : Page} (h : (indexesOf list).Nodup) (hsegment : segment ∈ list)
    (hpage : page ∈ segment.page) (hsegment' : segment' ∈ list) (hother : other ∈ segment'.page)
    (hindex : page.index = other.index) : page = other := by
  refine List.inj_on_of_nodup_map h ?_ ?_ hindex
  · exact List.mem_flatMap.mpr ⟨segment, hsegment, hpage⟩
  · exact List.mem_flatMap.mpr ⟨segment', hsegment', hother⟩

end Segments

/-! ## What operations on pages show -/

section Shows
variable {node node' : MemoryNode} {view : View} {tableName : Bytes} {key : UInt16}
  {copy : Copy Record} {record : Record} {before after : List MemorySegment}
  {segment segment' : MemorySegment} {memory' : MainMemory}

theorem PageHolds.forall₂ {memory : MainMemory} {pages : List Page} {copies : List (Copy Record)}
    (h : List.Forall₂ (PageHolds memory) pages copies)
    (hsame : ∀ page ∈ pages, memory'.stringAt page.index.toNat = memory.stringAt page.index.toNat) :
    List.Forall₂ (PageHolds memory') pages copies := by
  induction h with
  | nil => exact .nil
  | cons hpage _ ih =>
    exact .cons (hpage.congr (hsame _ List.mem_cons_self))
      (ih fun page hmem => hsame page (List.mem_cons_of_mem _ hmem))

/-- A write to the memory that no page of a segment sees. -/
theorem Shows.memory (h : Shows node view)
    (hsame : ∀ index ∈ indexesOf node.segmentList,
      memory'.stringAt index.toNat = node.memory.stringAt index.toNat) :
    Shows { node with memory := memory' } view :=
  fun tableName => PageHolds.forall₂ (h tableName) fun _ hmem =>
  hsame _ (mem_indexesOf_of_pagesOf hmem)

/-- One segment has other pages. -/
theorem Shows.replace (h : Shows node view) (hnamed : Named node.segmentList)
    (hsplit : node.segmentList = before ++ segment :: after) {valueSize : Nat}
    (hname : segment'.name = segment.name) {copies : List (Copy Record)}
    (hsame : ∀ index ∈ indexesOf (before ++ after),
      memory'.stringAt index.toNat = node.memory.stringAt index.toNat)
    (hpages : List.Forall₂ (PageHolds memory') segment'.page copies) :
    Shows ⟨memory', before ++ segment' :: after, valueSize⟩
      (Function.update view segment.name copies) := by
  intro tableName
  rw [Function.update_apply]
  split
  · rename_i heq
    have hnamed' : Named (before ++ segment' :: after) := by
      refine hnamed.congr ?_
      rw [hsplit, List.map_append, List.map_append, List.map_cons, List.map_cons, hname]
    rw [heq, ← hname, pagesOf_self hnamed']
    exact hpages
  · rename_i hne
    have hold := h tableName
    rw [hsplit, pagesOf_of_ne hne] at hold
    rw [pagesOf_of_ne (hname ▸ hne)]
    exact PageHolds.forall₂ hold fun _ hmem => hsame _ (mem_indexesOf_of_pagesOf hmem)

/-- One segment is gone. -/
theorem Shows.remove (h : Shows node view) (hnamed : Named node.segmentList)
    (hsplit : node.segmentList = before ++ segment :: after) {valueSize : Nat}
    (hsame : ∀ index ∈ indexesOf (before ++ after),
      memory'.stringAt index.toNat = node.memory.stringAt index.toNat) :
    Shows ⟨memory', before ++ after, valueSize⟩ (Function.update view segment.name []) := by
  intro tableName
  rw [Function.update_apply]
  split
  · rename_i heq
    rw [heq, pagesOf_of_not_mem]
    · exact .nil
    · intro hmem
      obtain ⟨other, hother, hname⟩ := List.mem_map.mp hmem
      exact (hsplit ▸ hnamed).split hother hname
  · rename_i hne
    have hold := h tableName
    rw [hsplit, pagesOf_of_ne hne] at hold
    exact PageHolds.forall₂ hold fun _ hmem => hsame _ (mem_indexesOf_of_pagesOf hmem)

/-- The copies of the pages of a segment. -/
theorem Shows.segmentPages (h : Shows node view) (hnamed : Named node.segmentList)
    (hsplit : node.segmentList = before ++ segment :: after) :
    List.Forall₂ (PageHolds node.memory) segment.page (view segment.name) := by
  have hpages := h segment.name
  rw [hsplit] at hnamed hpages
  rwa [pagesOf_self hnamed] at hpages

/-- Splitting the pages of a segment splits its copies. -/
theorem forall₂_split {memory : MainMemory} {pages others : List Page} {page : Page}
    {copies : List (Copy Record)}
    (h : List.Forall₂ (PageHolds memory) (pages ++ page :: others) copies) :
    ∃ before copy after, copies = before ++ copy :: after ∧
      List.Forall₂ (PageHolds memory) pages before ∧ PageHolds memory page copy ∧
      List.Forall₂ (PageHolds memory) others after := by
  induction pages generalizing copies with
  | nil =>
    obtain ⟨copy, after, hpage, hothers, rfl⟩ := List.forall₂_cons_left_iff.mp h
    exact ⟨[], copy, after, rfl, .nil, hpage, hothers⟩
  | cons first pages ih =>
    obtain ⟨copy, rest, hfirst, hrest, rfl⟩ := List.forall₂_cons_left_iff.mp h
    obtain ⟨before, found, after, rfl, hpages, hpage, hothers⟩ := ih hrest
    exact ⟨copy :: before, found, after, rfl, .cons hfirst hpages, hpage, hothers⟩

theorem forall₂_exists {α β : Type} {r : α → β → Prop} {l : List α} {m : List β}
    (h : List.Forall₂ r l m) {a : α} (hmem : a ∈ l) : ∃ b ∈ m, r a b := by
  induction h with
  | nil => exact absurd hmem List.not_mem_nil
  | cons hfirst _ ih =>
    rcases List.mem_cons.mp hmem with rfl | hmem
    · exact ⟨_, List.mem_cons_self, hfirst⟩
    · obtain ⟨b, hb, hrel⟩ := ih hmem
      exact ⟨b, List.mem_cons_of_mem _ hb, hrel⟩

/-- Evicting a page that is not modified. -/
theorem WellFormed.eliminate_shows (h : WellFormed node) (hshows : Shows node view) {page : Page}
    (hpage : page ∈ getPagesByModified node.segmentList false)
    (hupper : toUppercase tableName = tableName)
    (hrun : eliminatePageInstanceByIndex node page.index tableName = some node') :
    ∃ view', view.Evicts view' ∧ Shows node' view' := by
  obtain ⟨hindex, hclean⟩ := mem_indexesOf_getPagesByModified hpage
  obtain ⟨before, found, after, pages, other, others, list, hsplit, hpages, hother, hrun', hlist⟩ :=
    h.eliminate_cases hindex hupper
  obtain rfl := Option.some.inj (hrun.symm.trans hrun')
  have hmem : found ∈ node.segmentList := hsplit ▸ List.mem_append_right _ List.mem_cons_self
  obtain ⟨segment, hsegment, hpage⟩ := List.mem_flatMap.mp hpage
  obtain rfl : other = page := eq_of_index_eq h.owns.nodup hmem
    (hpages ▸ List.mem_append_right _ List.mem_cons_self) hsegment (List.mem_filter.mp hpage).1
    hother
  obtain ⟨hpagesNot, hsegmentsNot⟩ := nodup_split (hsplit ▸ h.owns.nodup) hpages
  have hsame : ∀ index ∈ indexesOf node.segmentList, index ≠ other.index →
      (node.memory.strcpy other.index.toNat null).stringAt index.toNat =
        node.memory.stringAt index.toNat := by
    intro index hmem hne
    obtain ⟨i, hi, hequal⟩ := h.owns.aligned other.index hindex
    rw [hequal] at hne
    rw [hequal, Int.toNat_natCast,
      h.owns.stringAt_strcpy hi h.owns.formatted.room nul_not_mem_null hmem, if_neg hne]
  have hfound := hshows.segmentPages h.named hsplit
  rw [hpages] at hfound
  obtain ⟨copies, copy, rest, hview, hcopies, hcopy, hrest⟩ := forall₂_split hfound
  refine ⟨Function.update view found.name (copies ++ rest),
    ⟨found.name, copies, copy, rest, hview, hcopy.modified.symm.trans hclean, rfl⟩, ?_⟩
  have hsegments : ∀ index ∈ indexesOf (before ++ after),
      (node.memory.strcpy other.index.toNat null).stringAt index.toNat =
        node.memory.stringAt index.toNat := by
    intro index hmem
    refine hsame index ?_ fun heq => hsegmentsNot (heq ▸ hmem)
    rw [hsplit, (indexesOf_split before after found).mem_iff]
    exact List.mem_append_right _ hmem
  rcases hlist with ⟨rfl, -⟩ | ⟨rfl, hnil, -⟩
  · -- the segment stays, without the page
    refine @Shows.replace _ _ _ _ _ { found with page := pages ++ others } _ hshows h.named hsplit _
      rfl _ hsegments ?_
    refine PageHolds.forall₂ (List.rel_append hcopies hrest) fun page hmem => ?_
    refine hsame page.index ?_ fun heq => hpagesNot (heq ▸ List.mem_map_of_mem hmem)
    rw [hsplit, (indexesOf_split before after found).mem_iff, hpages]
    refine List.mem_append_left _ (List.mem_map_of_mem ?_)
    rw [List.mem_append] at hmem ⊢
    exact hmem.imp_right (List.mem_cons_of_mem _)
  · -- it was the last page, and the segment goes with it
    obtain ⟨rfl, rfl⟩ := List.append_eq_nil_iff.mp hnil
    obtain rfl := List.forall₂_nil_left_iff.mp hcopies
    obtain rfl := List.forall₂_nil_left_iff.mp hrest
    exact hshows.remove h.named hsplit hsegments

/-- A record that is written to a free frame. -/
theorem Vacant.write_shows (h : Vacant node tableName) (hshows : Shows node view) {i : Nat}
    (hi : i < node.memory.totalPageCount) (hfree : node.memory.page i = null)
    (hlegible : Legible record.value) (hnul : 0 ∉ record.value)
    (hlen : (convertToTkv record).length < node.memory.totalPageSize) (modified : Bool) :
    Shows { node with
        memory := node.memory.strcpy (i * node.memory.totalPageSize) (convertToTkv record) }
        view ∧
      PageHolds (node.memory.strcpy (i * node.memory.totalPageSize) (convertToTkv record))
        ⟨(i * node.memory.totalPageSize : Nat), modified⟩ ⟨record, modified⟩ := by
  have hnulText : 0 ∉ convertToTkv record := nul_not_mem_tkvText _ _ hnul
  refine ⟨hshows.memory fun index hmem => ?_, rfl, ?_, hlegible⟩
  · rw [h.owns.stringAt_strcpy hi hlen hnulText hmem, if_neg]
    rintro rfl
    exact (h.owns.free_iff i hi).mp hfree hmem
  · have hpage := (h.owns.formatted.strcpy hi hlen hnulText).2 i hi
    rw [if_pos rfl] at hpage
    rw [Int.toNat_natCast]
    exact hpage

/-- A page that is listed. -/
theorem Unlisted.listAdd_shows {listing : Listing} (h : Unlisted node listing)
    (hshows : Shows node view) (hpage : PageHolds node.memory listing.page copy)
    (hadd : Lissandra.listAdd node listing = some node') :
    Shows node' (view.add listing.tableName copy) := by
  rw [Lissandra.listAdd] at hadd
  cases hcase : listing.fresh with
  | true =>
    rw [if_pos hcase] at hadd
    obtain rfl := Option.some.inj hadd
    have hnone := h.fresh.mp hcase
    have hview : view listing.tableName = [] := by
      have hpages := hshows listing.tableName
      rw [pagesOf_of_not_mem hnone] at hpages
      exact List.forall₂_nil_left_iff.mp hpages
    have hnamed := h.named.add (h.upper.symm ▸ getSegmentByName_eq_none_iff.mpr hnone) listing.page
    intro tableName
    rw [View.add, Function.update_apply, hview, List.nil_append]
    have hname : (createSegment listing.tableName listing.page).name = listing.tableName := h.upper
    split
    · rename_i heq
      rw [heq]
      have hself := pagesOf_self hnamed
      rw [hname] at hself
      rw [hself]
      exact .cons hpage .nil
    · rename_i hne
      rw [pagesOf_of_ne (hname.symm ▸ hne), List.append_nil]
      exact hshows tableName
  | false =>
    obtain ⟨segment, hget⟩ := h.getSegmentByName hcase
    simp only [hcase, Bool.false_eq_true, if_false, hget, Option.bind_eq_bind,
      Option.bind_some] at hadd
    obtain rfl := Option.some.inj hadd
    obtain ⟨before, after, hsplit, -, hname, hupdate, -⟩ := updateFirst_of_find?
      (fun segment => { segment with page := segment.page ++ [listing.page] }) hget
    have hsegmentName : segment.name = listing.tableName := of_decide_eq_true hname
    rw [addPage, hupdate, View.add, ← hsegmentName]
    refine @Shows.replace _ _ _ _ _ { segment with page := segment.page ++ [listing.page] } _ hshows
      h.named hsplit _ rfl _ (fun _ _ => rfl) ?_
    exact List.rel_append (hshows.segmentPages h.named hsplit) (.cons hpage .nil)

/-- A copy gets a page of its own: perhaps another one leaves the view for it, the page is
written, and then it is listed. -/
structure NewPage (node : MemoryNode) (view : View) (tableName : Bytes) (copy : Copy Record)
    (written : MemoryNode) (listing : Listing) (listed : MemoryNode) (view₁ : View) : Prop where
  evicts : view₁ = view ∨ view.Evicts view₁
  unlisted : Unlisted written listing
  name : listing.tableName = tableName
  writtenShows : Shows written view₁
  holds : PageHolds written.memory listing.page copy
  writtenSizes : SameSizes node written
  listAdd : Lissandra.listAdd written listing = some listed
  wellFormed : WellFormed listed
  sizes : SameSizes node listed
  shows : Shows listed (view₁.add tableName copy)

/-- A journal is needed, or the record gets a page. -/
theorem WellFormed.writePage_shows (h : WellFormed node) (hshows : Shows node view)
    {value : CString} {timestamp : Int64} (hlegible : Legible value.bytes) {modified : Bool}
    {postsFirst : Bool → Bool} (hupper : toUppercase tableName = tableName)
    (hlen : (memoryText timestamp key.toNat value.bytes).length < node.memory.totalPageSize) :
    Lissandra.writePage node timestamp key.toNat value modified tableName postsFirst =
        some (.journaling ⟨tableName, timestamp, key.toNat, value, modified⟩) ∨
    ∃ written listing listed view₁,
      NewPage node view tableName ⟨⟨timestamp, key, value.bytes⟩, modified⟩ written listing listed
      view₁ ∧ (Lissandra.writePage node timestamp key.toNat value modified tableName postsFirst =
          some (.listing written listing) ∨
        Lissandra.writePage node timestamp key.toNat value modified tableName postsFirst =
          some (.finished listed)) := by
  rcases h.writePage_cases hupper hlen with hwrite | ⟨vacant, i, hvacant, hvacantNode, hsizes₁, hi,
    hnull, written, listing, node', rfl, rfl, hunlisted, hadd, hsizesWritten, hwell, hsizes, hwrite⟩
  · exact Or.inl hwrite
  · obtain ⟨view₁, hview₁, hshows₁⟩ : ∃ view₁, (view₁ = view ∨ view.Evicts view₁) ∧
      Shows vacant view₁ := by
      rcases hvacant with rfl | ⟨page, hpage, hrun⟩
      · exact ⟨view, Or.inl rfl, hshows⟩
      · obtain ⟨view₁, hevicts, hshows₁⟩ := h.eliminate_shows hshows hpage hupper hrun
        exact ⟨view₁, Or.inr hevicts, hshows₁⟩
    rw [memoryText_eq] at hlen hunlisted hadd hwrite hsizesWritten
    obtain ⟨hshowsWritten, hholds⟩ := @Vacant.write_shows vacant view₁ tableName
      ⟨timestamp, key, value.bytes⟩ hvacantNode hshows₁ i hi hnull hlegible value.noNul
      (hsizes₁.totalPageSize ▸ hlen) modified
    exact Or.inr ⟨_, _, node', view₁,
      ⟨hview₁, hunlisted, rfl, hshowsWritten, hholds, hsizesWritten, hadd, hwell, hsizes,
        hunlisted.listAdd_shows hshowsWritten hholds hadd⟩, hwrite⟩

/-! ## Looking for a key -/

/-- The first page of a key is the first copy of it. -/
theorem findKey_of_holds {memory : MainMemory} {pages : List Page} {copies : List (Copy Record)}
    (h : List.Forall₂ (PageHolds memory) pages copies) (key : UInt16) :
    (∀ copy ∈ copies, copy.record.key ≠ key) ∧ findKey memory key.toNat (pages.map Page.index) =
      some none ∨
    ∃ before page others, pages = before ++ page :: others ∧
      (∀ other ∈ before, other.index ≠ page.index) ∧
      findKey memory key.toNat (pages.map Page.index) = some (some page.index) ∧
      ∃ front copy back, copies = front ++ copy :: back ∧
      List.Forall₂ (PageHolds memory) before front ∧
        PageHolds memory page copy ∧ List.Forall₂ (PageHolds memory) others back ∧
        copy.record.key = key ∧ ∀ other ∈ front, other.record.key ≠ key := by
  induction h with
  | nil => exact Or.inl ⟨fun _ hmem => absurd hmem List.not_mem_nil, rfl⟩
  | @cons page copy pages copies hpage hpages ih =>
    have hkey := hpage.key_iff key
    by_cases hfound : copy.record.key = key
    · refine Or.inr ⟨[], page, pages, rfl, fun _ hmem => absurd hmem List.not_mem_nil, ?_, [], copy,
        copies, rfl, .nil, hpage, hpages, hfound, fun _ hmem => absurd hmem List.not_mem_nil⟩
      rw [List.map_cons, findKey, hkey.mpr hfound, Option.bind_eq_bind, Option.bind_some,
        if_pos rfl]
    · have hnext : findKey memory key.toNat ((page :: pages).map Page.index) =
          findKey memory key.toNat (pages.map Page.index) := by
        have hcomparator := hpage.mainMemoryValues .key
        rw [List.map_cons, findKey, hcomparator, Option.bind_eq_bind, Option.bind_some, if_neg]
        intro heq
        exact hfound (hkey.mp (hcomparator.trans (congrArg some heq)))
      rw [hnext]
      rcases ih with ⟨hall, hnone⟩ |
        ⟨before, found, others, rfl, hbefore, hsome, front, first, back, rfl, hfront, hfirst, hback,
          hfirstKey, hothers⟩
      · refine Or.inl ⟨fun other hmem => ?_, hnone⟩
        rcases List.mem_cons.mp hmem with rfl | hmem
        · exact hfound
        · exact hall other hmem
      · refine Or.inr ⟨page :: before, found, others, rfl, fun other hmem => ?_, hsome,
          copy :: front, first, back, rfl, .cons hpage hfront, hfirst, hback, hfirstKey,
          fun other hmem => ?_⟩
        · rcases List.mem_cons.mp hmem with rfl | hmem
          · intro heq
            have hsame := hfirst.key_iff key
            rw [← heq, hkey] at hsame
            exact hfound (hsame.mpr hfirstKey)
          · exact hbefore other hmem
        · rcases List.mem_cons.mp hmem with rfl | hmem
          · exact hfound
          · exact hothers other hmem

/-- `get_segment_by_name` and `get_page_by_key` find the first copy. -/
theorem Shows.findPage_cases (hshows : Shows node view) (tableName : Bytes) (key : UInt16) :
    view.of tableName key = [] ∧ findPage node tableName key.toNat = some none ∨
    ∃ segment page copy before others front back,
      findPage node tableName key.toNat = some (some (segment, page)) ∧
      getSegmentByName node.segmentList tableName = some segment ∧
      segment.page = before ++ page :: others ∧ (∀ other ∈ before, other.index ≠ page.index) ∧
      view tableName = front ++ copy :: back ∧ List.Forall₂ (PageHolds node.memory) before front ∧
      PageHolds node.memory page copy ∧ List.Forall₂ (PageHolds node.memory) others back ∧
      copy.record.key = key ∧ (∀ other ∈ front, other.record.key ≠ key) ∧
      (view.of tableName key).head? = some copy := by
  have hpages := hshows tableName
  rw [findPage]
  cases hsegment : getSegmentByName node.segmentList tableName with
  | none =>
    rw [pagesOf, hsegment] at hpages
    have hnil : view tableName = [] := List.forall₂_nil_left_iff.mp hpages
    exact Or.inl ⟨by rw [View.of, hnil, List.filter_nil], rfl⟩
  | some segment =>
    rw [pagesOf_of_getSegmentByName hsegment] at hpages
    rcases findKey_of_holds hpages key with ⟨hall, hnone⟩ | ⟨before, page, others, hsplit, hbefore,
      hsome, front, copy, back, hview, hfront, hcopy, hback, hkey, hothers⟩
    · refine Or.inl ⟨List.filter_eq_nil_iff.mpr fun copy hmem => by simpa using hall copy hmem, ?_⟩
      simp only [getPageByKey, hnone]
      rfl
    · refine Or.inr ⟨segment, page, copy, before, others, front, back, ?_, rfl, hsplit, hbefore,
        hview, hfront, hcopy, hback, hkey, hothers, ?_⟩
      · have hfind : segment.page.find? (fun other => other.index = page.index) = some page := by
          rw [hsplit, List.find?_append, List.find?_eq_none.mpr fun other hmem => by
            simpa using hbefore other hmem, Option.none_or, List.find?_cons_of_pos (by simp)]
        simp only [getPageByKey, hsome]
        simp [hfind]
      · have hnil : front.filter (fun copy => copy.record.key = key) = [] :=
          List.filter_eq_nil_iff.mpr fun other hmem => by simpa using hothers other hmem
        rw [View.of, hview, List.filter_append, hnil, List.filter_cons_of_pos (by simpa using hkey)]
        rfl

theorem Shows.findPage_eq_none_iff (hshows : Shows node view) (tableName : Bytes) (key : UInt16) :
    findPage node tableName key.toNat = some none ↔ view.of tableName key = [] := by
  rcases hshows.findPage_cases tableName key with ⟨hnil, hfind⟩ |
    ⟨segment, page, copy, _, _, _, _, hfind, -, -, -, -, -, -, -, -, -, hhead⟩
  · exact ⟨fun _ => hnil, fun _ => hfind⟩
  · refine ⟨fun hnone => absurd (hfind.symm.trans hnone) (by simp), fun hnil => ?_⟩
    rw [hnil] at hhead
    exact absurd hhead (by simp)

theorem Shows.writtenRecord_of_miss (hshows : Shows node view) (now later : Int64)
    {input : InsertInput} (hmiss : view.of (toUppercase input.tableName.bytes) input.key = []) :
    writtenRecord node now later input = ⟨now, input.key, input.value.bytes⟩ := by
  rw [writtenRecord, if_pos ((hshows.findPage_eq_none_iff _ _).mpr hmiss)]

theorem Shows.writtenRecord_of_hit (hshows : Shows node view) (now later : Int64)
    {input : InsertInput} (hhit : view.of (toUppercase input.tableName.bytes) input.key ≠ []) :
    writtenRecord node now later input = ⟨later, input.key, input.value.bytes⟩ := by
  rw [writtenRecord, if_neg (mt (hshows.findPage_eq_none_iff _ _).mp hhit)]

/-- Writing over the page that was found. -/
theorem WellFormed.modifyPage_shows (h : WellFormed node) (hshows : Shows node view) {now : Int64}
    {value : CString} (hlegible : Legible value.bytes)
    (hlen : (memoryText now key.toNat value.bytes).length < node.memory.totalPageSize) {page : Page}
    (hfind : findPage node tableName key.toNat = some (some (segment, page))) :
    ∃ node' view', node' = Lissandra.modifyPage node now segment.name page key.toNat value.bytes ∧
      WellFormed node' ∧ SameSizes node node' ∧
      view.Writes tableName ⟨now, key, value.bytes⟩ view' ∧ Shows node' view' := by
  rcases hshows.findPage_cases tableName key with ⟨-, hnone⟩ |
    ⟨found, foundPage, copy, pages, others, front, back, hfind', hsegment, hpages, hbefore, hview,
      hfront, hcopy, hback, hkey, hothers, -⟩
  · exact absurd (hfind.symm.trans hnone) (by simp)
  obtain ⟨rfl, rfl⟩ := Prod.mk.inj (Option.some.inj (Option.some.inj (hfind.symm.trans hfind')))
  obtain ⟨hmem, hname⟩ := mem_of_getSegmentByName hsegment
  have hpage : page ∈ segment.page := hpages ▸ List.mem_append_right _ List.mem_cons_self
  refine ⟨_, Function.update view tableName (front ++ ⟨⟨now, key, value.bytes⟩, true⟩ :: back), rfl,
    h.modifyPage hmem hpage hlen, ⟨rfl, rfl, rfl⟩,
    ⟨front, copy, back, hview, hkey, hothers, rfl⟩, ?_⟩
  have hindex : page.index ∈ indexesOf node.segmentList :=
    mem_indexesOf.mpr ⟨segment, hmem, page, hpage, rfl⟩
  obtain ⟨i, hi, haligned⟩ := h.owns.aligned page.index hindex
  have hnul : 0 ∉ memoryText now key.toNat value.bytes := nul_not_mem_memoryText _ _ value.noNul
  -- the new text stands at the page, and the frames of all other pages are as they were
  have hwritten : ∀ index ∈ indexesOf node.segmentList,
      (modifyMemoryByIndex node.memory now page.index key.toNat value.bytes).stringAt index.toNat =
        if index = page.index then memoryText now key.toNat value.bytes
        else node.memory.stringAt index.toNat := by
    intro index hmem
    rw [modifyMemoryByIndex, haligned, Int.toNat_natCast]
    exact h.owns.stringAt_strcpy hi hlen hnul hmem
  let modify : MemorySegment → MemorySegment := fun segment =>
    { segment with
      page := updateFirst (fun other => other.index = page.index)
        (fun page => { page with modified := true }) segment.page }
  rw [hname]
  obtain ⟨before, after, hsplit, -, -, hupdate, -⟩ := updateFirst_of_find? modify hsegment
  obtain ⟨hpagesNot, hsegmentsNot⟩ := nodup_split (hsplit ▸ h.owns.nodup) hpages
  -- page indexes differ, so only the page that was found is marked
  have hmodify : (modify segment).page = pages ++ { page with modified := true } :: others := by
    change updateFirst _ _ segment.page = _
    rw [hpages]
    exact updateFirst_append (fun other hmem => by simpa using hbefore other hmem) (by simp)
  have hinside : ∀ other ∈ pages ++ others, other.index ∈ indexesOf node.segmentList := by
    intro other hother
    refine mem_indexesOf.mpr ⟨segment, hmem, other, ?_, rfl⟩
    rw [hpages]
    rw [List.mem_append] at hother ⊢
    exact hother.imp_right (List.mem_cons_of_mem _)
  change Shows ⟨_, updateFirst _ modify node.segmentList, _⟩ _
  rw [hupdate, ← hname]
  refine @Shows.replace _ _ _ _ _ (modify segment) _ hshows h.named hsplit _ rfl _
    (fun index hmem => ?_) ?_
  -- pages of other segments, and then those of this one
  · have hne : index ≠ page.index := fun heq => hsegmentsNot (heq ▸ hmem)
    rw [hwritten index, if_neg hne]
    rw [hsplit, (indexesOf_split before after segment).mem_iff]
    exact List.mem_append_right _ hmem
  · have hsame : ∀ other ∈ pages ++ others,
        (modifyMemoryByIndex node.memory now page.index key.toNat value.bytes).stringAt
        other.index.toNat =
          node.memory.stringAt other.index.toNat := by
      intro other hother
      have hne : other.index ≠ page.index := fun heq => hpagesNot (heq ▸ List.mem_map_of_mem hother)
      rw [hwritten other.index (hinside other hother), if_neg hne]
    rw [hmodify]
    refine List.rel_append (PageHolds.forall₂ hfront fun other hmem => hsame other ?_)
      (.cons ⟨rfl, ?_, hlegible⟩ (PageHolds.forall₂ hback fun other hmem => hsame other ?_))
    · exact List.mem_append_left _ hmem
    · rw [hwritten page.index hindex, if_pos rfl]
      exact memoryText_eq now key value.bytes
    · exact List.mem_append_right _ hmem

/-! ## SELECT, journals and the end of all pages -/

/-- The first copy of the key, or a miss. -/
theorem Shows.processSelect_eq (hshows : Shows node view) (input : SelectInput) :
    processSelect node input = some
      (match (view.of (toUppercase input.tableName.bytes) input.key).head? with
      | some copy => .hit (toUppercase input.tableName.bytes) copy.record.found
      | none => .miss) := by
  rw [processSelect]
  rcases hshows.findPage_cases (toUppercase input.tableName.bytes) input.key with ⟨hnil, hfind⟩ |
    ⟨segment, page, copy, _, _, _, _, hfind, hsegment, -, -, -, -, hcopy, -, -, -, hhead⟩
  · rw [hfind, hnil]
    rfl
  · rw [hfind, hhead, Option.bind_eq_bind, Option.bind_some]
    simp only [hcopy.pageRecord, Option.map_some, (mem_of_getSegmentByName hsegment).2]

/-- A loop without a `NULL`. -/
theorem mapM_eq_some {α β : Type} {f : α → Option β} {g : α → β} {l : List α}
    (h : ∀ a ∈ l, f a = some (g a)) : l.mapM f = some (l.map g) := by
  induction l with
  | nil => rfl
  | cons a l ih =>
    rw [List.mapM_cons, h a List.mem_cons_self, ih fun b hmem => h b (List.mem_cons_of_mem _ hmem)]
    rfl

/-- The name of a segment, for one of its indexes. -/
theorem getTableNameByIndex_of_mem (hnodup : (indexesOf node.segmentList).Nodup)
    (hmem : segment ∈ node.segmentList) {page : Page} (hpage : page ∈ segment.page) :
    getTableNameByIndex node.segmentList page.index = some segment.name := by
  have hindex : page.index ∈ indexesOf node.segmentList :=
    mem_indexesOf.mpr ⟨segment, hmem, page, hpage, rfl⟩
  obtain ⟨found, hfound⟩ := getSegmentByIndexGlobal_isSome hindex
  rw [getTableNameByIndex, hfound, Option.map_some]
  obtain ⟨before, after, hsplit, -, hany, -, -⟩ := updateFirst_of_find? id hfound
  obtain ⟨other, hother, hotherIndex⟩ := List.any_eq_true.mp hany
  have hsame : other.index = page.index := of_decide_eq_true hotherIndex
  rcases mem_split.mp (hsplit ▸ hmem) with rfl | hmem
  · rfl
  · -- The index would belong to two segments.
    obtain ⟨pages, others, hpages⟩ := List.append_of_mem hother
    have hnot := (nodup_split (hsplit ▸ hnodup) hpages).2
    rw [hsame] at hnot
    exact absurd (mem_indexesOf.mpr ⟨segment, hmem, page, hpage, rfl⟩) hnot

/-- **The batch of a journal** has the modified copies. -/
theorem Shows.journalBatch (hshows : Shows node view) (hnamed : Named node.segmentList)
    (hnodup : (indexesOf node.segmentList).Nodup) :
    ∃ batch, Lissandra.journalBatch node = some batch ∧
      ∀ tableName record, (tableName, record) ∈ batch ↔ ⟨record, true⟩ ∈ view tableName := by
  have hcopies : ∀ segment ∈ node.segmentList,
      List.Forall₂ (PageHolds node.memory) segment.page (view segment.name) := by
    intro segment hmem
    obtain ⟨before, after, hsplit⟩ := List.append_of_mem hmem
    exact hshows.segmentPages hnamed hsplit
  -- The line of the batch for one index.
  let line : Int → Option (Bytes × Record) := fun index => do
    let timestamp ← mainMemoryValues node.memory index .timestamp
    let key ← mainMemoryValues node.memory index .key
    let value ← mainMemoryValues node.memory index .value
    let tableName ← getTableNameByIndex node.segmentList index
    some (tableName, ⟨strtoll timestamp, stringToUint16 key, value⟩)
  have hline : ∀ segment ∈ node.segmentList, ∀ page ∈ segment.page, ∀ copy,
      PageHolds node.memory page copy → line page.index = some (segment.name, copy.record) := by
    intro segment hmem page hpage copy hcopy
    simp only [line, hcopy.mainMemoryValues, Option.bind_eq_bind, Option.bind_some,
      getTableNameByIndex_of_mem hnodup hmem hpage, strtoll_printInt, stringToUint16_printInt]
  have hsome : ∀ index ∈ (getPagesByModified node.segmentList true).map Page.index,
      line index = some ((line index).getD ([], ⟨0, 0, []⟩)) := by
    intro index hmem
    obtain ⟨page, hpage, rfl⟩ := List.mem_map.mp hmem
    obtain ⟨segment, hsegment, hpage⟩ := List.mem_flatMap.mp hpage
    obtain ⟨copy, -, hcopy⟩ := forall₂_exists (hcopies segment hsegment)
      (List.mem_filter.mp hpage).1
    rw [hline segment hsegment page (List.mem_filter.mp hpage).1 copy hcopy]
    rfl
  refine ⟨_, mapM_eq_some hsome, fun tableName record => ?_⟩
  rw [List.map_map, List.mem_map]
  constructor
  · rintro ⟨page, hpage, heq⟩
    obtain ⟨segment, hsegment, hpage⟩ := List.mem_flatMap.mp hpage
    obtain ⟨hpage, hmodified⟩ := List.mem_filter.mp hpage
    obtain ⟨copy, hmem, hcopy⟩ := forall₂_exists (hcopies segment hsegment) hpage
    rw [Function.comp_apply, hline segment hsegment page hpage copy hcopy, Option.getD_some] at heq
    obtain ⟨rfl, rfl⟩ := Prod.mk.inj heq
    have htrue : copy.modified = true := hcopy.modified.symm.trans (of_decide_eq_true hmodified)
    rwa [← htrue]
  · intro hmem
    have hpages := hshows tableName
    obtain ⟨page, hpageOf, hcopy⟩ := forall₂_exists hpages.flip hmem
    obtain ⟨segment, hsegment, rfl, hpage⟩ : ∃ segment ∈ node.segmentList,
      segment.name = tableName ∧
        page ∈ segment.page := by
      rw [pagesOf] at hpageOf
      cases hget : getSegmentByName node.segmentList tableName with
      | none => rw [hget] at hpageOf; exact absurd hpageOf List.not_mem_nil
      | some segment =>
        rw [hget] at hpageOf
        exact ⟨segment, (mem_of_getSegmentByName hget).1, (mem_of_getSegmentByName hget).2, hpageOf⟩
    have hcopy : PageHolds node.memory page ⟨record, true⟩ := hcopy
    refine ⟨page, List.mem_flatMap.mpr ⟨segment, hsegment, List.mem_filter.mpr
      ⟨hpage, decide_eq_true hcopy.modified⟩⟩, ?_⟩
    rw [Function.comp_apply, hline segment hsegment page hpage _ hcopy, Option.getD_some]

/-- No pages show no copies. -/
theorem shows_empty (h : node.segmentList = []) : Shows node View.empty := by
  intro tableName
  rw [h]
  exact .nil

/-! ## Sections -/

/-- What the section of `process_insert` does to the view. -/
theorem WellFormed.insertSection_shows (h : WellFormed node) (hshows : Shows node view)
    {now later : Int64} {input : InsertInput} (hlegible : Legible input.value.bytes)
    (hfits : (NodeOp.processInsert now later input).Fits node) :
    Lissandra.insertSection node now later input = some none ∨
    (∃ node' view', Lissandra.insertSection node now later input = some (some (.finished node')) ∧
      WellFormed node' ∧ SameSizes node node' ∧
      view.Writes (toUppercase input.tableName.bytes) ⟨later, input.key, input.value.bytes⟩ view' ∧
      Shows node' view') ∨
    view.of (toUppercase input.tableName.bytes) input.key = [] ∧
      (Lissandra.insertSection node now later input = some (some (.journaling
          ⟨toUppercase input.tableName.bytes, now, input.key.toNat, input.value, true⟩)) ∨
        ∃ written listing listed view₁,
          NewPage node view (toUppercase input.tableName.bytes)
            ⟨⟨now, input.key, input.value.bytes⟩, true⟩ written listing listed view₁ ∧
          (Lissandra.insertSection node now later input = some (some (.listing written listing)) ∨
            Lissandra.insertSection node now later input = some (some (.finished listed)))) := by
  simp only [Lissandra.insertSection]
  by_cases hlen : input.value.bytes.length ≤ node.valueSize
  · rw [if_pos hlen]
    rcases hshows.findPage_cases (toUppercase input.tableName.bytes) input.key with ⟨hnil, hfind⟩ |
      ⟨segment, page, _, _, _, _, _, hfind, -⟩
    · rw [hfind, Option.bind_eq_bind, Option.bind_some]
      refine Or.inr (Or.inr ⟨hnil, ?_⟩)
      rcases h.writePage_shows hshows hlegible (toUppercase_toUppercase input.tableName.bytes)
        hfits.1.2 with hwrite | ⟨written, listing, listed, view₁, hnew, hwrite⟩
      · exact Or.inl (by rw [hwrite]; rfl)
      · refine Or.inr ⟨written, listing, listed, view₁, hnew, hwrite.imp ?_ ?_⟩
        · exact fun hwrite => by rw [hwrite]; rfl
        · exact fun hwrite => by rw [hwrite]; rfl
    · rw [hfind, Option.bind_eq_bind, Option.bind_some]
      obtain ⟨node', view', rfl, hwell, hsizes, hwrites, hshows'⟩ :=
        h.modifyPage_shows hshows hlegible hfits.2.2 hfind
      exact Or.inr (Or.inl ⟨_, view', rfl, hwell, hsizes, hwrites, hshows'⟩)
  · rw [if_neg hlen]
    exact Or.inl rfl

/-- What the section of `select_callback` does to the view, for an answer with a record. -/
theorem WellFormed.selectCallback_shows (h : WellFormed node) (hshows : Shows node view)
    {result : RecordT} (hresult : ¬(result.timestamp = -1 ∨ result.timestamp = -2))
    (hkey : result.key.toInt = key.toNat) (hlegible : Legible result.value.bytes)
    (hfits : (NodeOp.selectCallback (some result)).Fits node) :
    Lissandra.selectCallback node (some result) = some (some (.journaling
        ⟨toUppercase result.tableName.bytes, result.timestamp, key.toNat, result.value, false⟩)) ∨
    ∃ written listing listed view₁,
      NewPage node view (toUppercase result.tableName.bytes)
        ⟨⟨result.timestamp, key, result.value.bytes⟩, false⟩ written listing listed view₁ ∧
      (Lissandra.selectCallback node (some result) = some (some (.listing written listing)) ∨
        Lissandra.selectCallback node (some result) = some (some (.finished listed))) := by
  have hlen : (memoryText result.timestamp key.toNat result.value.bytes).length <
      node.memory.totalPageSize := hkey ▸ hfits.2
  obtain ⟨found, hfind⟩ : ∃ found, findPage node (toUppercase result.tableName.bytes) key.toNat =
      some found := by
    rcases hshows.findPage_cases (toUppercase result.tableName.bytes) key with ⟨-, hfind⟩ |
      ⟨segment, page, _, _, _, _, _, hfind, -⟩
    · exact ⟨_, hfind⟩
    · exact ⟨_, hfind⟩
  simp only [Lissandra.selectCallback, if_neg hresult, hkey, hfind, Option.bind_eq_bind,
    Option.bind_some]
  rcases h.writePage_shows hshows hlegible (toUppercase_toUppercase result.tableName.bytes)
    hlen with
    hwrite | ⟨written, listing, listed, view₁, hnew, hwrite⟩
  · exact Or.inl (by rw [hwrite]; rfl)
  · refine Or.inr ⟨written, listing, listed, view₁, hnew, hwrite.imp ?_ ?_⟩
    · exact fun hwrite => by rw [hwrite]; rfl
    · exact fun hwrite => by rw [hwrite]; rfl

/-- The view after a journal that succeeded: the record that waited for it. -/
def registerView : Option JournalRegister → UInt16 → View
  | none, _ => View.empty
  | some reg, key =>
    View.empty.add reg.tableName ⟨⟨reg.timestamp, key, reg.value.bytes⟩, reg.modified⟩

/-- `journal_callback` after a success. -/
theorem WellFormed.journalCallback_success (h : WellFormed node) {register : Option JournalRegister}
    (hregister : ∀ reg ∈ register, reg.key = key.toNat ∧ toUppercase reg.tableName = reg.tableName ∧
      Legible reg.value.bytes ∧
      Fits node.memory (memoryText reg.timestamp key.toNat reg.value.bytes)) :
    ∃ node', Lissandra.journalCallback node (some 0) register = some node' ∧ WellFormed node' ∧
      SameSizes node node' ∧ Shows node' (registerView register key) := by
  obtain ⟨node₁, hdelete, hwell, hempty, hsizes⟩ := h.deleteAllSegments
  cases register with
  | none =>
    refine ⟨node₁, ?_, hwell, hsizes, shows_empty hempty⟩
    rw [Lissandra.journalCallback, if_pos rfl, hdelete]
    rfl
  | some reg =>
    obtain ⟨hkey, hupper, hlegible, hcount, hlen⟩ := hregister reg rfl
    rw [← hsizes.totalPageCount] at hcount
    rw [← hsizes.totalPageSize] at hlen
    have hfree : memoryFull node₁.memory = false := by
      refine memoryFull_iff.mpr ⟨0, hcount, (hwell.owns.free_iff 0 hcount).mpr ?_⟩
      rw [hempty]
      exact List.not_mem_nil
    have hfresh : true = true ↔ reg.tableName ∉ node₁.segmentList.map MemorySegment.name := by
      rw [hempty]
      simp
    have hvacant := hwell.vacant hfree reg.tableName
    obtain ⟨i, hi, hnull, hinsert, hunlisted⟩ := hvacant.write hupper hfresh reg.modified hlen
    rw [memoryText_eq] at hlen hinsert hunlisted
    obtain ⟨hshows, hholds⟩ := @Vacant.write_shows node₁ View.empty reg.tableName
      ⟨reg.timestamp, key, reg.value.bytes⟩ hvacant (shows_empty hempty) i hi hnull hlegible
      reg.value.noNul hlen reg.modified
    obtain ⟨node', hadd, hwell', hsizes'⟩ := hunlisted.listAdd
    have hshows' := hunlisted.listAdd_shows hshows hholds hadd
    refine ⟨node', ?_, hwell', hsizes.trans ⟨hsizes'.1, hsizes'.2, hsizes'.3⟩, hshows'⟩
    rw [journalCallback_success_some hdelete, hkey, hinsert, ← hadd]
    rfl

end Shows

end Lissandra
