import Lissandra.Eviction

/-! # A new maximum value size

When the filesystem answers with another value size `get_value_callback` computes the sizes of
the pages anew and starts a journal, while the pages stay where they are: a page is found by its
byte offset, so the journal reads the old ones and its success writes `null` at their old starts.
Nobody writes `null` at the starts of the new pages.  Whether these read as free depends on what
happens to be there (`survivesChange_iff`).
-/
namespace Lissandra

/-! ## The change -/

/-- `g_value_size`, as `strlen` is compared with it. -/
def valueBound (value : Int32) : Nat := (value.toInt % 2 ^ 64).toNat

/-- `g_total_page_size` for this value size at this time. -/
def totalPageSizeOf (value : Int32) (now : Nat) : Int32 :=
  Int32.ofNat (digitsInANumber 65535) + Int32.ofNat (digitsInANumber now) + value + 3

/-- `g_total_page_count` for this value size at this time.  With a negative one no loop over the
pages is entered. -/
def totalPageCountOf (memorySize : Nat) (value : Int32) (now : Nat) : Nat :=
  ((memorySize : Int).tdiv (totalPageSizeOf value now).toInt).toNat

/-- Other sizes over the same bytes and pages. -/
def MemoryNode.withSizes (node : MemoryNode) (totalPageSize totalPageCount valueSize : Nat) :
    MemoryNode :=
  ⟨⟨node.memory.bytes, totalPageSize, totalPageCount⟩, node.segmentList, valueSize⟩

/-- `get_value_callback` in a memory that is set up, up to the journal: `none` is the `exit`, or a
division by zero. -/
def getValueCallbackAgain (node : MemoryNode) (value : Int32) (now : Nat) : Option MemoryNode :=
  if valueBound value = node.valueSize then some node
  else if (node.memory.bytes.length : Int) < (value + 21).toInt then none
  else if totalPageSizeOf value now = 0 then none
  else some (node.withSizes (totalPageSizeOf value now).toInt.toNat
    (totalPageCountOf node.memory.bytes.length value now) (valueBound value))

/-- A new value size for a memory that is set up, with which `get_value_callback` does not exit. -/
structure AcceptsValue (node : MemoryNode) (value : Int32) : Prop where
  initialized : node.valueSize ≠ valueBound (-1)
  changed : valueBound value ≠ node.valueSize
  fits : (value + 21).toInt ≤ node.memory.bytes.length

/-- A memory without segments whose frames are all free. -/
structure EmptyMemory (node : MemoryNode) : Prop where
  segments : node.segmentList = []
  frames : ∀ i < node.memory.totalPageCount, node.memory.page i = null
  notFull : memoryFull node.memory = false
  inserts : ∀ timestamp key value, ∃ i < node.memory.totalPageCount,
    (memoryInsert node.memory timestamp key value).2 = (i * node.memory.totalPageSize : Nat)

/-- After the change, and the journal that succeeds, the memory is empty. -/
def SurvivesChange (node : MemoryNode) (value : Int32) (now : Nat) : Prop :=
  ∃ changed node', getValueCallbackAgain node value now = some changed ∧
    journalCallback changed (some 0) none = some node' ∧ EmptyMemory node'

/-- A string that starts here reads `null` once the old pages are freed: an old page starts here,
or the string is there already and freeing an old page does not cut it. -/
def ReadsFree (memory : MainMemory) (offset : Nat) : Prop :=
  (∃ k < memory.totalPageCount, offset = k * memory.totalPageSize) ∨
    (memory.stringAt offset = null ∧
      ∀ k < memory.totalPageCount, ¬ (k * memory.totalPageSize < offset ∧
        offset < k * memory.totalPageSize + 5))

instance (memory : MainMemory) (offset : Nat) : Decidable (ReadsFree memory offset) :=
  inferInstanceAs (Decidable (_ ∨ _))

/-- The new memory has a page, and each page starts where the old memory will read `null`. -/
def NewPagesFree (node : MemoryNode) (value : Int32) (now : Nat) : Prop :=
  0 < totalPageCountOf node.memory.bytes.length value now ∧
    ∀ i < totalPageCountOf node.memory.bytes.length value now,
      ReadsFree node.memory (i * (totalPageSizeOf value now).toInt.toNat)

instance (node : MemoryNode) (value : Int32) (now : Nat) :
    Decidable (NewPagesFree node value now) :=
  inferInstanceAs (Decidable (_ ∧ _))

/-! ## Strings and bytes -/

section Strings
variable {memory before after : MainMemory} {offset t : Nat} {text : Bytes}

/-- A string is settled by its bytes and the one that ends it. -/
theorem takeWhile_congr {α : Type} {p : α → Bool} {l m : List α}
    (h : ∀ t ≤ (l.takeWhile p).length, m[t]? = l[t]?) : m.takeWhile p = l.takeWhile p := by
  induction l generalizing m with
  | nil =>
    have hnone : m[0]? = none := h 0 le_rfl
    rw [List.getElem?_eq_none_iff, Nat.le_zero, List.length_eq_zero_iff] at hnone
    rw [hnone]
  | cons a l ih =>
    have hfirst : m[0]? = some a := h 0 (Nat.zero_le _)
    cases m with
    | nil => cases hfirst
    | cons b m =>
      obtain rfl := Option.some.inj hfirst
      by_cases hb : p b = true
      · rw [List.takeWhile_cons_of_pos hb, List.takeWhile_cons_of_pos hb] at *
        rw [ih fun t ht => h (t + 1) (Nat.succ_le_succ ht)]
      · rw [List.takeWhile_cons_of_neg hb, List.takeWhile_cons_of_neg hb]

theorem stringAt_congr (htext : before.stringAt offset = text)
    (h : ∀ t ≤ text.length, after.bytes[offset + t]? = before.bytes[offset + t]?) :
    after.stringAt offset = text := by
  rw [← htext]
  refine takeWhile_congr fun t ht => ?_
  rw [List.getElem?_drop, List.getElem?_drop]
  exact h t (htext ▸ ht)

/-- A string goes up to its NUL, or to the end of the array. -/
theorem drop_eq_stringAt_append (memory : MainMemory) (offset : Nat) :
    ∃ rest, memory.bytes.drop offset = memory.stringAt offset ++ rest ∧
      ∀ b, rest[0]? = some b → b = 0 := by
  refine ⟨(memory.bytes.drop offset).dropWhile (· ≠ 0), List.takeWhile_append_dropWhile.symm,
    fun b hb => ?_⟩
  rw [← List.head?_eq_getElem?] at hb
  have hstops := List.head?_dropWhile_not (fun b : Byte => decide (b ≠ 0))
    (memory.bytes.drop offset)
  rw [hb] at hstops
  simpa using hstops

theorem getElem?_of_stringAt (htext : memory.stringAt offset = text) (ht : t < text.length) :
    memory.bytes[offset + t]? = text[t]? := by
  obtain ⟨rest, hdrop, -⟩ := drop_eq_stringAt_append memory offset
  rw [← List.getElem?_drop, hdrop, htext, List.getElem?_append_left ht]

/-- What is behind a string is its NUL. -/
theorem getElem?_end_of_stringAt (htext : memory.stringAt offset = text) {b : Byte}
    (hb : memory.bytes[offset + text.length]? = some b) : b = 0 := by
  obtain ⟨rest, hdrop, hstops⟩ := drop_eq_stringAt_append memory offset
  rw [← List.getElem?_drop, hdrop, htext, List.getElem?_append_right le_rfl, Nat.sub_self] at hb
  exact hstops b hb

end Strings

/-! ## The journal of the old pages -/

section Resize
variable {node node' : MemoryNode} {segment : MemorySegment}
  {totalPageSize totalPageCount valueSize i : Nat}

theorem removeSegment_withSizes :
    removeSegment (node.withSizes totalPageSize totalPageCount valueSize) segment =
      (removeSegment node segment).withSizes totalPageSize totalPageCount valueSize := by
  have hloop : ∀ (pages : List Page) (memory : MainMemory),
      pages.foldl (fun (memory : MainMemory) page => memory.strcpy page.index.toNat null)
          ⟨memory.bytes, totalPageSize, totalPageCount⟩ =
        ⟨(pages.foldl (fun (memory : MainMemory) page => memory.strcpy page.index.toNat null)
          memory).bytes, totalPageSize, totalPageCount⟩ := by
    intro pages
    induction pages with
    | nil => exact fun memory => rfl
    | cons page pages ih => exact fun memory => ih (memory.strcpy page.index.toNat null)
  unfold removeSegment MemoryNode.withSizes
  dsimp only
  rw [hloop]

/-- The old pages are freed whatever the new sizes are. -/
theorem deleteSegments_withSizes :
    deleteSegments i (node.withSizes totalPageSize totalPageCount valueSize) =
      (deleteSegments i node).map fun node => node.withSizes totalPageSize totalPageCount
      valueSize := by
  induction i generalizing node with
  | zero => rfl
  | succ i ih =>
    show (node.segmentList[i]?.bind fun segment =>
      deleteSegments i (removeSegment (node.withSizes totalPageSize totalPageCount valueSize)
        segment)) = (node.segmentList[i]?.bind fun segment =>
        deleteSegments i (removeSegment node segment)).map _
    cases node.segmentList[i]? with
    | none => rfl
    | some segment =>
      rw [Option.bind_some, Option.bind_some, removeSegment_withSizes, ih]

end Resize

/-! ## What freeing the old pages writes -/

/-- Nothing is written behind the first five bytes of the pages of this size. -/
structure SameBehind (totalPageSize totalPageCount : Nat) (before after : MainMemory) : Prop where
  length : after.bytes.length = before.bytes.length
  behind : ∀ position, (∀ k < totalPageCount, k * totalPageSize ≤ position →
      k * totalPageSize + 5 ≤ position) →
    after.bytes[position]? = before.bytes[position]?

section Freeing
variable {totalPageSize totalPageCount i : Nat} {memory before after last : MainMemory}
  {node node' : MemoryNode}

theorem SameBehind.refl (memory : MainMemory) :
    SameBehind totalPageSize totalPageCount memory memory :=
  ⟨rfl, fun _ _ => rfl⟩

theorem SameBehind.trans (h₁ : SameBehind totalPageSize totalPageCount before after)
    (h₂ : SameBehind totalPageSize totalPageCount after last) :
    SameBehind totalPageSize totalPageCount before last :=
  ⟨h₂.length.trans h₁.length, fun position hbehind =>
    (h₂.behind position hbehind).trans (h₁.behind position hbehind)⟩

/-- Freeing one page. -/
theorem sameBehind_strcpy (hi : i < totalPageCount)
    (hend : i * totalPageSize + 5 ≤ memory.bytes.length) :
    SameBehind totalPageSize totalPageCount memory (memory.strcpy (i * totalPageSize) null) := by
  refine ⟨MainMemory.length_strcpy hend, fun position hbehind => ?_⟩
  rcases Nat.lt_or_ge position (i * totalPageSize) with hlt | hge
  · exact MainMemory.getElem?_strcpy_of_lt (by omega) hlt
  · exact MainMemory.getElem?_strcpy_of_ge (by omega) (hbehind i hi hge)

/-- Freeing the pages of a segment. -/
theorem sameBehind_releaseAll (hfits : totalPageCount * totalPageSize ≤ memory.bytes.length)
    (hroom : 5 ≤ totalPageSize) {pages : List Page}
    (haligned : ∀ page ∈ pages, ∃ i < totalPageCount, page.index = (i * totalPageSize : Nat)) :
    SameBehind totalPageSize totalPageCount memory
      (pages.foldl (fun memory page => memory.strcpy page.index.toNat null) memory) := by
  induction pages generalizing memory with
  | nil => exact SameBehind.refl memory
  | cons page pages ih =>
    obtain ⟨i, hi, hindex⟩ := haligned page List.mem_cons_self
    have hend : i * totalPageSize + 5 ≤ memory.bytes.length := by
      have hpage : i * totalPageSize + totalPageSize ≤ totalPageCount * totalPageSize :=
        MainMemory.pageEnd_le_of_lt hi
      omega
    have hfirst := sameBehind_strcpy hi hend
    rw [List.foldl_cons, hindex, Int.toNat_natCast]
    refine hfirst.trans (ih ?_ fun page hmem => haligned page (List.mem_cons_of_mem _ hmem))
    rw [hfirst.length]
    exact hfits

theorem WellFormed.deleteSegments_behind (h : WellFormed node)
    (hrun : deleteSegments i node = some node') :
    SameBehind node.memory.totalPageSize node.memory.totalPageCount node.memory node'.memory := by
  induction i generalizing node with
  | zero =>
    obtain rfl := Option.some.inj hrun
    exact SameBehind.refl node.memory
  | succ i ih =>
    obtain ⟨segment, hsegment, hrest⟩ := Option.bind_eq_some_iff.mp hrun
    have hmem := List.mem_of_getElem? hsegment
    have hsizes := sameSizes_removeSegment node segment
    have hothers := ih (h.removeSegment hmem) hrest
    rw [hsizes.totalPageSize, hsizes.totalPageCount] at hothers
    refine SameBehind.trans ?_ hothers
    refine sameBehind_releaseAll h.owns.formatted.fits h.owns.formatted.room fun page hpage => ?_
    exact h.owns.aligned page.index (mem_indexesOf.mpr ⟨segment, hmem, page, hpage, rfl⟩)

/-- The old pages are free, and nothing is written behind their marks. -/
theorem WellFormed.deleteAllSegments_behind (h : WellFormed node) :
    ∃ node', Lissandra.deleteAllSegments node = some node' ∧ node'.segmentList = [] ∧
      SameBehind node.memory.totalPageSize node.memory.totalPageCount node.memory node'.memory ∧
      ∀ k < node.memory.totalPageCount,
        node'.memory.stringAt (k * node.memory.totalPageSize) = null := by
  obtain ⟨node', hrun, hwell, hempty, hsizes⟩ := h.deleteAllSegments
  refine ⟨node', hrun, hempty, h.deleteSegments_behind hrun, fun k hk => ?_⟩
  rw [← hsizes.totalPageSize]
  refine (hwell.owns.free_iff k (hsizes.totalPageCount.symm ▸ hk)).mpr ?_
  rw [hempty]
  exact List.not_mem_nil

end Freeing

/-! ## Strings between the pages -/

/-- Every page starts with a byte that `null` has at no other place. -/
def StartsApart (totalPageSize totalPageCount : Nat) (memory : MainMemory) : Prop :=
  ∀ k < totalPageCount, ∃ b, memory.bytes[k * totalPageSize]? = some b ∧ b ≠ 0 ∧ b ≠ 108 ∧ b ≠ 117

section Between
variable {totalPageSize totalPageCount offset : Nat} {memory before after : MainMemory}
  {node : MemoryNode}

theorem startsApart_of_stringAt
    (h : ∀ k < totalPageCount, memory.stringAt (k * totalPageSize) = null ∨
      ∃ timestamp key value, memory.stringAt (k * totalPageSize) = memoryText timestamp key value) :
    StartsApart totalPageSize totalPageCount memory := by
  intro k hk
  rcases h k hk with hnull | ⟨timestamp, key, value, htext⟩
  · have hfirst := getElem?_of_stringAt hnull (show 0 < null.length by decide)
    exact ⟨110, hfirst, by decide, by decide, by decide⟩
  · -- a text starts with the sign or the first digit of its timestamp
    cases hdigits : printInt timestamp.toInt with
    | nil => exact absurd hdigits (printInt_ne_nil _)
    | cons b digits =>
      have hcons : ∃ rest, memoryText timestamp key value = b :: rest := by
        unfold memoryText
        dsimp only
        rw [hdigits]
        exact ⟨_, rfl⟩
      obtain ⟨rest, hrest⟩ := hcons
      rw [hrest] at htext
      have hfirst := getElem?_of_stringAt htext (Nat.succ_pos _)
      obtain ⟨hle, hge⟩ := mem_printInt
        (hdigits ▸ List.mem_cons_self : b ∈ printInt timestamp.toInt)
      refine ⟨b, hfirst, ?_, ?_, ?_⟩
      · rintro rfl
        exact absurd hle (by decide)
      · rintro rfl
        exact absurd hge (by decide)
      · rintro rfl
        exact absurd hge (by decide)

theorem Recorded.startsApart (h : Recorded node) :
    StartsApart node.memory.totalPageSize node.memory.totalPageCount node.memory := by
  refine startsApart_of_stringAt fun k hk => ?_
  by_cases hfree : node.memory.page k = null
  · exact .inl hfree
  · have hmem : ((k * node.memory.totalPageSize : Nat) : Int) ∈ indexesOf node.segmentList :=
      not_not.mp fun hnot => hfree ((h.owns.free_iff k hk).mpr hnot)
    obtain ⟨timestamp, key, value, htext⟩ := h.records _ hmem
    exact .inr ⟨timestamp, key, value, htext⟩

/-- Behind the first letter of a `null` there is another letter of it, or its NUL. -/
theorem byte_inside_null {b : Byte} {s : Nat} (htext : memory.stringAt offset = null)
    (hs : s + 1 ≤ 4) (hb : memory.bytes[offset + (s + 1)]? = some b) :
    b = 0 ∨ b = 108 ∨ b = 117 := by
  rcases Nat.lt_or_eq_of_le hs with hinside | hend
  · rw [getElem?_of_stringAt htext hinside] at hb
    have hcases : s = 0 ∨ s = 1 ∨ s = 2 := by omega
    rcases hcases with rfl | rfl | rfl
    · exact .inr (.inr (Option.some.inj hb).symm)
    · exact .inr (.inl (Option.some.inj hb).symm)
    · exact .inr (.inl (Option.some.inj hb).symm)
  · have hlast : s + 1 = null.length := hend
    rw [hlast] at hb
    exact .inl (getElem?_end_of_stringAt htext hb)

/-- A `null` that does not start with a page, and not in the mark of one, is clear of all marks. -/
theorem StartsApart.clear (h : StartsApart totalPageSize totalPageCount memory)
    (htext : memory.stringAt offset = null)
    (hstart : ∀ k < totalPageCount, offset ≠ k * totalPageSize)
    (hmark : ∀ k < totalPageCount, ¬ (k * totalPageSize < offset ∧ offset < k * totalPageSize + 5))
    {t : Nat} (ht : t ≤ 4) {k : Nat} (hk : k < totalPageCount)
    (hle : k * totalPageSize ≤ offset + t) : k * totalPageSize + 5 ≤ offset + t := by
  have hne := hstart k hk
  have hnot := hmark k hk
  rcases Nat.lt_or_ge offset (k * totalPageSize) with hlt | hge
  · -- the page starts inside the string, with a byte that cannot be there
    obtain ⟨s, hs⟩ := Nat.exists_eq_add_of_lt hlt
    obtain ⟨b, hb, hnul, hl, hu⟩ := h k hk
    rw [hs, Nat.add_assoc] at hb
    rcases byte_inside_null htext (by omega) hb with heq | heq | heq
    · exact absurd heq hnul
    · exact absurd heq hl
    · exact absurd heq hu
  · omega

/-- No `null` starts inside the mark of a page. -/
theorem not_in_mark {k : Nat} (hnull : memory.stringAt (k * totalPageSize) = null)
    (htext : memory.stringAt offset = null) :
    ¬ (k * totalPageSize < offset ∧ offset < k * totalPageSize + 5) := by
  rintro ⟨hlt, hgt⟩
  obtain ⟨s, rfl⟩ := Nat.exists_eq_add_of_lt hlt
  have hfirst : memory.bytes[k * totalPageSize + (s + 1)]? = some 110 :=
    getElem?_of_stringAt htext (show 0 < null.length by decide)
  -- an `n` stands nowhere else in a `null`
  rcases byte_inside_null hnull (by omega) hfirst with heq | heq | heq
  · exact absurd heq (by decide)
  · exact absurd heq (by decide)
  · exact absurd heq (by decide)

/-- What reads `null` after the old pages were freed. -/
theorem stringAt_eq_null_iff
    (hbefore : StartsApart before.totalPageSize before.totalPageCount before)
    (hsame : SameBehind before.totalPageSize before.totalPageCount before after)
    (hfreed : ∀ k < before.totalPageCount, after.stringAt (k * before.totalPageSize) = null) :
    after.stringAt offset = null ↔ ReadsFree before offset := by
  by_cases hpage : ∃ k < before.totalPageCount, offset = k * before.totalPageSize
  · obtain ⟨k, hk, rfl⟩ := hpage
    exact iff_of_true (hfreed k hk) (.inl ⟨k, hk, rfl⟩)
  · -- the string is between the pages, so it is as it was or was cut by a mark
    have hstart : ∀ k < before.totalPageCount, offset ≠ k * before.totalPageSize :=
      fun k hk heq => hpage ⟨k, hk, heq⟩
    constructor
    · intro htext
      have hafter : StartsApart before.totalPageSize before.totalPageCount after :=
        startsApart_of_stringAt fun k hk => .inl (hfreed k hk)
      have hmark : ∀ k < before.totalPageCount, ¬ (k * before.totalPageSize < offset ∧
          offset < k * before.totalPageSize + 5) := fun k hk => not_in_mark (hfreed k hk) htext
      refine .inr ⟨stringAt_congr htext fun t ht => ?_, hmark⟩
      exact (hsame.behind _ fun k hk hle => hafter.clear htext hstart hmark ht hk hle).symm
    · rintro (hpage' | ⟨htext, hmark⟩)
      · exact absurd hpage' hpage
      · refine stringAt_congr htext fun t ht => ?_
        exact hsame.behind _ fun k hk hle => hbefore.clear htext hstart hmark ht hk hle

end Between

/-! ## The new memory -/

section Change
variable {node : MemoryNode} {value : Int32} {now : Nat}

theorem emptyMemory_iff {memory : MainMemory} {valueSize : Nat} :
    EmptyMemory ⟨memory, [], valueSize⟩ ↔
      0 < memory.totalPageCount ∧ ∀ i < memory.totalPageCount, memory.page i = null := by
  constructor
  · intro h
    obtain ⟨i, hi, -⟩ := h.inserts 0 0 []
    exact ⟨Nat.zero_lt_of_lt hi, h.frames⟩
  · rintro ⟨hcount, hframes⟩
    obtain ⟨i, hfind⟩ : ∃ i, findNull memory memory.totalPageCount 0 = some i := by
      refine Option.ne_none_iff_exists'.mp fun hnone => ?_
      exact findNull_none hnone le_rfl (by omega) (hframes 0 hcount)
    obtain ⟨-, hlt, -⟩ := findNull_some hfind
    have hi : i < memory.totalPageCount := by omega
    refine ⟨rfl, hframes, ?_, fun timestamp key value => ⟨i, hi, ?_⟩⟩
    · unfold memoryFull
      rw [hfind]
      rfl
    · unfold memoryInsert
      rw [hfind]

theorem getValueCallbackAgain_accepted (haccepts : AcceptsValue node value)
    (hsize : totalPageSizeOf value now ≠ 0) : getValueCallbackAgain node value now =
      some (node.withSizes (totalPageSizeOf value now).toInt.toNat
        (totalPageCountOf node.memory.bytes.length value now) (valueBound value)) := by
  unfold getValueCallbackAgain
  rw [if_neg haccepts.changed, if_neg (Int.not_lt.mpr haccepts.fits), if_neg hsize]

theorem totalPageSizeOf_ne_zero {memorySize : Nat} (h : 0 < totalPageCountOf memorySize value now) :
    totalPageSizeOf value now ≠ 0 := by
  intro hzero
  unfold totalPageCountOf at h
  rw [hzero, Int32.toInt_zero, Int.tdiv_zero] at h
  exact absurd h (by decide)

/-- The memory after the change and the journal. -/
theorem valueChange_runs (h : WellFormed node) (haccepts : AcceptsValue node value)
    (hsize : totalPageSizeOf value now ≠ 0) :
    ∃ bytes, (∃ changed, getValueCallbackAgain node value now = some changed ∧
      journalCallback changed (some 0) none = some
        ⟨⟨bytes, (totalPageSizeOf value now).toInt.toNat,
          totalPageCountOf node.memory.bytes.length value now⟩, [], valueBound value⟩) ∧
      SameBehind node.memory.totalPageSize node.memory.totalPageCount node.memory
        ⟨bytes, node.memory.totalPageSize, node.memory.totalPageCount⟩ ∧
      ∀ k < node.memory.totalPageCount, (MainMemory.mk bytes node.memory.totalPageSize
        node.memory.totalPageCount).stringAt (k * node.memory.totalPageSize) = null := by
  obtain ⟨node', hrun, hempty, hsame, hfreed⟩ := h.deleteAllSegments_behind
  refine ⟨node'.memory.bytes, ⟨_, getValueCallbackAgain_accepted haccepts hsize, ?_⟩,
    ⟨hsame.length, hsame.behind⟩, hfreed⟩
  unfold deleteAllSegments at hrun
  unfold journalCallback deleteAllSegments
  rw [if_pos rfl, deleteSegments_withSizes]
  show ((deleteSegments node.segmentList.length node).map _).bind some = _
  rw [hrun]
  show some (node'.withSizes _ _ _) = _
  unfold MemoryNode.withSizes
  rw [hempty]

end Change

/-- **When a memory survives a new value size.**  After the journal all frames of the new layout
are free exactly if each one starts where an old page starts, or where the old memory says `null`
and no mark of an old page is written over it; and there has to be a frame. -/
theorem survivesChange_iff {node : MemoryNode} {value : Int32} (h : Recorded node)
    (haccepts : AcceptsValue node value) (now : Nat) :
    SurvivesChange node value now ↔ NewPagesFree node value now := by
  have hreads : ∀ {bytes : Bytes} {offset : Nat},
      SameBehind node.memory.totalPageSize node.memory.totalPageCount node.memory
        ⟨bytes, node.memory.totalPageSize, node.memory.totalPageCount⟩ →
      (∀ k < node.memory.totalPageCount, (MainMemory.mk bytes node.memory.totalPageSize
        node.memory.totalPageCount).stringAt (k * node.memory.totalPageSize) = null) →
      ((MainMemory.mk bytes node.memory.totalPageSize node.memory.totalPageCount).stringAt offset =
        null ↔ ReadsFree node.memory offset) :=
    fun hsame hfreed => stringAt_eq_null_iff h.startsApart hsame hfreed
  constructor
  · rintro ⟨changed, node', hchanged, hjournal, hempty⟩
    have hsize : totalPageSizeOf value now ≠ 0 := by
      intro hzero
      unfold getValueCallbackAgain at hchanged
      rw [if_neg haccepts.changed, if_neg (Int.not_lt.mpr haccepts.fits), if_pos hzero] at hchanged
      cases hchanged
    obtain ⟨bytes, ⟨changed', hchanged', hjournal'⟩, hsame, hfreed⟩ :=
      valueChange_runs h.toWellFormed haccepts hsize
    obtain rfl := Option.some.inj (hchanged.symm.trans hchanged')
    obtain rfl := Option.some.inj (hjournal.symm.trans hjournal')
    obtain ⟨hcount, hframes⟩ := emptyMemory_iff.mp hempty
    exact ⟨hcount, fun i hi => (hreads hsame hfreed).mp (hframes i hi)⟩
  · rintro ⟨hcount, hfree⟩
    obtain ⟨bytes, ⟨changed, hchanged, hjournal⟩, hsame, hfreed⟩ :=
      valueChange_runs h.toWellFormed haccepts (totalPageSizeOf_ne_zero hcount)
    exact ⟨changed, _, hchanged, hjournal, emptyMemory_iff.mpr ⟨hcount, fun i hi =>
      (hreads hsame hfreed).mpr (hfree i hi)⟩⟩

/-- With 25 bytes a value the memory of two pages becomes one page, which starts where the first
old one does. -/
theorem survivesChange_onePage :
    NewPagesFree unmodifiedNode 25 firstClock ∧ SurvivesChange unmodifiedNode 25 firstClock := by
  have hfree : NewPagesFree unmodifiedNode 25 firstClock := by
    decide
  exact ⟨hfree, (survivesChange_iff unmodifiedNode_recorded ⟨by decide, by decide, by decide⟩
    firstClock).mpr hfree⟩

/-- With one byte a value there are two pages again, and the second one starts before the old
one. -/
theorem smaller_value_not_free :
    ¬ ∀ (node : MemoryNode) (value : Int32) (now : Nat), Recorded node → AcceptsValue node value →
      SurvivesChange node value now := by
  intro hclaim
  have hsurvives := hclaim unmodifiedNode 1 firstClock unmodifiedNode_recorded
    ⟨by decide, by decide, by decide⟩
  obtain ⟨changed, node', hchanged, hjournal, hempty⟩ := hsurvives
  have hrun : (getValueCallbackAgain unmodifiedNode 1 firstClock).bind
    (fun node => journalCallback node (some 0) none) =
      some node' := by
    rw [hchanged, Option.bind_some, hjournal]
  have hpage : ((getValueCallbackAgain unmodifiedNode 1 firstClock).bind
      (fun node => journalCallback node (some 0) none)).map
      (fun node => (node.memory.totalPageCount, node.memory.page 1)) =
      some (2, []) := by decide +kernel
  rw [hrun] at hpage
  obtain ⟨hcount, htext⟩ := Prod.mk.inj (Option.some.inj hpage)
  have hnull := hempty.frames 1 (by omega)
  rw [htext] at hnull
  exact absurd hnull (by decide)

end Lissandra
