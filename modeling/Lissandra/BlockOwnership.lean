import Lissandra.BlockReader

/-! # Which archive owns which blocks

Several archives share the block files and the bitmap.  A storage `Holds` a list of
archives, given by their block lists, when each decodes to storable records, no block is
listed twice, the bitmap has every listed block marked and every free block is empty.
Writing an archive adds it to the list (`Holds.write`), freeing its blocks removes it
(`Holds.free`), taking empty blocks adds archives without records (`Holds.take`), and none
of them changes what the other archives decode to (`Keeps`).
-/
namespace Lissandra

/-! ## Freeing and taking blocks -/

/-- `free_block` and `bitarray_clean_bit`.  A number without a bit writes out of the
bitmap. -/
def freeBlock (storage : Storage) (block : Nat) : Option Storage :=
  if block = 0 ∨ storage.bitmap.length < block then none
  else some { storage with
    bitmap := storage.bitmap.set (block - 1) false
    block := Function.update storage.block block [] }

/-- `free_blocks_of_fs_archive`. -/
def freeBlocksOfFsArchive (storage : Storage) (archive : Archive) : Option Storage :=
  archive.blocks.foldlM freeBlock storage

/-- The loop of `assign_free_blocks`: the blocks found, which may be fewer than asked for. -/
def takeFreeBlocks : Nat → List Bool → List Nat × List Bool
  | 0, bitmap => ([], bitmap)
  | partitionsAmount + 1, bitmap =>
    let (block, bitmap) := findFreeBlock bitmap
    if block = -1 then ([], bitmap)
    else
      let (blocks, bitmap) := takeFreeBlocks partitionsAmount bitmap
      ((block + 1).toNat :: blocks, bitmap)

/-- `assign_free_blocks`, which does not look when the bitmap is too small. -/
def assignFreeBlocks (bitmap : List Bool) (partitionsAmount : Nat) : List Nat × List Bool :=
  if partitionsAmount ≤ bitmap.length then takeFreeBlocks partitionsAmount bitmap else ([], bitmap)

/-! ## What an archive holds -/

/-- The records that `create_tkv_list` finds in the blocks of an archive. -/
def decode (tkvSize : Nat) (storage : Storage) (blocks : List Nat) : List Record :=
  (createTkvList tkvSize storage.block blocks).getD []

/-- The blocks hold the layout of storable records. -/
def Intact (tkvSize : Nat) (storage : Storage) (blocks : List Nat) : Prop :=
  ∃ records, blocks.map storage.block = layoutBytes storage.blockSize records ∧
    ∀ record ∈ records, Storable tkvSize record

/-- The storage after an operation that left the blocks of these archives alone. -/
structure Keeps (storage after : Storage) (owned : List (List Nat)) : Prop where
  blockSize : after.blockSize = storage.blockSize
  block_eq : ∀ b ∈ owned.flatten, after.block b = storage.block b

/-- The storage holds the archives with these block lists. -/
structure Holds (tkvSize : Nat) (storage : Storage) (owned : List (List Nat)) : Prop where
  size : 2 ≤ storage.blockSize
  intact : ∀ blocks ∈ owned, Intact tkvSize storage blocks
  used : ∀ b ∈ owned.flatten, ∃ i, b = i + 1 ∧ storage.bitmap[i]? = some true
  nodup : owned.flatten.Nodup
  clean : ∀ b ∈ availableBlocks storage.bitmap, storage.block b = []

section
variable {tkvSize : Nat} {storage after : Storage} {owned freed : List (List Nat)}
  {blocks : List Nat}

theorem Intact.decode_eq (h : Intact tkvSize storage blocks) :
    createTkvList tkvSize storage.block blocks = some (decode tkvSize storage blocks) ∧
    blocks.map storage.block = layoutBytes storage.blockSize (decode tkvSize storage blocks) ∧
    ∀ record ∈ decode tkvSize storage blocks, Storable tkvSize record := by
  obtain ⟨records, hblocks, hrecords⟩ := h
  have hdecode : createTkvList tkvSize storage.block blocks = some records := by
    have hgroups : blocks.map storage.block = [records].flatMap
      (layoutBytes storage.blockSize) := by
      simpa using hblocks
    simpa using createTkvList_layout hgroups (by simpa using hrecords)
  have heq : decode tkvSize storage blocks = records := by rw [decode, hdecode, Option.getD_some]
  rw [heq]
  exact ⟨hdecode, hblocks, hrecords⟩

/-- Several archives read as one, as A1.tmpc is. -/
theorem createTkvList_flatten (h : ∀ blocks ∈ owned, Intact tkvSize storage blocks) :
    createTkvList tkvSize storage.block owned.flatten =
      some (owned.flatMap (decode tkvSize storage)) := by
  have hblocks : owned.flatten.map storage.block =
      (owned.map (decode tkvSize storage)).flatMap (layoutBytes storage.blockSize) := by
    rw [List.map_flatten, List.flatMap_map, List.flatMap_def]
    congr 1
    exact List.map_congr_left fun blocks hmem => (h blocks hmem).decode_eq.2.1
  have hrecords : ∀ record ∈ (owned.map (decode tkvSize storage)).flatten,
    Storable tkvSize record := by
    intro record hrecord
    rw [← List.flatMap_def] at hrecord
    obtain ⟨blocks, hmem, hrecord⟩ := List.mem_flatMap.mp hrecord
    exact (h blocks hmem).decode_eq.2.2 record hrecord
  rw [createTkvList_layout hblocks hrecords, ← List.flatMap_def]

/-- Several archives read one by one. -/
theorem mapM_createTkvList {archives : List Archive}
    (h : ∀ archive ∈ archives, Intact tkvSize storage archive.blocks) :
    (archives.mapM fun archive => createTkvList tkvSize storage.block archive.blocks) =
      some (archives.map fun archive => decode tkvSize storage archive.blocks) := by
  induction archives with
  | nil => rfl
  | cons archive archives ih =>
    rw [List.mapM_cons, (h archive List.mem_cons_self).decode_eq.1,
      ih fun a ha => h a (List.mem_cons_of_mem _ ha)]
    rfl

/-! ## Frames -/

theorem Keeps.map_eq (h : Keeps storage after owned) (hmem : blocks ∈ owned) :
    blocks.map after.block = blocks.map storage.block :=
  List.map_congr_left fun b hb => h.block_eq b (List.mem_flatten.mpr ⟨blocks, hmem, hb⟩)

theorem Keeps.intact (h : Keeps storage after owned) (hmem : blocks ∈ owned)
    (hintact : Intact tkvSize storage blocks) : Intact tkvSize after blocks := by
  obtain ⟨records, hblocks, hrecords⟩ := hintact
  exact ⟨records, by rw [h.map_eq hmem, h.blockSize, hblocks], hrecords⟩

theorem Keeps.decode_eq (h : Keeps storage after owned) (hmem : blocks ∈ owned)
    (hintact : Intact tkvSize storage blocks) :
    decode tkvSize after blocks = decode tkvSize storage blocks := by
  obtain ⟨-, hblocks, hrecords⟩ := hintact.decode_eq
  have hgroups : blocks.map after.block =
      [decode tkvSize storage blocks].flatMap (layoutBytes after.blockSize) := by
    rw [h.map_eq hmem, h.blockSize, hblocks]
    simp
  rw [decode, createTkvList_layout hgroups (by simpa using hrecords)]
  simp

theorem Keeps.refl (storage : Storage) (owned : List (List Nat)) : Keeps storage storage owned :=
  ⟨rfl, fun _ _ => rfl⟩

theorem Keeps.trans {last : Storage} (h : Keeps storage after owned) (h' : Keeps after last owned) :
    Keeps storage last owned :=
  ⟨h'.blockSize.trans h.blockSize, fun b hb => (h'.block_eq b hb).trans (h.block_eq b hb)⟩

theorem Keeps.subset {more : List (List Nat)} (h : Keeps storage after more) (hsub : owned ⊆ more) :
    Keeps storage after owned := by
  refine ⟨h.blockSize, fun b hb => h.block_eq b ?_⟩
  obtain ⟨blocks, hmem, hb⟩ := List.mem_flatten.mp hb
  exact List.mem_flatten.mpr ⟨blocks, hsub hmem, hb⟩

/-! ## The operations -/

theorem Holds.perm {other : List (List Nat)} (h : Holds tkvSize storage owned)
    (hperm : owned.Perm other) : Holds tkvSize storage other where
  size := h.size
  intact blocks hmem := h.intact blocks (hperm.mem_iff.mpr hmem)
  used b hb := h.used b (hperm.flatten.mem_iff.mpr hb)
  nodup := hperm.flatten.nodup_iff.mp h.nodup
  clean := h.clean

theorem Holds.of_append {extra : List (List Nat)} (h : Holds tkvSize storage (extra ++ owned)) :
    Holds tkvSize storage owned where
  size := h.size
  intact blocks hmem := h.intact blocks (List.mem_append_right _ hmem)
  used b hb := h.used b (by rw [List.flatten_append]; exact List.mem_append_right _ hb)
  nodup := (List.nodup_append.mp (List.flatten_append ▸ h.nodup)).2.1
  clean := h.clean

theorem Holds.not_free (h : Holds tkvSize storage owned) {b : Nat} (hb : b ∈ owned.flatten) :
    b ∉ availableBlocks storage.bitmap := by
  intro hfree
  obtain ⟨i, rfl, hset⟩ := h.used b hb
  obtain ⟨j, hj, hclear⟩ := mem_availableBlocks.mp hfree
  obtain rfl : j = i := by omega
  rw [hset] at hclear
  exact absurd hclear (by simp)

theorem holds_formatted {blockSize : Nat} (hsize : 2 ≤ blockSize) (tkvSize count : Nat) :
    Holds tkvSize (Storage.formatted blockSize count) [] where
  size := hsize
  intact _ hmem := absurd hmem List.not_mem_nil
  used _ hb := absurd hb List.not_mem_nil
  nodup := List.nodup_nil
  clean _ _ := rfl

/-- **Writing an archive.** -/
theorem Holds.write {records : List Record} (h : Holds tkvSize storage owned)
    (hrun : writeTkvs storage (records.map convertToTkv) = some (after, blocks))
    (hzero : 0 ∉ blocks) (hrecords : ∀ record ∈ records, Storable tkvSize record) :
    Holds tkvSize after (blocks :: owned) ∧ Keeps storage after owned ∧
      decode tkvSize after blocks = records := by
  have hwritten := written_of_writeTkvs h.size hrun hzero
  have hnew : ∀ b ∈ blocks, b ∈ availableBlocks storage.bitmap := fun b hb => by
    rw [hwritten.free_eq]
    exact List.mem_append_left _ hb
  have hkeeps : Keeps storage after owned :=
    ⟨hwritten.blockSize, fun b hb => hwritten.frame b fun hmem => h.not_free hb (hnew b hmem)⟩
  have hnodup := hwritten.free_eq ▸ availableBlocks_nodup storage.bitmap
  refine ⟨⟨by rw [hwritten.blockSize]; exact h.size, ?_, ?_, ?_, ?_⟩, hkeeps, ?_⟩
  · rintro other (_ | ⟨_, hmem⟩)
    · exact ⟨records, by rw [hwritten.blockSize, hwritten.blocks_eq], hrecords⟩
    · exact hkeeps.intact hmem (h.intact other hmem)
  · intro b hb
    rw [List.flatten_cons, List.mem_append] at hb
    rcases hb with hb | hb
    · obtain ⟨i, rfl, -⟩ := mem_availableBlocks.mp (hnew b hb)
      exact ⟨i, rfl, by rw [hwritten.bits, if_pos hb]⟩
    · obtain ⟨i, rfl, hset⟩ := h.used b hb
      refine ⟨i, rfl, ?_⟩
      rw [hwritten.bits, hset, ite_self]
  · rw [List.flatten_cons, List.nodup_append]
    refine ⟨(List.nodup_append.mp hnodup).1, h.nodup, ?_⟩
    rintro b hb c hc rfl
    exact h.not_free hc (hnew b hb)
  · intro b hb
    rw [hwritten.frame b fun hmem => (List.nodup_append.mp hnodup).2.2 b hmem b hb rfl]
    refine h.clean b ?_
    rw [hwritten.free_eq]
    exact List.mem_append_right _ hb
  · rw [decode, createTkvList_of_written hwritten hrecords, Option.getD_some]

theorem freeBlock_eq {b : Nat} (hused : ∃ i, b = i + 1 ∧ storage.bitmap[i]? = some true) :
    ∃ i, b = i + 1 ∧ i < storage.bitmap.length ∧
      freeBlock storage b = some { storage with
        bitmap := storage.bitmap.set i false
        block := Function.update storage.block b [] } := by
  obtain ⟨i, rfl, hi⟩ := hused
  have hlt := (List.getElem?_eq_some_iff.mp hi).1
  refine ⟨i, rfl, hlt, ?_⟩
  rw [freeBlock, if_neg (by omega), Nat.add_sub_cancel]

/-- Freeing listed blocks, one after the other: these are then free and empty, and nothing
else changed. -/
theorem foldlM_freeBlock (hused : ∀ b ∈ blocks, ∃ i, b = i + 1 ∧ storage.bitmap[i]? = some true)
    (hnodup : blocks.Nodup) :
    ∃ after, blocks.foldlM freeBlock storage = some after ∧
      after.blockSize = storage.blockSize ∧
      (∀ b, after.block b = if b ∈ blocks then [] else storage.block b) ∧
      ∀ i, after.bitmap[i]? = if i + 1 ∈ blocks then some false else storage.bitmap[i]? := by
  induction blocks generalizing storage with
  | nil => exact ⟨storage, rfl, rfl, by simp, by simp⟩
  | cons b rest ih =>
    obtain ⟨i, hi, hlt, hfree⟩ := freeBlock_eq (hused b List.mem_cons_self)
    obtain ⟨hb, hrest⟩ := List.nodup_cons.mp hnodup
    obtain ⟨after, hrun, hsize, hblock, hbits⟩ := @ih
      { storage with
        bitmap := storage.bitmap.set i false
        block := Function.update storage.block b [] }
      (fun c hc => by
        obtain ⟨j, rfl, hj⟩ := hused c (List.mem_cons_of_mem _ hc)
        have hne : i ≠ j := by
          rintro rfl
          exact hb (hi ▸ hc)
        exact ⟨j, rfl, by rw [List.getElem?_set_ne hne, hj]⟩) hrest
    refine ⟨after, by rw [List.foldlM_cons, hfree]; exact hrun, hsize, fun c => ?_, fun j => ?_⟩
    · rw [hblock]
      by_cases hc : c = b
      · subst hc
        simp [Function.update]
      · simp [hc, Function.update]
    · rw [hbits]
      by_cases hj : j = i
      · subst hj
        simp [hi, hlt]
      · have hne : j + 1 ≠ b := by omega
        simp [hne, List.getElem?_set_ne (Ne.symm hj)]

/-- **Freeing an archive.** -/
theorem Holds.free (h : Holds tkvSize storage (blocks :: owned)) :
    ∃ after, blocks.foldlM freeBlock storage = some after ∧ Holds tkvSize after owned ∧
      Keeps storage after owned := by
  have hnodup := h.nodup
  rw [List.flatten_cons, List.nodup_append] at hnodup
  obtain ⟨after, hrun, hsize, hblock, hbits⟩ := foldlM_freeBlock
    (fun b hb => h.used b (List.mem_append_left _ hb)) hnodup.1
  have hother : ∀ b ∈ owned.flatten, b ∉ blocks := fun b hb hmem => hnodup.2.2 b hmem b hb rfl
  have hkeeps : Keeps storage after owned :=
    ⟨hsize, fun b hb => by rw [hblock, if_neg (hother b hb)]⟩
  refine ⟨after, hrun, ⟨by rw [hsize]; exact h.size, ?_, ?_, hnodup.2.1, ?_⟩, hkeeps⟩
  · exact fun other hmem => hkeeps.intact hmem (h.intact other (List.mem_cons_of_mem _ hmem))
  · intro b hb
    obtain ⟨i, rfl, hset⟩ := h.used b (List.mem_append_right _ hb)
    exact ⟨i, rfl, by rw [hbits, if_neg (hother _ hb), hset]⟩
  · intro b hb
    rw [hblock]
    by_cases hmem : b ∈ blocks
    · rw [if_pos hmem]
    · rw [if_neg hmem]
      obtain ⟨i, rfl, hclear⟩ := mem_availableBlocks.mp hb
      rw [hbits, if_neg hmem] at hclear
      exact h.clean _ (mem_availableBlocks.mpr ⟨i, rfl, hclear⟩)

/-- Freeing several archives. -/
theorem Holds.freeAll {archives : List Archive}
    (h : Holds tkvSize storage (archives.map Archive.blocks ++ owned)) :
    ∃ after, archives.foldlM freeBlocksOfFsArchive storage = some after ∧
      Holds tkvSize after owned ∧ Keeps storage after owned := by
  induction archives generalizing storage with
  | nil => exact ⟨storage, rfl, h, Keeps.refl _ _⟩
  | cons archive archives ih =>
    obtain ⟨after, hrun, hholds, hkeeps⟩ := h.free
    obtain ⟨last, hrun', hholds', hkeeps'⟩ := ih hholds
    refine ⟨last, ?_, hholds', (hkeeps.subset (List.subset_append_right _ _)).trans hkeeps'⟩
    rw [List.foldlM_cons, freeBlocksOfFsArchive, hrun]
    exact hrun'

/-- The storage after some free blocks were marked, which stay empty. -/
structure Marked (storage : Storage) (taken : List Nat) (bitmap : List Bool) : Prop where
  free_eq : availableBlocks storage.bitmap = taken ++ availableBlocks bitmap
  bits : ∀ i, bitmap[i]? = if i + 1 ∈ taken then some true else storage.bitmap[i]?

theorem marked_takeFreeBlocks (count : Nat) (storage : Storage) :
    Marked storage (takeFreeBlocks count storage.bitmap).1
      (takeFreeBlocks count storage.bitmap).2 := by
  induction count generalizing storage with
  | zero => exact ⟨by simp [takeFreeBlocks], by simp [takeFreeBlocks]⟩
  | succ count ih =>
    rw [takeFreeBlocks]
    cases hb : availableBlocks storage.bitmap with
    | nil =>
      rw [findFreeBlock_nil hb]
      exact ⟨by simp [hb], by simp⟩
    | cons b rest =>
      obtain ⟨i, rfl, hlt, hfind, hrest⟩ := findFreeBlock_cons hb
      have hne : ¬ ((i : Int) = -1) := by omega
      have htoNat : ((i : Int) + 1).toNat = i + 1 := by omega
      obtain ⟨hfree, hbits⟩ := ih { storage with bitmap := storage.bitmap.set i true }
      simp only [hfind, if_neg hne, htoNat]
      refine ⟨?_, fun j => ?_⟩
      · rw [hb, ← hrest, hfree]
        rfl
      · rw [hbits]
        by_cases hj : j = i
        · subst hj
          simp [hlt]
        · simp [hj, List.getElem?_set_ne (Ne.symm hj)]

theorem Marked.length_eq {taken : List Nat} {bitmap : List Bool}
    (h : Marked storage taken bitmap) : bitmap.length = storage.bitmap.length := by
  refine le_antisymm ?_ ?_
  · rw [← List.getElem?_eq_none_iff, h.bits, if_neg]
    · exact List.getElem?_eq_none le_rfl
    · intro hmem
      have hfree : storage.bitmap.length + 1 ∈ availableBlocks storage.bitmap :=
        h.free_eq ▸ List.mem_append_left _ hmem
      obtain ⟨i, hi, hclear⟩ := mem_availableBlocks.mp hfree
      have hlt := (List.getElem?_eq_some_iff.mp hclear).1
      omega
  · rw [← List.getElem?_eq_none_iff]
    have hnone : bitmap[bitmap.length]? = none := List.getElem?_eq_none le_rfl
    rw [h.bits] at hnone
    split at hnone
    · exact absurd hnone (by simp)
    · exact hnone

theorem decode_empty {b : Nat} (hblock : storage.block b = []) :
    Intact tkvSize storage [b] ∧ decode tkvSize storage [b] = [] := by
  have hlayout : [b].map storage.block = layoutBytes storage.blockSize [] := by
    rw [List.map_singleton, hblock]
    rfl
  refine ⟨⟨[], hlayout, by simp⟩, ?_⟩
  have hgroups : [b].map storage.block = [[]].flatMap (layoutBytes storage.blockSize) := by
    rw [hlayout]
    simp
  rw [decode, createTkvList_layout hgroups (by simp)]
  rfl

/-- **Taking empty blocks**, one for each partition of a new table. -/
theorem Holds.take {taken : List Nat} {bitmap : List Bool} (h : Holds tkvSize storage owned)
    (hmarked : Marked storage taken bitmap) :
    Holds tkvSize { storage with bitmap } (taken.map ([·]) ++ owned) ∧
      ∀ b ∈ taken, decode tkvSize { storage with bitmap } [b] = [] := by
  have hnew : ∀ b ∈ taken, b ∈ availableBlocks storage.bitmap := fun b hb => by
    rw [hmarked.free_eq]
    exact List.mem_append_left _ hb
  have hempty : ∀ b ∈ taken, storage.block b = [] := fun b hb => h.clean b (hnew b hb)
  have hflatten : (taken.map ([·]) ++ owned).flatten = taken ++ owned.flatten := by
    rw [List.flatten_append, ← List.flatMap_def, List.flatMap_singleton']
  have hnodup := hmarked.free_eq ▸ availableBlocks_nodup storage.bitmap
  refine ⟨⟨h.size, ?_, ?_, ?_, ?_⟩, fun b hb => (decode_empty (hempty b hb)).2⟩
  · intro blocks hmem
    rcases List.mem_append.mp hmem with hmem | hmem
    · obtain ⟨b, hb, rfl⟩ := List.mem_map.mp hmem
      exact (decode_empty (hempty b hb)).1
    · exact h.intact blocks hmem
  · intro b hb
    rw [hflatten, List.mem_append] at hb
    rcases hb with hb | hb
    · obtain ⟨i, rfl, -⟩ := mem_availableBlocks.mp (hnew b hb)
      exact ⟨i, rfl, by rw [hmarked.bits, if_pos hb]⟩
    · obtain ⟨i, rfl, hset⟩ := h.used b hb
      refine ⟨i, rfl, ?_⟩
      rw [hmarked.bits, hset, ite_self]
  · rw [hflatten, List.nodup_append]
    refine ⟨(List.nodup_append.mp hnodup).1, h.nodup, ?_⟩
    rintro b hb c hc rfl
    exact h.not_free hc (hnew b hb)
  · intro b hb
    refine h.clean b ?_
    rw [hmarked.free_eq]
    exact List.mem_append_right _ hb

end

end Lissandra
