import Lissandra.BlockWriter

/-! # The size of the block files

`dump_table` and `create_partition` take the length of each text off the room of its block, but
`write_tkv` also writes its NUL.  A block with more than one text may therefore become longer than
`block_size`, and a block whose end cuts a text always does: head, mark and NUL are one byte more
than the room.

So no block is too long only if nothing is cut.  Then each text of `block_size - 1` bytes fills its
block, and the first other one begins the last block (`LinesFit`).
-/
namespace Lissandra

/-! ## Layouts in blocks that are long enough -/

section Layouts
variable {α : Type} {text : α → Bytes} {size room : Nat} {lead : Bytes} {items : List α}

/-- The items behind those that fill a block each fit into one, each with its NUL. -/
def LinesFit (text : α → Bytes) (size : Nat) (items : List α) : Prop :=
  (lines text (items.dropWhile fun a => (text a).length + 1 = size)).length ≤ size

instance (text : α → Bytes) (size : Nat) (items : List α) : Decidable (LinesFit text size items) :=
  inferInstanceAs (Decidable (_ ≤ _))

theorem length_lines_cons (a : α) (rest : List α) :
    (lines text (a :: rest)).length = (text a).length + 1 + (lines text rest).length := by
  simp only [lines, line, List.flatMap_cons, List.length_append, List.length_singleton]

/-- A text that is cut makes its block too long. -/
theorem exists_long_of_cut {a : α} (hcut : room < (text a).length) (hroom : 2 ≤ room)
    (hlead : size ≤ lead.length + room) (mark : Byte) (rest : List α) :
    ∃ c ∈ contents mark lead (segments text size room (a :: rest)), size < c.length := by
  rw [segments_cut hcut]
  refine ⟨_, List.mem_cons_self, ?_⟩
  have hhead : (cutAt size room a hcut).head.length = room - 1 := by
    rw [cutAt, List.length_take]
    omega
  simp only [List.length_append, markedLine, hhead, List.length_cons, List.length_nil]
  omega

/-- Once a block has a text, all others must fit behind it. -/
theorem length_le_of_contents (mark : Byte) (hroom : 2 ≤ room)
    (hlead : size < lead.length + room)
    (hfits : ∀ c ∈ contents mark lead (segments text size room items), c.length ≤ size) :
    lead.length + (lines text items).length ≤ size := by
  induction items generalizing room lead with
  | nil => simpa [segments, contents, lines] using hfits
  | cons a rest ih =>
    rcases Nat.lt_or_ge room (text a).length with hcut | hwhole
    · obtain ⟨c, hc, hlong⟩ := exists_long_of_cut hcut hroom hlead.le mark rest
      exact absurd (hfits c hc) (by omega)
    · rw [segments_whole hwhole, contents_addWhole _ _ _ (resume_ne_nil _ _ _ _), resume] at hfits
      have hline : (lead ++ line (text a)).length = lead.length + (text a).length + 1 := by
        simp [line, Nat.add_assoc]
      by_cases hfull : room - (text a).length ≤ 1
      · -- The block is closed with its NULs not counted.
        rw [if_pos hfull] at hfits
        have hfirst := hfits _ List.mem_cons_self
        rw [List.length_append, hline] at hfirst
        omega
      · rw [if_neg hfull] at hfits
        have hrest := ih (by omega) (by omega) hfits
        rw [length_lines_cons]
        omega

/-- **Blocks of the size only if the lines fit.** -/
theorem linesFit_of_contents (mark : Byte) (hsize : 2 ≤ size)
    (hfits : ∀ c ∈ contents mark [] (layout text size items), c.length ≤ size) :
    LinesFit text size items := by
  induction items with
  | nil => exact Nat.zero_le _
  | cons a rest ih =>
    rw [layout] at hfits
    rcases Nat.lt_or_ge size (text a).length with hcut | hwhole
    · obtain ⟨c, hc, hlong⟩ := @exists_long_of_cut _ _ size size [] a hcut hsize (by simp) mark rest
      exact absurd (hfits c hc) (by omega)
    · rw [segments_whole hwhole, contents_addWhole _ _ _ (resume_ne_nil _ _ _ _), resume] at hfits
      by_cases hfull : size - (text a).length ≤ 1
      · rw [if_pos hfull] at hfits
        have hfirst := hfits _ List.mem_cons_self
        simp only [List.nil_append, line, lines, List.flatMap_nil, List.append_nil,
          List.length_append, List.length_singleton] at hfirst
        have hexact : (text a).length + 1 = size := by omega
        rw [LinesFit, List.dropWhile_cons_of_pos (by simpa using hexact)]
        exact ih fun c hc => hfits c (List.mem_cons_of_mem _ hc)
      · rw [if_neg hfull] at hfits
        have hline : ([] ++ line (text a)).length = (text a).length + 1 := by simp [line]
        have hrest := length_le_of_contents mark (by omega) (by omega) hfits
        rw [LinesFit, List.dropWhile_cons_of_neg (by simp; omega), length_lines_cons]
        omega

end Layouts

/-! ## The writer -/

namespace BlockWriter
variable {α : Type} {text : α → Bytes} {size : Nat} {w : BlockWriter} {t : Bytes}

/-- How much the open block holds. -/
def used (w : BlockWriter) : Nat := (w.storage.block w.theBlock).length

/-- No block of the writer is too long. -/
structure Fits (size : Nat) (w : BlockWriter) : Prop where
  blockSize : w.storage.blockSize = size
  blocks : ∀ b ∈ w.blocks, (w.storage.block b).length ≤ size

theorem used_writeWhole (w : BlockWriter) (t : Bytes) :
    (w.writeWhole t).used = w.used + t.length + 1 := by
  simp [used, writeWhole, writeTkv, line, Nat.add_assoc]

theorem used_nextBlock (w : BlockWriter) : w.nextBlock.used = 0 := by
  simp [used, nextBlock]

theorem Fits.writeWhole (h : Fits size w) (hused : w.used + t.length + 1 ≤ size) :
    Fits size (w.writeWhole t) where
  blockSize := h.blockSize
  blocks b hb := by
    by_cases hopen : b = w.theBlock
    · rw [hopen]
      exact (used_writeWhole w t).le.trans hused
    · have hkept : (w.writeWhole t).storage.block b = w.storage.block b :=
        Function.update_of_ne hopen _ _
      rw [hkept]
      exact h.blocks b hb

theorem Fits.nextBlock (h : Fits size w) : Fits size w.nextBlock where
  blockSize := h.blockSize
  blocks b hb := by
    by_cases hopen : b = w.nextBlock.theBlock
    · rw [hopen]
      exact (used_nextBlock w).le.trans (Nat.zero_le _)
    · have hkept : w.nextBlock.storage.block b = w.storage.block b :=
        Function.update_of_ne hopen _ _
      rw [hkept]
      rcases List.mem_append.mp hb with hb | hb
      · exact h.blocks b hb
      · exact absurd (List.mem_singleton.mp hb) hopen

/-- A turn whose text the room is enough for. -/
theorem writeRecord_of_lt (h : t.length < w.room) : w.writeRecord t =
    some (if w.room - t.length ≤ 1 then (w.writeWhole t).nextBlock else w.writeWhole t) := by
  rw [writeRecord, if_pos h]
  rfl

/-- All texts behind each other in the open block, or in the next one. -/
theorem Fits.writeLines {items : List α} (h : Fits size w) (hroom : size ≤ w.used + w.room)
    (hlines : w.used + (lines text items).length ≤ size) :
    ∃ w', (items.map text).foldlM writeRecord w = some w' ∧ Fits size w' := by
  induction items generalizing w with
  | nil => exact ⟨w, rfl, h⟩
  | cons a rest ih =>
    rw [length_lines_cons] at hlines
    have hwhole := h.writeWhole (show w.used + (text a).length + 1 ≤ size by omega)
    have hused := used_writeWhole w (text a)
    rw [List.map_cons, List.foldlM_cons, writeRecord_of_lt (by omega)]
    by_cases hfull : w.room - (text a).length ≤ 1
    · simp only [if_pos hfull]
      have hnext := used_nextBlock (w.writeWhole (text a))
      refine ih hwhole.nextBlock ?_ (by omega)
      rw [hnext, Nat.zero_add]
      exact h.blockSize.ge
    · simp only [if_neg hfull]
      refine ih hwhole ?_ (by omega)
      rw [hused, writeWhole_room]
      omega

/-- Texts that fill their blocks, and then the others in one block. -/
theorem Fits.writeRecords {items : List α} (h : Fits size w) (hused : w.used = 0)
    (hroom : w.room = size) (hlines : LinesFit text size items) :
    ∃ w', (items.map text).foldlM writeRecord w = some w' ∧ Fits size w' := by
  induction items generalizing w with
  | nil => exact ⟨w, rfl, h⟩
  | cons a rest ih =>
    by_cases hfills : (text a).length + 1 = size
    · have hwhole := h.writeWhole (show w.used + (text a).length + 1 ≤ size by omega)
      rw [LinesFit, List.dropWhile_cons_of_pos (by simpa using hfills)] at hlines
      rw [List.map_cons, List.foldlM_cons, writeRecord_of_lt (by omega), if_pos (by omega)]
      exact ih hwhole.nextBlock (used_nextBlock _) h.blockSize hlines
    · rw [LinesFit, List.dropWhile_cons_of_neg (by simpa using hfills)] at hlines
      exact h.writeLines (by omega) (by omega)

end BlockWriter

/-! ## Dumps and partitions -/

/-- Each block that `dump_table` or `create_partition` writes for the records, whatever blocks are
free, has at most `blockSize` bytes. -/
def BlocksFit (blockSize : Nat) (records : List Record) : Prop :=
  ∀ base : Storage, base.blockSize = blockSize → ∀ after archive,
    dumpTable base (records.map convertToTkv) = some (after, archive) ∨
      createPartition base records = some (after, archive) →
    ∀ b ∈ archive.blocks, (after.block b).length ≤ blockSize

section Written
variable {blockSize : Nat} {records : List Record} {base after : Storage} {archive : Archive}

theorem blocks_of_linesFit (hlines : LinesFit convertToTkv base.blockSize records)
    (hrun : dumpTable base (records.map convertToTkv) = some (after, archive)) :
    ∀ b ∈ archive.blocks, (after.block b).length ≤ base.blockSize := by
  have hstart : (BlockWriter.start base).Fits base.blockSize := by
    apply BlockWriter.Fits.nextBlock
    exact ⟨rfl, fun b hb => absurd hb List.not_mem_nil⟩
  obtain ⟨w, hw, hfits⟩ := hstart.writeRecords (BlockWriter.used_nextBlock _) rfl hlines
  rw [dumpTable, writeTkvs, hw] at hrun
  obtain ⟨rfl, rfl⟩ := Prod.mk.inj (Option.some.inj hrun)
  exact hfits.blocks

/-- Where no block number 0 is listed, all blocks of the layout are there to be seen. -/
theorem exists_long_of_not_linesFit (hsize : 2 ≤ base.blockSize)
    (hlines : ¬ LinesFit convertToTkv base.blockSize records)
    (hrun : dumpTable base (records.map convertToTkv) = some (after, archive))
    (hzero : 0 ∉ archive.blocks) :
    ∃ b ∈ archive.blocks, base.blockSize < (after.block b).length := by
  obtain ⟨⟨after', blocks⟩, hwrite, heq⟩ := Option.bind_eq_some_iff.mp hrun
  obtain ⟨rfl, rfl⟩ := Prod.mk.inj (Option.some.inj heq)
  have hwritten := written_of_writeTkvs hsize hwrite hzero
  by_contra hall
  push Not at hall
  apply hlines
  apply linesFit_of_contents newline hsize
  intro c hc
  have hc' : c ∈ blocks.map after'.block := hwritten.blocks_eq ▸ hc
  obtain ⟨b, hb, rfl⟩ := List.mem_map.mp hc'
  exact hall b hb

end Written

/-- **When blocks respect the block size**: the records behind those whose texts have
`blockSize - 1` bytes fit into one block, each with its NUL.  Otherwise every run with enough free
blocks leaves a block that is too long. -/
theorem blocksFit_iff {blockSize : Nat} (hsize : 2 ≤ blockSize) (records : List Record) :
    (BlocksFit blockSize records ↔ LinesFit convertToTkv blockSize records) ∧
      (¬ LinesFit convertToTkv blockSize records → ∀ base after archive,
        base.blockSize = blockSize → createPartition base records = some (after, archive) →
          0 ∉ archive.blocks → ∃ b ∈ archive.blocks, blockSize < (after.block b).length) := by
  refine ⟨⟨fun hfits => ?_, fun hlines => ?_⟩, fun hlines => ?_⟩
  · -- On a formatted filesystem with as many blocks as the layout has.
    by_contra hlines
    let roomy := Storage.formatted blockSize (layoutBytes blockSize records).length
    have henough : (layoutBytes roomy.blockSize records).length ≤
        (availableBlocks roomy.bitmap).length := (availableFrom_replicate 0 _).ge
    obtain ⟨after, blocks, hwrite, hwritten⟩ :=
      writeTkvs_spec (show 2 ≤ roomy.blockSize from hsize) records henough
    have hrun : dumpTable roomy (records.map convertToTkv) =
        some (after, ⟨blocks, sizeOfAllTkvs after.blockSize (records.map convertToTkv)⟩) := by
      rw [dumpTable, hwrite]
      rfl
    have hzero : 0 ∉ blocks := fun hmem => zero_not_mem_availableBlocks roomy.bitmap
      (hwritten.free_eq ▸ List.mem_append_left _ hmem)
    obtain ⟨b, hb, hlong⟩ := exists_long_of_not_linesFit hsize hlines hrun hzero
    exact absurd (hfits roomy rfl _ _ (.inl hrun) b hb) (Nat.not_le.mpr hlong)
  · rintro base rfl after archive hrun
    exact blocks_of_linesFit hlines (hrun.elim id id)
  · rintro base after archive rfl hrun hzero
    exact exists_long_of_not_linesFit hsize hlines hrun hzero

/-- Two texts of five bytes in a block of twelve, as it takes both with their NULs. -/
theorem blocksFit_iff_two : BlocksFit 12 [⟨1, 1, [97]⟩, ⟨2, 2, [98]⟩] :=
  (blocksFit_iff (by decide) _).1.mpr (by decide +kernel)

/-- In a block of ten bytes they need twelve. -/
theorem not_blocksFit :
    ¬ BlocksFit 10 [⟨1, 1, [97]⟩, ⟨2, 2, [98]⟩] ∧
      ∃ after archive, createPartition (Storage.formatted 10 8) [⟨1, 1, [97]⟩, ⟨2, 2, [98]⟩] =
        some (after, archive) ∧ archive.blocks = [1, 2] ∧ (after.block 1).length = 12 := by
  have hwritten : (createPartition (Storage.formatted 10 8) [⟨1, 1, [97]⟩, ⟨2, 2, [98]⟩]).map
      (fun (after, archive) => (archive.blocks, (after.block 1).length)) = some ([1, 2], 12) := by
    decide +kernel
  obtain ⟨⟨after, archive⟩, hrun, heq⟩ := Option.map_eq_some_iff.mp hwritten
  obtain ⟨hblocks, hlength⟩ := Prod.mk.inj heq
  refine ⟨fun hfits => ?_, after, archive, hrun, hblocks, hlength⟩
  have hle := hfits _ rfl after archive (.inr hrun) 1 (by rw [hblocks]; exact List.mem_cons_self)
  omega

end Lissandra
