import Lissandra.BlockLayout
import Lissandra.RecordText

/-! # Writing records into blocks

The block files, the bitmap, and the loop that `dump_table` and `create_partition` share:
it fills the open block with texts, cuts the one that does not fit, and asks
`find_free_block` for the next block.  `find_free_block` answers -1 when no bit is clear,
and the block is then number 0, which no bitmap knows.

The loop writes the layout of `BlockLayout` into the first free blocks (`writeTkvs_spec`),
whatever these held, and touches nothing else.
-/
namespace Lissandra

/-! ## The bitmap -/

/-- `find_free_block`: the first clear bit, now set, or -1. -/
def findFreeBlock (bitmap : List Bool) : Int × List Bool :=
  match bitmap.findIdx? (fun bit => !bit) with
  | some i => ((i : Int), bitmap.set i true)
  | none => (-1, bitmap)

/-- The numbers of the free blocks from `start + 1` on; bit `i` belongs to block `i + 1`. -/
def availableFrom (start : Nat) : List Bool → List Nat
  | [] => []
  | bit :: bits =>
    if bit then availableFrom (start + 1) bits else (start + 1) :: availableFrom (start + 1) bits

/-- The free blocks, in the order `find_free_block` finds them. -/
def availableBlocks (bitmap : List Bool) : List Nat := availableFrom 0 bitmap

/-! ## The storage -/

/-- `fs_metadata->block_size`, the stored bitmap and the files `Bloques/<n>.bin`. -/
structure Storage where
  blockSize : Nat
  bitmap : List Bool
  block : Nat → Bytes

/-- A filesystem that `block_creator` has just formatted. -/
def Storage.formatted (blockSize blocks : Nat) : Storage :=
  ⟨blockSize, List.replicate blocks false, fun _ => []⟩

/-- The locals of the loop: the blocks listed so far, the open one and the room that
`block_size` says it has left. -/
structure BlockWriter where
  storage : Storage
  blocks : List Nat
  theBlock : Nat
  room : Nat

namespace BlockWriter

/-- Take a free block, list it and open it for writing, which empties it. -/
def nextBlock (w : BlockWriter) : BlockWriter :=
  let (free, bitmap) := findFreeBlock w.storage.bitmap
  let theBlock := (free + 1).toNat
  { storage := { w.storage with bitmap, block := Function.update w.storage.block theBlock [] }
    blocks := w.blocks ++ [theBlock]
    theBlock
    room := w.storage.blockSize }

/-- `write_tkv`: the text and its NUL at the end of the open block. -/
def writeTkv (tkv : Bytes) (w : BlockWriter) : BlockWriter :=
  { w with
    storage :=
      { w.storage with
        block := Function.update w.storage.block w.theBlock
          (w.storage.block w.theBlock ++ line tkv) } }

/-- The text and its length taken off the room. -/
def writeWhole (tkv : Bytes) (w : BlockWriter) : BlockWriter :=
  { w.writeTkv tkv with room := w.room - tkv.length }

/-- The inner `while (true)`: parts with a mark until the rest fits. -/
def writePieces : Nat → Bytes → BlockWriter → Option BlockWriter
  | 0, _, _ => none
  | fuel + 1, tkv, w =>
    if tkv.length ≤ w.room then some (w.writeWhole tkv)
    else
      writePieces fuel (tkv.drop (w.room - 1))
        (w.writeTkv (tkv.take (w.room - 1) ++ [newline])).nextBlock

/-- One turn of the outer loop. -/
def writeRecord (w : BlockWriter) (tkv : Bytes) : Option BlockWriter := do
  let w ← if tkv.length < w.room then some (w.writeWhole tkv)
    else writePieces (tkv.length + 2) tkv w
  some (if w.room ≤ 1 then w.nextBlock else w)

/-- The prologue: the first block. -/
def start (storage : Storage) : BlockWriter := nextBlock ⟨storage, [], 0, 0⟩

end BlockWriter

/-- The blocks written for a list of texts, and the storage after it.  `none` is a loop
that does not end. -/
def writeTkvs (storage : Storage) (tkvs : List Bytes) : Option (Storage × List Nat) := do
  let w ← tkvs.foldlM BlockWriter.writeRecord (BlockWriter.start storage)
  some (w.storage, w.blocks)

/-- `size_of_all_tkvs`. -/
def sizeOfAllTkvs (blockSize : Nat) (tkvs : List Bytes) : Int :=
  (tkvs.map fun tkv =>
    let extraBits : Int := tkv.length / (blockSize - 1)
    tkv.length + (if tkv.length % blockSize = 0 then extraBits - 1 else extraBits)).sum

/-- `partition_t`, the contents of an archive; `number_of_blocks` is the length of the
list. -/
structure Archive where
  blocks : List Nat
  size : Int
  deriving DecidableEq

/-- `dump_table`: the blocks written for a table of the memtable, and the archive that
`create_fs_archive` stores for them. -/
def dumpTable (storage : Storage) (tkvs : List Bytes) : Option (Storage × Archive) := do
  let (storage, blocks) ← writeTkvs storage tkvs
  some (storage, ⟨blocks, sizeOfAllTkvs storage.blockSize tkvs⟩)

/-- `create_partition`, likewise for the records of a partition. -/
def createPartition (storage : Storage) (tkvs : List Record) : Option (Storage × Archive) :=
  dumpTable storage (tkvs.map convertToTkv)

/-! ## Free blocks -/

theorem availableFrom_nil_iff {start : Nat} {bitmap : List Bool} :
    availableFrom start bitmap = [] ↔ bitmap.findIdx? (fun bit => !bit) = none := by
  induction bitmap generalizing start with
  | nil => simp [availableFrom]
  | cons bit bits ih => cases bit <;> simp [availableFrom, ih, List.findIdx?_cons]

theorem availableFrom_cons {start b : Nat} {bitmap : List Bool} {rest : List Nat}
    (h : availableFrom start bitmap = b :: rest) :
    ∃ i, bitmap.findIdx? (fun bit => !bit) = some i ∧ b = start + i + 1 ∧
      availableFrom start (bitmap.set i true) = rest := by
  induction bitmap generalizing start with
  | nil => simp [availableFrom] at h
  | cons bit bits ih =>
    cases bit with
    | true =>
      rw [availableFrom, if_pos rfl] at h
      obtain ⟨i, hfind, hb, hrest⟩ := ih h
      refine ⟨i + 1, ?_, by omega, ?_⟩
      · simp [List.findIdx?_cons, hfind]
      · simpa [availableFrom] using hrest
    | false =>
      simp only [availableFrom, Bool.false_eq_true, if_false, List.cons.injEq] at h
      exact ⟨0, by simp [List.findIdx?_cons], by omega, by simpa [availableFrom] using h.2⟩

theorem mem_availableFrom {start b : Nat} {bitmap : List Bool} :
    b ∈ availableFrom start bitmap ↔ ∃ i, b = start + i + 1 ∧ bitmap[i]? = some false := by
  induction bitmap generalizing start with
  | nil => simp [availableFrom]
  | cons bit bits ih =>
    have shift : (∃ i, b = start + 1 + i + 1 ∧ bits[i]? = some false) ↔
        ∃ i, b = start + (i + 1) + 1 ∧ (bit :: bits)[i + 1]? = some false := by
      simp [Nat.add_assoc, Nat.add_comm 1]
    constructor
    · intro h
      cases bit with
      | true =>
        obtain ⟨i, hi⟩ := shift.mp (ih.mp h)
        exact ⟨i + 1, hi⟩
      | false =>
        rcases List.mem_cons.mp h with rfl | h
        · exact ⟨0, rfl, rfl⟩
        · obtain ⟨i, hi⟩ := shift.mp (ih.mp h)
          exact ⟨i + 1, hi⟩
    · rintro ⟨_ | i, hb, hi⟩
      · obtain rfl : bit = false := by simpa using hi
        rw [hb]
        exact List.mem_cons_self
      · have hmem := ih.mpr (shift.mpr ⟨i, hb, hi⟩)
        cases bit with
        | true => exact hmem
        | false => exact List.mem_cons_of_mem _ hmem

theorem availableFrom_nodup (start : Nat) (bitmap : List Bool) :
    (availableFrom start bitmap).Nodup := by
  induction bitmap generalizing start with
  | nil => exact List.nodup_nil
  | cons bit bits ih =>
    cases bit with
    | true => exact ih _
    | false =>
      refine List.nodup_cons.mpr ⟨fun h => ?_, ih _⟩
      obtain ⟨i, hi, -⟩ := mem_availableFrom.mp h
      omega

theorem availableFrom_replicate (start n : Nat) :
    (availableFrom start (List.replicate n false)).length = n := by
  induction n generalizing start with
  | zero => rfl
  | succ n ih => simp [List.replicate_succ, availableFrom, ih]

/-- Block `b` is free: it has a bit, and the bit is clear. -/
theorem mem_availableBlocks {b : Nat} {bitmap : List Bool} :
    b ∈ availableBlocks bitmap ↔ ∃ i, b = i + 1 ∧ bitmap[i]? = some false := by
  simp [availableBlocks, mem_availableFrom]

theorem availableBlocks_nodup (bitmap : List Bool) : (availableBlocks bitmap).Nodup :=
  availableFrom_nodup 0 bitmap

theorem zero_not_mem_availableBlocks (bitmap : List Bool) : 0 ∉ availableBlocks bitmap := by
  intro h
  obtain ⟨i, hi, -⟩ := mem_availableBlocks.mp h
  omega

/-- What `find_free_block` does while a block is free. -/
theorem findFreeBlock_cons {bitmap : List Bool} {b : Nat} {rest : List Nat}
    (h : availableBlocks bitmap = b :: rest) :
    ∃ i, b = i + 1 ∧ i < bitmap.length ∧ findFreeBlock bitmap = ((i : Int), bitmap.set i true) ∧
      availableBlocks (bitmap.set i true) = rest := by
  obtain ⟨i, hfind, hb, hrest⟩ := availableFrom_cons h
  refine ⟨i, by omega, ?_, by rw [findFreeBlock, hfind], hrest⟩
  obtain ⟨hlt, -⟩ := List.findIdx?_eq_some_iff_findIdx_eq.mp hfind
  exact hlt

/-- And when none is. -/
theorem findFreeBlock_nil {bitmap : List Bool} (h : availableBlocks bitmap = []) :
    findFreeBlock bitmap = (-1, bitmap) := by
  rw [findFreeBlock, availableFrom_nil_iff.mp h]

theorem length_findFreeBlock (bitmap : List Bool) :
    (findFreeBlock bitmap).2.length = bitmap.length := by
  rw [findFreeBlock]
  split
  · exact List.length_set
  · rfl

/-! ## The loop writes the layout -/

namespace BlockWriter

/-- A writer that started on `base`, filled the blocks `closed` with `done` and has
`current` in the open one: its blocks are the first of `base`'s free ones, the free ones
left are the others, and no other block was touched. -/
structure Wrote (base : Storage) (closed : List Nat) (done : List Bytes) (current : Bytes)
    (w : BlockWriter) : Prop where
  blockSize : w.storage.blockSize = base.blockSize
  blocks_eq : w.blocks = closed ++ [w.theBlock]
  done_eq : closed.map w.storage.block = done
  current_eq : w.storage.block w.theBlock = current
  free_eq : availableBlocks base.bitmap = w.blocks ++ availableBlocks w.storage.bitmap
  frame : ∀ b ∉ w.blocks, w.storage.block b = base.block b
  bits : ∀ i, w.storage.bitmap[i]? = if i + 1 ∈ w.blocks then some true else base.bitmap[i]?

section Wrote
variable {base : Storage} {w : BlockWriter} {closed : List Nat} {done : List Bytes}
  {current : Bytes}

theorem Wrote.nodup (h : Wrote base closed done current w) : w.blocks.Nodup :=
  (List.nodup_append.mp (h.free_eq ▸ availableBlocks_nodup base.bitmap)).1

theorem Wrote.not_free (h : Wrote base closed done current w) {b : Nat} (hb : b ∈ w.blocks) :
    b ∉ availableBlocks w.storage.bitmap := fun hfree =>
  (List.nodup_append.mp (h.free_eq ▸ availableBlocks_nodup base.bitmap)).2.2 b hb b hfree rfl

theorem Wrote.theBlock_mem (h : Wrote base closed done current w) : w.theBlock ∈ w.blocks := by
  rw [h.blocks_eq]
  exact List.mem_append_right _ List.mem_cons_self

theorem Wrote.theBlock_not_mem (h : Wrote base closed done current w) : w.theBlock ∉ closed := by
  intro hmem
  have hnodup := h.nodup
  rw [h.blocks_eq] at hnodup
  exact (List.nodup_append.mp hnodup).2.2 _ hmem _ List.mem_cons_self rfl

theorem Wrote.contents_eq (h : Wrote base closed done current w) :
    w.blocks.map w.storage.block = done ++ [current] := by
  rw [h.blocks_eq, List.map_append, h.done_eq, List.map_singleton, h.current_eq]

/-- The blocks written so far and the free ones are those that were free. -/
theorem Wrote.length_eq (h : Wrote base closed done current w) :
    done.length + 1 + (availableBlocks w.storage.bitmap).length =
      (availableBlocks base.bitmap).length := by
  have hlen := congrArg List.length h.contents_eq
  rw [h.free_eq, List.length_append]
  simp only [List.length_map, List.length_append, List.length_singleton] at hlen
  omega

/-- Appending to the open block. -/
theorem Wrote.writeTkv (h : Wrote base closed done current w) (tkv : Bytes) :
    Wrote base closed done (current ++ line tkv) (w.writeTkv tkv) where
  blockSize := h.blockSize
  blocks_eq := h.blocks_eq
  done_eq := by
    rw [← h.done_eq]
    exact List.map_congr_left fun b hb =>
      Function.update_of_ne (ne_of_mem_of_not_mem hb h.theBlock_not_mem) _ _
  current_eq := by simp [BlockWriter.writeTkv, h.current_eq]
  free_eq := h.free_eq
  frame b hb := (Function.update_of_ne (ne_of_mem_of_not_mem h.theBlock_mem hb).symm _ _).trans
    (h.frame b hb)
  bits := h.bits

theorem Wrote.writeWhole (h : Wrote base closed done current w) (tkv : Bytes) :
    Wrote base closed done (current ++ line tkv) (w.writeWhole tkv) :=
  { h.writeTkv tkv with }

theorem writeWhole_room (tkv : Bytes) : (w.writeWhole tkv).room = w.room - tkv.length := rfl

/-- What `nextBlock` does while a block is free. -/
theorem nextBlock_eq {b : Nat} {rest : List Nat}
    (h : availableBlocks w.storage.bitmap = b :: rest) :
    ∃ i, b = i + 1 ∧ i < w.storage.bitmap.length ∧
      availableBlocks (w.storage.bitmap.set i true) = rest ∧
      w.nextBlock = ⟨⟨w.storage.blockSize, w.storage.bitmap.set i true,
        Function.update w.storage.block b []⟩, w.blocks ++ [b], b, w.storage.blockSize⟩ := by
  obtain ⟨i, rfl, hlt, hfind, hrest⟩ := findFreeBlock_cons h
  refine ⟨i, rfl, hlt, hrest, ?_⟩
  simp only [nextBlock, hfind]
  rfl

/-- Closing the open block and opening the next. -/
theorem Wrote.nextBlock (h : Wrote base closed done current w)
    (hfree : done.length + 1 < (availableBlocks base.bitmap).length) :
    Wrote base (closed ++ [w.theBlock]) (done ++ [current]) [] w.nextBlock ∧
      w.nextBlock.room = base.blockSize := by
  have hlen := h.length_eq
  cases hb : availableBlocks w.storage.bitmap with
  | nil => rw [hb] at hlen; simp at hlen; omega
  | cons b rest =>
    obtain ⟨i, hi, hbit, hrest, hnext⟩ := nextBlock_eq hb
    have hnew : b ∉ w.blocks := fun hmem => h.not_free hmem (hb ▸ List.mem_cons_self)
    rw [hnext]
    refine ⟨⟨h.blockSize, by rw [h.blocks_eq], ?_, by simp, ?_, ?_, ?_⟩, h.blockSize⟩
    · rw [← h.blocks_eq, ← h.contents_eq]
      exact List.map_congr_left fun c hc =>
        Function.update_of_ne (ne_of_mem_of_not_mem hc hnew) _ _
    · rw [hrest, h.free_eq, hb, List.append_assoc]
      rfl
    · intro c hc
      have hne : c ≠ b := fun heq => hc (heq ▸ List.mem_append_right _ List.mem_cons_self)
      exact (Function.update_of_ne hne _ _).trans
        (h.frame c fun hmem => hc (List.mem_append_left _ hmem))
    · intro j
      by_cases hj : j = i
      · subst hj
        simp [hi, hbit]
      · have hji : j + 1 ≠ b := by omega
        rw [List.getElem?_set_ne (Ne.symm hj), h.bits]
        simp [hji]

/-- The inner loop on a fresh block: full blocks, each with its mark, then the last part. -/
theorem Wrote.writePieces (hsize : 2 ≤ base.blockSize) (fuel : Nat) {t : Bytes}
    (h : Wrote base closed done [] w) (hroom : w.room = base.blockSize) (hfuel : t.length ≤ fuel)
    (hfree : done.length + (cutPieces base.blockSize fuel t).1.length + 1
      ≤ (availableBlocks base.bitmap).length) :
    ∃ closed' w', BlockWriter.writePieces (fuel + 1) t w = some w' ∧
      Wrote base closed' (done ++ (cutPieces base.blockSize fuel t).1.map (markedLine newline))
        (line (cutPieces base.blockSize fuel t).2) w' ∧
      w'.room = base.blockSize - (cutPieces base.blockSize fuel t).2.length := by
  induction fuel generalizing t w closed done with
  | zero =>
    have hlen : t.length = 0 := by omega
    rw [BlockWriter.writePieces, if_pos (by omega)]
    exact ⟨closed,
      _, rfl, by simpa [cutPieces] using h.writeWhole t, by rw [writeWhole_room, hroom, cutPieces]⟩
  | succ fuel ih =>
    rw [cutPieces] at hfree ⊢
    rw [BlockWriter.writePieces, hroom]
    by_cases hfits : t.length ≤ base.blockSize
    · rw [if_pos hfits, if_pos hfits]
      exact ⟨closed, _, rfl, by simpa using h.writeWhole t, by rw [writeWhole_room, hroom]⟩
    · rw [if_neg hfits] at hfree ⊢
      rw [if_neg hfits]
      simp only [List.length_cons] at hfree
      obtain ⟨hnext, hroom'⟩ := (h.writeTkv (t.take (base.blockSize - 1) ++ [newline])).nextBlock
        (by omega)
      rw [List.nil_append, line_mark] at hnext
      obtain ⟨closed', w', hrun, hwrote, hlast⟩ :=
        ih (t := t.drop (base.blockSize - 1)) hnext hroom' (by rw [List.length_drop]; omega)
          (by simp only [List.length_append, List.length_singleton]; omega)
      refine ⟨closed', w', hrun, ?_, hlast⟩
      simpa using hwrote

/-- The end of a turn: a block that is full, or has one byte left, is closed. -/
theorem Wrote.endTurn {α : Type} (text : α → Bytes) (rest : List α)
    (h : Wrote base closed done current w) (hsize : 2 ≤ base.blockSize)
    (hroom : w.room ≤ base.blockSize)
    (hfree : (done ++ contents newline current (resume text base.blockSize w.room rest)).length
      ≤ (availableBlocks base.bitmap).length) :
    ∃ closed' done' current' w', (if w.room ≤ 1 then w.nextBlock else w) = w' ∧
      Wrote base closed' done' current' w' ∧ 2 ≤ w'.room ∧ w'.room ≤ base.blockSize ∧
      done' ++ contents newline current' (segments text base.blockSize w'.room rest)
        = done ++ contents newline current (resume text base.blockSize w.room rest) := by
  rw [resume] at hfree ⊢
  by_cases hfull : w.room ≤ 1
  · simp only [if_pos hfull] at hfree ⊢
    have hne := contents_ne_nil newline []
      (segments_ne_nil text base.blockSize base.blockSize rest)
    have hpos := List.length_pos_iff.mpr hne
    simp only [contents, List.length_append, List.length_cons] at hfree
    obtain ⟨hnext, hroom'⟩ := h.nextBlock (by omega)
    refine ⟨_, _, _, _, rfl, hnext, by omega, by omega, ?_⟩
    rw [hroom', List.append_assoc]
    simp [contents, lines]
  · simp only [if_neg hfull]
    exact ⟨_, _, _, _, rfl, h, by omega, hroom, rfl⟩

/-- One turn of the loop writes one more item of the layout. -/
theorem Wrote.writeRecord {α : Type} {text : α → Bytes} {a : α} {rest : List α}
    (h : Wrote base closed done current w) (hsize : 2 ≤ base.blockSize) (hroom : 2 ≤ w.room)
    (hroom' : w.room ≤ base.blockSize)
    (hfree : (done ++ contents newline current
      (segments text base.blockSize w.room (a :: rest))).length
      ≤ (availableBlocks base.bitmap).length) :
    ∃ closed' done' current' w', w.writeRecord (text a) = some w' ∧
      Wrote base closed' done' current' w' ∧ 2 ≤ w'.room ∧ w'.room ≤ base.blockSize ∧
      done' ++ contents newline current' (segments text base.blockSize w'.room rest)
        = done ++ contents newline current (segments text base.blockSize w.room (a :: rest)) := by
  rcases Nat.lt_or_ge w.room (text a).length with hlong | hfits
  · let cut := cutAt base.blockSize w.room a hlong
    have hcontents : contents newline current (segments text base.blockSize w.room (a :: rest)) =
        (current ++ markedLine newline cut.head) :: (cut.middle.map (markedLine newline) ++
          contents newline (line cut.tail)
            (resume text base.blockSize (base.blockSize - cut.tail.length) rest)) := by
      rw [segments_cut hlong]
      simp [contents, lines, cut]
    have hpos := List.length_pos_iff.mpr (contents_ne_nil newline (line cut.tail)
      (resume_ne_nil text base.blockSize (base.blockSize - cut.tail.length) rest))
    rw [hcontents] at hfree ⊢
    simp only [List.length_append, List.length_cons, List.length_map] at hfree
    -- The head of the text, with the mark, closes the open block.
    obtain ⟨hnext, hroom₁⟩ :=
      (h.writeTkv ((text a).take (w.room - 1) ++ [newline])).nextBlock (by omega)
    rw [line_mark] at hnext
    obtain ⟨closed₂, w₂, hrun, hwrote, hroom₂⟩ :=
      hnext.writePieces (t := (text a).drop (w.room - 1)) hsize (text a).length hroom₁
        (by rw [List.length_drop]; omega)
        (by
          have hmiddle : cut.middle.length = (cutPieces base.blockSize (text a).length
            ((text a).drop (w.room - 1))).1.length := rfl
          rw [List.length_append, List.length_singleton]
          omega)
    have hturn : w.writeRecord (text a) = some (if w₂.room ≤ 1 then w₂.nextBlock else w₂) := by
      rw [BlockWriter.writeRecord, if_neg (by omega), BlockWriter.writePieces, if_neg (by omega),
        hrun]
      rfl
    obtain ⟨closed', done', current', w', hw', hwrote', hlow, hhigh, heq⟩ :=
      hwrote.endTurn text rest hsize (by omega) (by
        rw [hroom₂]
        simp only [List.length_append, List.length_map, List.length_singleton]
        change _ + 1 + cut.middle.length + (contents newline (line cut.tail)
          (resume text base.blockSize (base.blockSize - cut.tail.length) rest)).length ≤ _
        omega)
    refine ⟨closed', done', current', w', by rw [hturn, hw'], hwrote', hlow, hhigh, ?_⟩
    rw [heq, hroom₂, List.append_assoc, List.append_assoc]
    rfl
  · rw [segments_whole hfits, contents_addWhole _ _ _ (resume_ne_nil _ _ _ _)] at hfree ⊢
    have hturn : w.writeRecord (text a) =
        some (if (w.writeWhole (text a)).room ≤ 1 then (w.writeWhole (text a)).nextBlock
          else w.writeWhole (text a)) := by
      rw [BlockWriter.writeRecord]
      by_cases hlt : (text a).length < w.room
      · rw [if_pos hlt]
        rfl
      · rw [if_neg hlt, BlockWriter.writePieces, if_pos hfits]
        rfl
    obtain ⟨closed', done', current', w', hw', hrest⟩ :=
      (h.writeWhole (text a)).endTurn text rest hsize
        ((Nat.sub_le _ _).trans hroom') hfree
    exact ⟨closed', done', current', w', by rw [hturn, hw'], hrest⟩

/-- The loop writes the layout of the items that are left. -/
theorem Wrote.writeRecords {α : Type} (text : α → Bytes) (items : List α)
    (h : Wrote base closed done current w) (hsize : 2 ≤ base.blockSize) (hroom : 2 ≤ w.room)
    (hroom' : w.room ≤ base.blockSize)
    (hfree : (done ++ contents newline current (segments text base.blockSize w.room items)).length
      ≤ (availableBlocks base.bitmap).length) :
    ∃ closed' done' current' w', (items.map text).foldlM BlockWriter.writeRecord w = some w' ∧
      Wrote base closed' done' current' w' ∧
      done' ++ [current'] = done ++ contents newline current
      (segments text base.blockSize w.room items) := by
  induction items generalizing closed done current w with
  | nil => exact ⟨closed, done, current, w, rfl, h, by simp [segments, contents, lines]⟩
  | cons a rest ih =>
    obtain ⟨closed₁, done₁, current₁, w₁, hturn, hwrote, hlow, hhigh, heq⟩ :=
      h.writeRecord hsize hroom hroom' hfree
    obtain ⟨closed', done', current', w', hrun, hwrote', heq'⟩ :=
      ih hwrote hlow hhigh (by rw [heq]; exact hfree)
    refine ⟨closed', done', current', w', ?_, hwrote', by rw [heq', heq]⟩
    rw [List.map_cons, List.foldlM_cons, hturn]
    exact hrun

end Wrote

theorem wrote_start {base : Storage} (hfree : availableBlocks base.bitmap ≠ []) :
    Wrote base [] [] [] (start base) ∧ (start base).room = base.blockSize := by
  obtain ⟨b, rest, hb⟩ := List.exists_cons_of_ne_nil hfree
  obtain ⟨i, hi, hbit, hrest, hnext⟩ := nextBlock_eq (w := ⟨base, [], 0, 0⟩) hb
  rw [start, hnext]
  refine ⟨⟨rfl, rfl, rfl, by simp, ?_, ?_, ?_⟩, rfl⟩
  · simp [hrest, hb]
  · intro c hc
    exact Function.update_of_ne (fun heq => hc (by simp [heq])) _ _
  · intro j
    by_cases hj : j = i
    · subst hj
      simp [hi, hbit]
    · have hji : j + 1 ≠ b := by omega
      rw [List.getElem?_set_ne (Ne.symm hj)]
      simp [hji]

end BlockWriter

/-- What a run of the loop leaves: the bytes in blocks that were free, and everything
else as it was. -/
structure Written (base : Storage) (bytes : List Bytes) (after : Storage) (blocks : List Nat) :
    Prop where
  blockSize : after.blockSize = base.blockSize
  blocks_eq : blocks.map after.block = bytes
  free_eq : availableBlocks base.bitmap = blocks ++ availableBlocks after.bitmap
  frame : ∀ b ∉ blocks, after.block b = base.block b
  bits : ∀ i, after.bitmap[i]? = if i + 1 ∈ blocks then some true else base.bitmap[i]?

/-- The blocks that a list of records takes. -/
def layoutBytes (blockSize : Nat) (records : List Record) : List Bytes :=
  contents newline [] (layout convertToTkv blockSize records)

/-- **The loop refines the layout.**  With enough free blocks, `dump_table` and
`create_partition` end and write the layout of their records, in order, into the first
free blocks. -/
theorem writeTkvs_spec {base : Storage} (hsize : 2 ≤ base.blockSize) (records : List Record)
    (hfree : (layoutBytes base.blockSize records).length ≤ (availableBlocks base.bitmap).length) :
    ∃ after blocks, writeTkvs base (records.map convertToTkv) = some (after, blocks) ∧
      Written base (layoutBytes base.blockSize records) after blocks := by
  have hne : availableBlocks base.bitmap ≠ [] := by
    intro hnil
    rw [hnil, List.length_nil, Nat.le_zero, List.length_eq_zero_iff] at hfree
    exact contents_ne_nil newline [] (segments_ne_nil _ _ _ _) hfree
  obtain ⟨hstart, hroom⟩ := BlockWriter.wrote_start hne
  obtain ⟨closed, done, current, w, hrun, hwrote, heq⟩ :=
    hstart.writeRecords convertToTkv records hsize (by omega) (by omega) (by rwa [hroom])
  refine ⟨w.storage, w.blocks, ?_, hwrote.blockSize, ?_, hwrote.free_eq, hwrote.frame, hwrote.bits⟩
  · rw [writeTkvs, hrun]
    rfl
  · rw [hwrote.contents_eq, heq, hroom]
    rfl

/-! ## Running out of blocks -/

namespace BlockWriter

/-- Two writers at the same point of their blocks.  What the loop does next does not
depend on anything else. -/
structure SameShape (w v : BlockWriter) : Prop where
  room : w.room = v.room
  blockSize : w.storage.blockSize = v.storage.blockSize
  length : w.blocks.length = v.blocks.length

/-- The blocks taken so far, but for the blocks number 0 of failed searches, are the first
of those that were free. -/
def Took (base : Storage) (w : BlockWriter) : Prop :=
  availableBlocks base.bitmap = w.blocks.filter (· ≠ 0) ++ availableBlocks w.storage.bitmap

variable {base : Storage} {w v : BlockWriter}

theorem SameShape.nextBlock (h : SameShape w v) : SameShape w.nextBlock v.nextBlock :=
  ⟨h.blockSize, h.blockSize, by simp [BlockWriter.nextBlock, h.length]⟩

theorem SameShape.writePieces (fuel : Nat) {t : Bytes} {v' : BlockWriter} (h : SameShape w v)
    (hrun : BlockWriter.writePieces fuel t v = some v') :
    ∃ w', BlockWriter.writePieces fuel t w = some w' ∧ SameShape w' v' := by
  induction fuel generalizing t w v with
  | zero => simp [BlockWriter.writePieces] at hrun
  | succ fuel ih =>
    rw [BlockWriter.writePieces] at hrun ⊢
    rw [h.room]
    by_cases hfits : t.length ≤ v.room
    · rw [if_pos hfits] at hrun ⊢
      obtain rfl := Option.some.inj hrun
      exact ⟨_, rfl, by rw [writeWhole_room, writeWhole_room, h.room], h.blockSize, h.length⟩
    · rw [if_neg hfits] at hrun ⊢
      have hnext : SameShape (w.writeTkv (t.take (v.room - 1) ++ [newline])).nextBlock
          (v.writeTkv (t.take (v.room - 1) ++ [newline])).nextBlock :=
        SameShape.nextBlock ⟨h.room, h.blockSize, h.length⟩
      exact ih hnext hrun

theorem SameShape.writeRecord {t : Bytes} {v' : BlockWriter} (h : SameShape w v)
    (hrun : v.writeRecord t = some v') : ∃ w', w.writeRecord t = some w' ∧ SameShape w' v' := by
  have hend : ∀ {w₁ v₁ : BlockWriter}, SameShape w₁ v₁ →
      SameShape (if w₁.room ≤ 1 then w₁.nextBlock else w₁)
        (if v₁.room ≤ 1 then v₁.nextBlock else v₁) := by
    intro w₁ v₁ h₁
    rw [h₁.room]
    split
    · exact h₁.nextBlock
    · exact h₁
  rw [BlockWriter.writeRecord] at hrun ⊢
  rw [h.room]
  by_cases hlt : t.length < v.room
  · rw [if_pos hlt] at hrun ⊢
    obtain rfl := Option.some.inj hrun
    exact ⟨_, rfl, hend ⟨by rw [writeWhole_room, writeWhole_room, h.room], h.blockSize, h.length⟩⟩
  · rw [if_neg hlt] at hrun ⊢
    obtain ⟨v₁, hpieces, hv'⟩ := Option.bind_eq_some_iff.mp hrun
    obtain ⟨w₁, hpieces', hshape⟩ := h.writePieces (t.length + 2) hpieces
    obtain rfl := Option.some.inj hv'
    exact ⟨_, by rw [hpieces']; rfl, hend hshape⟩

theorem SameShape.writeRecords {tkvs : List Bytes} {v' : BlockWriter} (h : SameShape w v)
    (hrun : tkvs.foldlM BlockWriter.writeRecord v = some v') :
    ∃ w', tkvs.foldlM BlockWriter.writeRecord w = some w' ∧ SameShape w' v' := by
  induction tkvs generalizing w v with
  | nil =>
    obtain rfl := Option.some.inj hrun
    exact ⟨w, rfl, h⟩
  | cons t tkvs ih =>
    rw [List.foldlM_cons] at hrun
    obtain ⟨v₁, hturn, hrest⟩ := Option.bind_eq_some_iff.mp hrun
    obtain ⟨w₁, hturn', hshape⟩ := h.writeRecord hturn
    obtain ⟨w', hrest', hshape'⟩ := ih hshape hrest
    exact ⟨w', by rw [List.foldlM_cons, hturn']; exact hrest', hshape'⟩

theorem Took.nextBlock (h : Took base w) : Took base w.nextBlock := by
  cases hb : availableBlocks w.storage.bitmap with
  | nil =>
    simp only [Took, BlockWriter.nextBlock, findFreeBlock_nil hb]
    rw [Took, hb] at h
    simp [h, hb]
  | cons b rest =>
    obtain ⟨i, hi, -, hrest, hnext⟩ := nextBlock_eq hb
    rw [Took, hb] at h
    rw [Took, hnext, h, List.filter_append, hrest]
    simp [hi]

/-- What writing to the open block and taking the next one preserve, the loop preserves. -/
theorem writePieces_invariant {P : Storage → List Nat → Nat → Prop}
    (hwrite : ∀ (w : BlockWriter) (tkv : Bytes), P w.storage w.blocks w.theBlock →
      P (w.writeTkv tkv).storage w.blocks w.theBlock)
    (hnext : ∀ w : BlockWriter, P w.storage w.blocks w.theBlock →
      P w.nextBlock.storage w.nextBlock.blocks w.nextBlock.theBlock) (fuel : Nat)
    {t : Bytes} {w' : BlockWriter} (h : P w.storage w.blocks w.theBlock)
    (hrun : BlockWriter.writePieces fuel t w = some w') : P w'.storage w'.blocks w'.theBlock := by
  induction fuel generalizing t w with
  | zero => simp [BlockWriter.writePieces] at hrun
  | succ fuel ih =>
    rw [BlockWriter.writePieces] at hrun
    split at hrun
    · obtain rfl := Option.some.inj hrun
      exact hwrite w t h
    · exact ih (hnext _ (hwrite w _ h)) hrun

theorem writeRecord_invariant {P : Storage → List Nat → Nat → Prop}
    (hwrite : ∀ (w : BlockWriter) (tkv : Bytes), P w.storage w.blocks w.theBlock →
      P (w.writeTkv tkv).storage w.blocks w.theBlock)
    (hnext : ∀ w : BlockWriter, P w.storage w.blocks w.theBlock →
      P w.nextBlock.storage w.nextBlock.blocks w.nextBlock.theBlock)
    {t : Bytes} {w' : BlockWriter} (h : P w.storage w.blocks w.theBlock)
    (hrun : w.writeRecord t = some w') : P w'.storage w'.blocks w'.theBlock := by
  have hend : ∀ w₁ : BlockWriter, P w₁.storage w₁.blocks w₁.theBlock →
      P (if w₁.room ≤ 1 then w₁.nextBlock else w₁).storage
        (if w₁.room ≤ 1 then w₁.nextBlock else w₁).blocks
        (if w₁.room ≤ 1 then w₁.nextBlock else w₁).theBlock := by
    intro w₁ h₁
    split
    · exact hnext w₁ h₁
    · exact h₁
  rw [BlockWriter.writeRecord] at hrun
  split at hrun
  · obtain rfl := Option.some.inj hrun
    exact hend (w.writeWhole t) (hwrite w t h)
  · obtain ⟨w₁, hpieces, hw'⟩ := Option.bind_eq_some_iff.mp hrun
    obtain rfl := Option.some.inj hw'
    exact hend w₁ (writePieces_invariant hwrite hnext _ h hpieces)

theorem writeRecords_invariant {P : Storage → List Nat → Nat → Prop}
    (hwrite : ∀ (w : BlockWriter) (tkv : Bytes), P w.storage w.blocks w.theBlock →
      P (w.writeTkv tkv).storage w.blocks w.theBlock)
    (hnext : ∀ w : BlockWriter, P w.storage w.blocks w.theBlock →
      P w.nextBlock.storage w.nextBlock.blocks w.nextBlock.theBlock)
    {tkvs : List Bytes} {w' : BlockWriter} (h : P w.storage w.blocks w.theBlock)
    (hrun : tkvs.foldlM BlockWriter.writeRecord w = some w') :
    P w'.storage w'.blocks w'.theBlock := by
  induction tkvs generalizing w with
  | nil =>
    obtain rfl := Option.some.inj hrun
    exact h
  | cons t tkvs ih =>
    rw [List.foldlM_cons] at hrun
    obtain ⟨w₁, hturn, hrest⟩ := Option.bind_eq_some_iff.mp hrun
    exact ih (writeRecord_invariant hwrite hnext h hturn) hrest

end BlockWriter

section AnyTexts
variable {base after : Storage} {tkvs : List Bytes} {blocks : List Nat}

/-- Whatever the texts are: the blocks listed that are not number 0 are the first free ones,
and the bitmap keeps its length. -/
theorem took_of_writeTkvs (hrun : writeTkvs base tkvs = some (after, blocks)) :
    availableBlocks base.bitmap = blocks.filter (· ≠ 0) ++ availableBlocks after.bitmap ∧
      after.bitmap.length = base.bitmap.length := by
  obtain ⟨w, hw, heq⟩ := Option.bind_eq_some_iff.mp hrun
  obtain ⟨rfl, rfl⟩ := Prod.mk.inj (Option.some.inj heq)
  constructor
  · exact BlockWriter.writeRecords_invariant
      (P := fun storage blocks _ =>
        availableBlocks base.bitmap = blocks.filter (· ≠ 0) ++ availableBlocks storage.bitmap)
      (fun _ _ h => h) (fun w h => BlockWriter.Took.nextBlock (w := w) h)
      (BlockWriter.Took.nextBlock (w := ⟨base, [], 0, 0⟩) rfl) hw
  · exact BlockWriter.writeRecords_invariant
      (P := fun storage _ _ => storage.bitmap.length = base.bitmap.length)
      (fun _ _ h => h) (fun w h => (length_findFreeBlock w.storage.bitmap).trans h)
      (length_findFreeBlock base.bitmap) hw

theorem blockSize_of_writeTkvs (hrun : writeTkvs base tkvs = some (after, blocks)) :
    after.blockSize = base.blockSize := by
  obtain ⟨w, hw, heq⟩ := Option.bind_eq_some_iff.mp hrun
  obtain ⟨rfl, rfl⟩ := Prod.mk.inj (Option.some.inj heq)
  exact BlockWriter.writeRecords_invariant (P := fun after _ _ => after.blockSize = base.blockSize)
    (fun _ _ h => h) (fun _ h => h) rfl hw

/-- And no other block is touched. -/
theorem frame_of_writeTkvs (hrun : writeTkvs base tkvs = some (after, blocks)) :
    ∀ b ∉ blocks, after.block b = base.block b := by
  obtain ⟨w, hw, heq⟩ := Option.bind_eq_some_iff.mp hrun
  obtain ⟨rfl, rfl⟩ := Prod.mk.inj (Option.some.inj heq)
  refine (BlockWriter.writeRecords_invariant
    (P := fun after blocks theBlock =>
      theBlock ∈ blocks ∧ ∀ b ∉ blocks, after.block b = base.block b)
    (fun w tkv h => ⟨h.1, fun b hb => ?_⟩) (fun w h => ⟨?_, fun b hb => ?_⟩) ⟨?_, fun b hb => ?_⟩
    hw).2
  · exact (Function.update_of_ne (ne_of_mem_of_not_mem h.1 hb).symm _ _).trans (h.2 b hb)
  · exact List.mem_append_right _ List.mem_cons_self
  · have hne : b ≠ w.nextBlock.theBlock :=
      fun heq => hb (heq ▸ List.mem_append_right _ List.mem_cons_self)
    exact (Function.update_of_ne hne _ _).trans
      (h.2 b fun hmem => hb (List.mem_append_left _ hmem))
  · exact List.mem_append_right _ List.mem_cons_self
  · have hne : b ≠ (BlockWriter.start base).theBlock :=
      fun heq => hb (heq ▸ List.mem_append_right _ List.mem_cons_self)
    exact Function.update_of_ne hne _ _

end AnyTexts

/-- **The loop ends on every bitmap**, and lists as many blocks as the layout has.  The
blocks that are not number 0 are the first free ones. -/
theorem writeTkvs_total {base : Storage} (hsize : 2 ≤ base.blockSize) (records : List Record) :
    ∃ after blocks, writeTkvs base (records.map convertToTkv) = some (after, blocks) ∧
      after.blockSize = base.blockSize ∧
      blocks.length = (layoutBytes base.blockSize records).length ∧
      availableBlocks base.bitmap = blocks.filter (· ≠ 0) ++ availableBlocks after.bitmap := by
  -- The same loop on a formatted filesystem with enough blocks takes the same turns.
  let roomy := Storage.formatted base.blockSize (layoutBytes base.blockSize records).length
  have hroomy : (layoutBytes roomy.blockSize records).length ≤
    (availableBlocks roomy.bitmap).length :=
    (availableFrom_replicate 0 _).ge
  obtain ⟨after', blocks', hrun', hwritten⟩ : ∃ after blocks,
      writeTkvs roomy (records.map convertToTkv) = some (after, blocks) ∧
        Written roomy (layoutBytes base.blockSize records) after blocks :=
    writeTkvs_spec (show 2 ≤ roomy.blockSize from hsize) records hroomy
  obtain ⟨v, hv, hafter⟩ := Option.bind_eq_some_iff.mp hrun'
  obtain ⟨rfl, rfl⟩ := Prod.mk.inj (Option.some.inj hafter)
  have hshape : BlockWriter.SameShape (BlockWriter.start base) (BlockWriter.start roomy) :=
    BlockWriter.SameShape.nextBlock ⟨rfl, rfl, rfl⟩
  obtain ⟨w, hw, hsame⟩ := hshape.writeRecords hv
  have hwrite : writeTkvs base (records.map convertToTkv) = some (w.storage, w.blocks) := by
    rw [writeTkvs, hw]
    rfl
  refine ⟨w.storage, w.blocks, hwrite, hsame.blockSize.trans hwritten.blockSize, ?_,
    (took_of_writeTkvs hwrite).1⟩
  rw [hsame.length, ← hwritten.blocks_eq, List.length_map]

/-- A run that took no block number 0 wrote the layout. -/
theorem written_of_writeTkvs {base after : Storage} {records : List Record} {blocks : List Nat}
    (hsize : 2 ≤ base.blockSize)
    (hrun : writeTkvs base (records.map convertToTkv) = some (after, blocks)) (hzero : 0 ∉ blocks) :
    Written base (layoutBytes base.blockSize records) after blocks := by
  obtain ⟨after', blocks', hrun', -, hlen, hfree⟩ := writeTkvs_total hsize records
  obtain ⟨rfl, rfl⟩ := Prod.mk.inj (Option.some.inj (hrun'.symm.trans hrun))
  have hall : blocks'.filter (· ≠ 0) = blocks' :=
    List.filter_eq_self.mpr fun b hb => decide_eq_true (ne_of_mem_of_not_mem hb hzero)
  have henough : (layoutBytes base.blockSize records).length ≤
    (availableBlocks base.bitmap).length := by
    rw [hfree, hall, ← hlen, List.length_append]
    exact Nat.le_add_right _ _
  obtain ⟨after'', blocks'', hrun'', hwritten⟩ := writeTkvs_spec hsize records henough
  obtain ⟨rfl, rfl⟩ := Prod.mk.inj (Option.some.inj (hrun''.symm.trans hrun))
  exact hwritten

end Lissandra
