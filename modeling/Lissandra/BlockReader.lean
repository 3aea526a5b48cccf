import Lissandra.BlockWriter
import Lissandra.FileStream

/-! # Reading the blocks of an archive

`add_records_from_block` and `search_key_in_block` read a block with one loop and differ
in what they do with a text (`visit`); `create_tkv_list` and `search_key_in_fs_archive`
walk an archive with one loop, which joins the parts of a cut text, and differ in what
they do with a block and with a joined text.  Each pair is one definition here.

Both loops are verified once, against the segments of a layout (`readBlock_segment`,
`readArchive_contents`); the block format round trip `createTkvList_dumpTable` is the
first use.
-/
namespace Lissandra

/-! ## The loops -/

section Loops
variable {σ : Type} (tkvSize : Nat)

/-- The `while (!feof(arch))` of a block: `visit` each whole text; stop at a cut one, which
is returned without its mark, or when nothing is read.  Each turn moves the pointer. -/
def readLoop (visit : σ → Bytes → Option σ) :
    Nat → FileStream → (pointer : Nat) → (readedKey : Bytes) → σ → Option (σ × Option Bytes)
  | 0, _, _, _, _ => none
  | fuel + 1, arch, pointer, readedKey, s =>
    if arch.eof then some (s, none)
    else
      let (lecture, arch) := fread tkvSize arch
      let readedKey := overwrite readedKey lecture
      let pointer := pointer + (cstr readedKey).length + 1
      let arch := fseek arch pointer
      if cstr readedKey ≠ [] ∧ endsWithNewline (cstr readedKey) then
        some (s, some (cstr readedKey).dropLast)
      else if lecture.length = 0 then some (s, none)
      else do
        let s ← visit s (cstr readedKey)
        readLoop visit fuel arch pointer readedKey s

/-- A block read from its start, or, when `index` is set, after the text it starts with,
which ends a cut one. -/
def readBlock (visit : σ → Bytes → Option σ) (content : Bytes) (index : Bool)
    (incompleteTkvSize : Nat) (s : σ) : Option (σ × Option Bytes) :=
  let readedKey := List.replicate tkvSize 0
  if index then
    let (bytes, arch) := fread incompleteTkvSize (fopen content)
    readLoop tkvSize visit (content.length + 2) arch incompleteTkvSize (overwrite readedKey bytes) s
  else readLoop tkvSize visit (content.length + 2) (fopen content) 0 readedKey s

/-- `read_first_tkv_in_block`.  A block without a NUL leaves the string unended. -/
def readFirstTkvInBlock (content : Bytes) : Option Bytes :=
  let bytes := (fread tkvSize (fopen content)).1
  if 0 ∈ bytes then some (cstr bytes) else none

/-- The `while (key_found->incomplete)`: the joined text, the blocks from the one it ends
in on, and the bytes of that block which belong to it.  `none` is a read past the list. -/
def joinParts (block : Nat → Bytes) : Bytes → List Nat → Option (Bytes × List Nat × Nat)
  | _, [] => none
  | tkv, next :: rest => do
    let continuation ← readFirstTkvInBlock tkvSize (block next)
    if endsWithNewline (tkv ++ continuation) then
      joinParts block (tkv ++ continuation).dropLast rest
    else some (tkv ++ continuation, next :: rest, continuation.length + 1)

/-- The `for` over the blocks of an archive. -/
def readArchive (block : Nat → Bytes)
    (visitBlock : σ → Bytes → Bool → Nat → Option (σ × Option Bytes))
    (visitJoined : σ → Bytes → Option σ) : Nat → List Nat → Bool → Nat → σ → Option σ
  | _, [], _, _, s => some s
  | 0, _ :: _, _, _, _ => none
  | fuel + 1, next :: rest, index, incompleteTkvSize, s => do
    let (s, keyFound) ← visitBlock s (block next) index incompleteTkvSize
    match keyFound with
    | none => readArchive block visitBlock visitJoined fuel rest false incompleteTkvSize s
    | some tkv =>
      let (tkv, rest, incompleteTkvSize) ← joinParts tkvSize block tkv rest
      let s ← visitJoined s tkv
      readArchive block visitBlock visitJoined fuel rest true incompleteTkvSize s

end Loops

/-- `convert_record` of a text, at the end of the list. -/
def addRecord (tkvs : List Record) (tkv : Bytes) : Option (List Record) := do
  let record ← convertRecord tkv
  some (tkvs ++ [record])

/-- `add_records_from_block`. -/
def addRecordsFromBlock (tkvSize : Nat) (tkvs : List Record) (content : Bytes) (index : Bool)
    (incompleteTkvSize : Nat) : Option (List Record × Option Bytes) :=
  readBlock tkvSize addRecord content index incompleteTkvSize tkvs

/-- `create_tkv_list`. -/
def createTkvList (tkvSize : Nat) (block : Nat → Bytes) (blocks : List Nat) :
    Option (List Record) :=
  readArchive tkvSize block (addRecordsFromBlock tkvSize) addRecord blocks.length blocks false 0 []

/-! ## Texts a reader can read -/

/-- A part of a text: no NUL in it, no mark, and room for both in the buffer. -/
structure Readable (tkvSize : Nat) (t : Bytes) : Prop where
  nul : 0 ∉ t
  newline : newline ∉ t
  fits : t.length + 1 ≤ tkvSize

theorem Storable.readable {tkvSize : Nat} {record : Record} (h : Storable tkvSize record) :
    Readable tkvSize (convertToTkv record) where
  nul := not_mem_convertToTkv (by decide) h.value_nul
  newline := not_mem_convertToTkv (by decide) h.value_newline
  fits := h.text_fits

theorem not_endsWithNewline {t : Bytes} (h : newline ∉ t) : endsWithNewline t = false := by
  rw [endsWithNewline, decide_eq_false_iff_not]
  exact fun hlast => h (List.mem_of_getLast? hlast)

@[simp] theorem endsWithNewline_append (t : Bytes) : endsWithNewline (t ++ [newline]) = true := by
  simp [endsWithNewline]

section Readers
variable {σ : Type} {tkvSize : Nat}

/-! ## One block -/

/-- A read at a text and its NUL. -/
theorem fread_line (tkvSize : Nat) {arch : FileStream} {t rest : Bytes} (buffer : Bytes) (hdrop :
    arch.content.drop arch.position = t ++ 0 :: rest) (hnul : 0 ∉ t)
      (hfits : t.length + 1 ≤ tkvSize) :
    cstr (overwrite buffer (fread tkvSize arch).1) = t ∧ (fread tkvSize arch).1.length ≠ 0 := by
  simp only [fread, hdrop]
  refine ⟨cstr_overwrite_take hnul hfits, ?_⟩
  simp
  omega

theorem readLoop_lines {α : Type} {text : α → Bytes} (visit : σ → Bytes → Option σ)
    (cut : Option Bytes) (hcut : ∀ head ∈ cut, 0 ∉ head ∧ head.length + 2 ≤ tkvSize)
    (whole : List α) (hwhole : ∀ a ∈ whole, Readable tkvSize (text a)) :
    ∀ fuel (arch : FileStream) (pointer : Nat) (readedKey : Bytes) (s : σ),
      whole.length < fuel → arch.position = pointer → arch.eof = false →
      arch.content.drop pointer = lines text whole ++ (cut.map (markedLine newline)).getD [] →
      endsWithNewline (cstr readedKey) = false →
      readLoop tkvSize visit fuel arch pointer readedKey s =
        ((whole.map text).foldlM visit s).bind fun s' => some (s', cut) := by
  induction whole with
  | nil =>
    intro fuel arch pointer readedKey s hfuel hpos heof hdrop hstale
    obtain ⟨fuel, rfl⟩ : ∃ n, fuel = n + 1 := ⟨fuel - 1, by simp at hfuel; omega⟩
    subst hpos
    rw [readLoop, if_neg (by simp [heof])]
    cases cut with
    | none =>
      -- Nothing is left: the buffer keeps what it held, which is no cut text.
      have hend : arch.content.drop arch.position = [] := by simpa [lines] using hdrop
      have hread : (fread tkvSize arch).1 = [] := by simp only [fread, hend, List.take_nil]
      simp [hread, hstale]
    | some head =>
      obtain ⟨hnul, hfits⟩ := hcut head rfl
      have hline : arch.content.drop arch.position = (head ++ [newline]) ++ 0 :: [] := by
        simpa [lines, markedLine] using hdrop
      have hmarked : 0 ∉ head ++ [newline] := by
        rw [List.mem_append, List.mem_singleton]
        rintro (h | h)
        · exact hnul h
        · exact absurd h (by decide)
      obtain ⟨htext, -⟩ := fread_line tkvSize readedKey hline hmarked
        (by rw [List.length_append, List.length_singleton]; omega)
      simp [htext]
  | cons a rest ih =>
    intro fuel arch pointer readedKey s hfuel hpos heof hdrop hstale
    obtain ⟨fuel, rfl⟩ : ∃ n, fuel = n + 1 := ⟨fuel - 1, by simp at hfuel; omega⟩
    subst hpos
    obtain ⟨hnul, hnewline, hfits⟩ := hwhole a List.mem_cons_self
    have hline : arch.content.drop arch.position = text a ++ 0 :: (lines text rest ++
        (cut.map (markedLine newline)).getD []) := by
      simpa [lines, line] using hdrop
    obtain ⟨htext, hlecture⟩ := fread_line tkvSize readedKey hline hnul hfits
    rw [readLoop, if_neg (by simp [heof])]
    simp only [htext, not_endsWithNewline hnewline, hlecture, and_false, if_false,
      Bool.false_eq_true]
    have hnext : arch.content.drop (arch.position + (text a).length + 1) =
        lines text rest ++ (cut.map (markedLine newline)).getD [] := by
      have hfield : arch.content.drop arch.position = (text a ++ [0]) ++ (lines text rest ++
          (cut.map (markedLine newline)).getD []) := by simpa using hline
      rw [Nat.add_assoc]
      exact drop_add_of_drop hfield (by simp)
    rw [List.map_cons, List.foldlM_cons, Option.bind_eq_bind, Option.bind_eq_bind,
      Option.bind_assoc]
    refine Option.bind_congr fun s' _ => ?_
    exact ih (fun b hb => hwhole b (List.mem_cons_of_mem _ hb)) fuel _ _ _ s'
      (by simpa using hfuel) rfl rfl hnext (by rw [htext]; exact not_endsWithNewline hnewline)

/-- The bytes at the start of a block that end the text cut before it. -/
def leadBytes (lead : Option Bytes) : Bytes := (lead.map line).getD []

/-- The bytes at the end of a block that start the text cut there. -/
def cutBytes {α : Type} {text : α → Bytes} (cut : Option (Cut text)) : Bytes :=
  (cut.map fun c => markedLine newline c.head).getD []

section Segments
variable {α : Type} {text : α → Bytes}

theorem Cut.mem_text {c : Cut text} {b : Byte}
    (h : b ∈ c.head ∨ b ∈ c.middle.flatten ∨ b ∈ c.tail) : b ∈ text c.item := by
  rw [← c.text_eq, List.mem_append, List.mem_append]
  exact h

theorem Cut.length_text (c : Cut text) :
    c.head.length + (c.middle.flatten.length + c.tail.length) = (text c.item).length := by
  rw [← c.text_eq, List.length_append, List.length_append]

/-- Every part of a cut text but the last leaves room for its mark. -/
theorem Cut.readable {c : Cut text} (h : Readable tkvSize (text c.item)) :
    (0 ∉ c.head ∧ c.head.length + 2 ≤ tkvSize) ∧
    (∀ part ∈ c.middle, 0 ∉ part ∧ newline ∉ part ∧ part.length + 2 ≤ tkvSize) ∧
    Readable tkvSize c.tail := by
  have hlen := c.length_text
  have htail := List.length_pos_iff.mpr c.tail_ne
  have hfits := h.fits
  refine ⟨⟨fun hz => h.nul (c.mem_text (Or.inl hz)), by omega⟩, fun part hpart => ?_,
    ⟨fun hz => h.nul (c.mem_text (Or.inr (Or.inr hz))),
      fun hz => h.newline (c.mem_text (Or.inr (Or.inr hz))), by omega⟩⟩
  have hmem : ∀ b ∈ part, b ∈ c.middle.flatten := fun b hb => List.mem_flatten.mpr ⟨part, hpart, hb⟩
  have hle : part.length ≤ c.middle.flatten.length := (List.sublist_flatten_of_mem hpart).length_le
  exact ⟨fun hz => h.nul (c.mem_text (Or.inr (Or.inl (hmem _ hz)))),
    fun hz => h.newline (c.mem_text (Or.inr (Or.inl (hmem _ hz)))), by omega⟩

/-- **A block shows its segment**: after the end of the text cut before, `visit` sees the
whole texts in order, and the head of the cut one is returned. -/
theorem readBlock_segment (visit : σ → Bytes → Option σ) {lead : Option Bytes}
    (hlead : ∀ t ∈ lead, Readable tkvSize t) {segment : Segment text}
    (hsegment : ∀ a ∈ segment.items, Readable tkvSize (text a)) {size : Nat}
    (hsize : ∀ t ∈ lead, size = t.length + 1) (s : σ) :
    readBlock tkvSize visit (leadBytes lead ++ lines text segment.whole ++ cutBytes segment.cut)
        lead.isSome size s =
      ((segment.whole.map text).foldlM visit s).bind fun s' =>
      some (s', segment.cut.map Cut.head) := by
  have hlines := length_le_lines text segment.whole
  have hwhole : ∀ a ∈ segment.whole, Readable tkvSize (text a) := fun a ha =>
    hsegment a (List.mem_append_left _ ha)
  have hcut : ∀ head ∈ segment.cut.map Cut.head, 0 ∉ head ∧ head.length + 2 ≤ tkvSize := by
    intro head hhead
    obtain ⟨c, hc, rfl⟩ := Option.map_eq_some_iff.mp hhead
    exact (c.readable (hsegment c.item (by simp [Segment.items, hc]))).1
  have hbytes : cutBytes segment.cut = ((segment.cut.map Cut.head).map (markedLine newline)).getD
    [] := by
    rw [cutBytes, Option.map_map]
    rfl
  cases lead with
  | none =>
    -- the loop starts at the first text, with an empty buffer
    have hstale : cstr (List.replicate tkvSize 0) = [] := by simp [cstr]
    rw [readBlock, hbytes]
    refine readLoop_lines visit _ hcut segment.whole hwhole _ _ _ _ s ?_ rfl rfl ?_ ?_
    · simp only [List.length_append]
      omega
    · simp [fopen, leadBytes]
    · rw [hstale]
      rfl
  | some t =>
    -- the end of the text cut before is skipped, and stays in the buffer
    obtain ⟨hnul, hnewline, hfits⟩ := hlead t rfl
    obtain rfl := hsize t rfl
    have hread : fread (t.length + 1) (fopen (leadBytes (some t) ++ lines text segment.whole
          ++ cutBytes segment.cut)) =
        (line t, ⟨leadBytes (some t) ++ lines text segment.whole ++ cutBytes segment.cut,
          t.length + 1, false⟩) := by
      have htake : (line t ++ (lines text segment.whole ++ cutBytes segment.cut)).take
        (t.length + 1)
          = line t := List.take_left' (by simp [line])
      simp only [fread, fopen, leadBytes, Option.map_some, Option.getD_some, List.drop_zero,
        List.append_assoc, htake]
      simp [line]
    simp only [readBlock, Option.isSome_some, if_true, hread]
    refine readLoop_lines visit _ hcut segment.whole hwhole _ _ _ _ s ?_ rfl rfl ?_ ?_
    · simp only [List.length_append]
      omega
    · have hskip : (leadBytes (some t) ++ lines text segment.whole ++ cutBytes segment.cut).drop
            (t.length + 1) = lines text segment.whole ++ cutBytes segment.cut := by
        rw [List.append_assoc]
        exact List.drop_left' (by simp [leadBytes, line])
      rw [hskip, hbytes]
    · have hstale : cstr (overwrite (List.replicate tkvSize 0) (line t)) = t := by
        rw [overwrite, line, List.append_assoc]
        exact cstr_append hnul _
      rw [hstale]
      exact not_endsWithNewline hnewline

/-! ## The whole archive -/

theorem readFirstTkvInBlock_line (tkvSize : Nat) {t : Bytes} (rest : Bytes) (hnul : 0 ∉ t)
    (hfits : t.length + 1 ≤ tkvSize) : readFirstTkvInBlock tkvSize (line t ++ rest) = some t := by
  have htake : (line t ++ rest).take tkvSize = t ++ 0 :: rest.take (tkvSize - (t.length + 1)) := by
    rw [List.take_append, List.take_of_length_le (by simp [line]; omega)]
    simp [line]
  have hread : (fread tkvSize (fopen (line t ++ rest))).1
      = t ++ 0 :: rest.take (tkvSize - (t.length + 1)) := by
    rw [← htake]
    rfl
  rw [readFirstTkvInBlock, hread, if_pos (by simp), cstr_append hnul]

/-- The parts of a cut text are joined to the whole of it. -/
theorem joinParts_middle {block : Nat → Bytes} {tail more : Bytes} {next : Nat} (rest : List Nat)
    (hnext : block next = line tail ++ more) (htail : Readable tkvSize tail) (middle : List Bytes)
    (hmiddle : ∀ part ∈ middle, 0 ∉ part ∧ newline ∉ part ∧ part.length + 2 ≤ tkvSize) :
    ∀ (blocks : List Nat) (tkv : Bytes), newline ∉ tkv →
      blocks.map block = middle.map (markedLine newline) →
      joinParts tkvSize block tkv (blocks ++ next :: rest) =
        some (tkv ++ (middle.flatten ++ tail), next :: rest, tail.length + 1) := by
  induction middle with
  | nil =>
    intro blocks tkv htkv hblocks
    obtain rfl : blocks = [] := by simpa using hblocks
    -- the end of a text has no continuation mark
    have hend : endsWithNewline (tkv ++ tail) = false := by
      refine not_endsWithNewline fun h => ?_
      rcases List.mem_append.mp h with h | h
      · exact htkv h
      · exact htail.newline h
    rw [List.nil_append, joinParts, hnext, readFirstTkvInBlock_line _ more htail.nul htail.fits]
    simp [hend]
  | cons part middle ih =>
    intro blocks tkv htkv hblocks
    obtain ⟨b, blocks, rfl⟩ := List.exists_cons_of_ne_nil (l := blocks) (by
      rintro rfl
      simp at hblocks)
    simp only [List.map_cons, List.cons.injEq] at hblocks
    obtain ⟨hb, hblocks⟩ := hblocks
    obtain ⟨hnul, hnewline, hfits⟩ := hmiddle part List.mem_cons_self
    have hmarked : 0 ∉ part ++ [newline] := by
      rw [List.mem_append, List.mem_singleton]
      rintro (h | h)
      · exact hnul h
      · exact absurd h (by decide)
    have hfirst : readFirstTkvInBlock tkvSize (block b) = some (part ++ [newline]) := by
      have := readFirstTkvInBlock_line tkvSize [] hmarked
        (by rw [List.length_append, List.length_singleton]; omega)
      rwa [List.append_nil, line_mark, ← hb] at this
    have hend : endsWithNewline (tkv ++ (part ++ [newline])) = true := by
      rw [← List.append_assoc]
      exact endsWithNewline_append _
    have hdrop : (tkv ++ (part ++ [newline])).dropLast = tkv ++ part := by
      rw [← List.append_assoc, List.dropLast_concat]
    rw [List.cons_append, joinParts, hfirst]
    simp only [Option.bind_eq_bind, Option.bind_some, hend, if_true, hdrop]
    rw [ih (fun p hp => hmiddle p (List.mem_cons_of_mem _ hp)) blocks (tkv ++ part) ?_ hblocks]
    · simp
    · intro h
      rcases List.mem_append.mp h with h | h
      · exact htkv h
      · exact hnewline h

/-- What a reader does with one segment of an archive. -/
def visitSegment (visitWhole : σ → Segment text → Option σ) (visitJoined : σ → Bytes → Option σ)
    (s : σ) (segment : Segment text) : Option σ := do
  let s ← visitWhole s segment
  match segment.cut with
  | none => some s
  | some c => visitJoined s (text c.item)

/-- **An archive shows its segments**, each with the whole of the text it cuts, whatever
`visitBlock` does as long as it depends on the segment alone. -/
theorem readArchive_contents {block : Nat → Bytes}
    {visitBlock : σ → Bytes → Bool → Nat → Option (σ × Option Bytes)}
    {visitWhole : σ → Segment text → Option σ} {visitJoined : σ → Bytes → Option σ}
    (hvisit : ∀ (s : σ) (lead : Option Bytes) (segment : Segment text) (size : Nat),
      (∀ t ∈ lead, Readable tkvSize t) → (∀ a ∈ segment.items, Readable tkvSize (text a)) →
      (∀ t ∈ lead, size = t.length + 1) →
      visitBlock s (leadBytes lead ++ lines text segment.whole ++ cutBytes segment.cut)
          lead.isSome size =
        (visitWhole s segment).bind fun s' => some (s', segment.cut.map Cut.head))
    (ss : List (Segment text)) (hclosed : Closed ss)
    (hread : ∀ segment ∈ ss, ∀ a ∈ segment.items, Readable tkvSize (text a)) :
    ∀ (fuel : Nat) (blocks : List Nat) (lead : Option Bytes) (size : Nat) (s : σ),
      blocks.length ≤ fuel → blocks.map block = contents newline (leadBytes lead) ss →
      (∀ t ∈ lead, Readable tkvSize t ∧ size = t.length + 1) →
      readArchive tkvSize block visitBlock visitJoined fuel blocks lead.isSome size s =
        ss.foldlM (visitSegment visitWhole visitJoined) s := by
  induction ss with
  | nil =>
    intro fuel blocks lead size s hfuel hblocks hlead
    obtain rfl : blocks = [] := by simpa [contents] using hblocks
    rw [readArchive]
    rfl
  | cons segment ss ih =>
    intro fuel blocks lead size s hfuel hblocks hlead
    obtain ⟨b, rest, rfl⟩ := List.exists_cons_of_ne_nil (l := blocks) (by
      rintro rfl
      exact contents_ne_nil newline _ (List.cons_ne_nil segment ss) hblocks.symm)
    obtain ⟨fuel, rfl⟩ : ∃ n, fuel = n + 1 := ⟨fuel - 1, by simp at hfuel; omega⟩
    have hblock : ∀ bytes, block b = leadBytes lead ++ lines text segment.whole ++ bytes →
        bytes = cutBytes segment.cut →
        visitBlock s (block b) lead.isSome size =
          (visitWhole s segment).bind fun s' => some (s', segment.cut.map Cut.head) := by
      rintro bytes hb rfl
      rw [hb]
      exact hvisit s lead segment size (fun t ht => (hlead t ht).1)
        (hread segment List.mem_cons_self) fun t ht => (hlead t ht).2
    have hrest := ih hclosed.tail fun s' hs' => hread s' (List.mem_cons_of_mem _ hs')
    have hfuel' : rest.length ≤ fuel := by simpa using hfuel
    rw [readArchive, List.foldlM_cons, visitSegment]
    obtain ⟨whole, _ | c⟩ := segment
    · simp only [contents, List.map_cons, List.cons.injEq] at hblocks
      rw [hblock [] (by rw [List.append_nil]; exact hblocks.1) rfl]
      simp only [Option.map_none, Option.bind_eq_bind, Option.bind_assoc, Option.bind_some]
      exact Option.bind_congr fun s' _ => hrest fuel rest none size s' hfuel' hblocks.2 (by simp)
    · simp only [contents, List.map_cons, List.cons.injEq] at hblocks
      obtain ⟨hb, hmap⟩ := hblocks
      obtain ⟨parts, others, rfl, hparts, hothers⟩ := List.map_eq_append_iff.mp hmap
      obtain ⟨more, moreBlocks, hlast⟩ := contents_lead newline (line c.tail)
        (hclosed.ne_nil (by simp))
      obtain ⟨next, others, rfl⟩ := List.exists_cons_of_ne_nil (l := others) (by
        rintro rfl
        simp [hlast] at hothers)
      have hnext : block next = line c.tail ++ more := by
        rw [hlast] at hothers
        exact (List.cons.inj hothers).1
      have hitem := hread _ List.mem_cons_self c.item (by simp [Segment.items])
      obtain ⟨-, hmiddle, htail⟩ := c.readable hitem
      have hjoin := joinParts_middle others hnext htail c.middle hmiddle parts c.head
        (fun h => hitem.newline (c.mem_text (Or.inl h))) hparts
      rw [c.text_eq] at hjoin
      rw [hblock _ hb rfl]
      simp only [Option.map_some, Option.bind_eq_bind, Option.bind_assoc, Option.bind_some, hjoin]
      refine Option.bind_congr fun s' _ => Option.bind_congr fun s'' _ => ?_
      exact hrest fuel (next :: others) (some c.tail) (c.tail.length + 1) s''
        (by simp only [List.length_append] at hfuel'; omega) hothers (by
          rintro t ⟨⟩
          exact ⟨htail, rfl⟩)

end Segments

end Readers

/-! ## The block format round trip -/

theorem foldlM_addRecord {tkvSize : Nat} {records : List Record}
    (h : ∀ record ∈ records, Storable tkvSize record) (tkvs : List Record) :
    (records.map convertToTkv).foldlM addRecord tkvs = some (tkvs ++ records) := by
  induction records generalizing tkvs with
  | nil => simp
  | cons record records ih =>
    rw [List.map_cons, List.foldlM_cons, addRecord,
      convertRecord_text (h record List.mem_cons_self)]
    simp only [Option.bind_eq_bind, Option.bind_some]
    rw [ih fun r hr => h r (List.mem_cons_of_mem _ hr), List.append_assoc, List.singleton_append]

/-- What `create_tkv_list` does with one segment. -/
def addSegment : List Record → Segment convertToTkv → Option (List Record) :=
  visitSegment (fun tkvs segment => (segment.whole.map convertToTkv).foldlM addRecord tkvs)
  addRecord

theorem addSegment_eq {tkvSize : Nat} {segment : Segment convertToTkv}
    (h : ∀ record ∈ segment.items, Storable tkvSize record) (tkvs : List Record) :
    addSegment tkvs segment = some (tkvs ++ segment.items) := by
  have hwhole := foldlM_addRecord (fun r hr => h r (List.mem_append_left _ hr)) tkvs
  obtain ⟨whole, _ | c⟩ := segment
  · rw [addSegment, visitSegment, hwhole]
    simp [Segment.items]
  · have hitem := h c.item (by simp [Segment.items])
    rw [addSegment, visitSegment, hwhole]
    simp [Segment.items, addRecord, convertRecord_text hitem]

theorem foldlM_addSegment {tkvSize : Nat} {ss : List (Segment convertToTkv)}
    (h : ∀ segment ∈ ss, ∀ record ∈ segment.items, Storable tkvSize record) (tkvs : List Record) :
    ss.foldlM addSegment tkvs = some (tkvs ++ ss.flatMap Segment.items) := by
  induction ss generalizing tkvs with
  | nil => simp
  | cons segment ss ih =>
    rw [List.foldlM_cons, addSegment_eq (h segment List.mem_cons_self)]
    simp only [Option.bind_eq_bind, Option.bind_some]
    rw [ih fun s hs => h s (List.mem_cons_of_mem _ hs)]
    simp

theorem storable_layout {tkvSize : Nat} {groups : List (List Record)}
    (hrecords : ∀ record ∈ groups.flatten, Storable tkvSize record) (blockSize : Nat) :
    ∀ segment ∈ groups.flatMap (layout convertToTkv blockSize), ∀ record ∈ segment.items,
      Storable tkvSize record := by
  intro segment hsegment record hrecord
  refine hrecords record ?_
  have hitems : (groups.flatMap (layout convertToTkv blockSize)).flatMap Segment.items =
    groups.flatten :=
    items_flatMap_layout blockSize groups
  rw [← hitems]
  exact List.mem_flatMap.mpr ⟨segment, hsegment, hrecord⟩

/-- A reader of blocks that hold the layouts of storable records, one list after the
other. -/
theorem readArchive_layout {σ : Type} {tkvSize blockSize : Nat} {block : Nat → Bytes}
    {blocks : List Nat} {groups : List (List Record)}
    {visitBlock : σ → Bytes → Bool → Nat → Option (σ × Option Bytes)}
    {visitWhole : σ → Segment convertToTkv → Option σ} {visitJoined : σ → Bytes → Option σ}
    (hvisit : ∀ (s : σ) (lead : Option Bytes) (segment : Segment convertToTkv) (size : Nat),
      (∀ t ∈ lead, Readable tkvSize t) →
      (∀ a ∈ segment.items, Readable tkvSize (convertToTkv a)) → (∀ t ∈ lead, size = t.length + 1) →
      visitBlock s (leadBytes lead ++ lines convertToTkv segment.whole ++ cutBytes segment.cut)
          lead.isSome size =
        (visitWhole s segment).bind fun s' => some (s', segment.cut.map Cut.head))
    (hblocks : blocks.map block = groups.flatMap (layoutBytes blockSize))
    (hrecords : ∀ record ∈ groups.flatten, Storable tkvSize record) (s : σ) :
    readArchive tkvSize block visitBlock visitJoined blocks.length blocks false 0 s =
      (groups.flatMap (layout convertToTkv blockSize)).foldlM
      (visitSegment visitWhole visitJoined) s :=
  readArchive_contents hvisit _ (closed_flatMap_layout blockSize groups)
    (fun segment hsegment record hrecord =>
      (storable_layout hrecords blockSize segment hsegment record hrecord).readable)
    blocks.length blocks none 0 s le_rfl
    (hblocks.trans (contents_flatMap_layout newline blockSize groups).symm) (by simp)

/-- **The decoder inverts the layout.**  The block lists of several archives, one after
the other, decode to their records, one after the other. -/
theorem createTkvList_layout {tkvSize blockSize : Nat} {block : Nat → Bytes} {blocks : List Nat}
    {groups : List (List Record)} (hblocks : blocks.map block =
      groups.flatMap (layoutBytes blockSize))
    (hrecords : ∀ record ∈ groups.flatten, Storable tkvSize record) :
    createTkvList tkvSize block blocks = some groups.flatten := by
  have hread : createTkvList tkvSize block blocks =
      (groups.flatMap (layout convertToTkv blockSize)).foldlM addSegment [] :=
    readArchive_layout
      (fun s _ _ _ hlead hsegment hsize => readBlock_segment addRecord hlead hsegment hsize s)
      hblocks hrecords []
  rw [hread, foldlM_addSegment (storable_layout hrecords blockSize), items_flatMap_layout,
    List.nil_append]

theorem createTkvList_of_written {tkvSize : Nat} {base after : Storage} {blocks : List Nat}
    {records : List Record} (h : Written base (layoutBytes base.blockSize records) after blocks)
    (hrecords : ∀ record ∈ records, Storable tkvSize record) :
    createTkvList tkvSize after.block blocks = some records := by
  have hblocks : blocks.map after.block = [records].flatMap (layoutBytes base.blockSize) := by
    simpa using h.blocks_eq
  simpa using createTkvList_layout hblocks (by simpa using hrecords)

/-- **The block format round-trips.**  What `dump_table` writes for the texts of storable
records, and likewise what `create_partition` writes for the records, is decoded by
`create_tkv_list` to exactly these records, in order, as long as there are enough free
blocks. -/
theorem createTkvList_dumpTable {tkvSize : Nat} {storage : Storage} {records : List Record}
    (hsize : 2 ≤ storage.blockSize) (hrecords : ∀ record ∈ records, Storable tkvSize record)
    (hfree : (layoutBytes storage.blockSize records).length ≤
      (availableBlocks storage.bitmap).length) :
    (∃ after archive, dumpTable storage (records.map convertToTkv) = some (after, archive) ∧
      createTkvList tkvSize after.block archive.blocks = some records) ∧
    ∃ after archive, createPartition storage records = some (after, archive) ∧
      createTkvList tkvSize after.block archive.blocks = some records := by
  obtain ⟨after, blocks, hwrite, hwritten⟩ := writeTkvs_spec hsize records hfree
  have hdecode := createTkvList_of_written hwritten hrecords
  have hdump : dumpTable storage (records.map convertToTkv) =
      some (after, ⟨blocks, sizeOfAllTkvs after.blockSize (records.map convertToTkv)⟩) := by
    rw [dumpTable, hwrite]
    rfl
  exact ⟨⟨_, _, hdump, hdecode⟩, ⟨_, _, hdump, hdecode⟩⟩

/-- Two records cut over three blocks of eight bytes. -/
theorem createTkvList_dumpTable_cut :
    let records : List Record := [⟨9, 1, [97, 98]⟩, ⟨5, 1, [98, 99, 100]⟩]
    let storage := Storage.formatted 8 8
    (∃ after archive, dumpTable storage (records.map convertToTkv) = some (after, archive) ∧
      createTkvList 32 after.block archive.blocks = some records) ∧
    ∃ after archive, createPartition storage records = some (after, archive) ∧
      createTkvList 32 after.block archive.blocks = some records :=
  createTkvList_dumpTable (by decide) (by decide +kernel) (by decide +kernel)

end Lissandra
