import Lissandra.TablesDirectory

/-! # Journals that are sent again

`process_multiinsert` runs the INSERTs of a batch one after the other.  It goes on after one that
fails and then answers -1, so the memory keeps its pages and its next journal sends the same
records again: whatever was inserted before is then in the memtable twice.

`search_key_in_memtable` takes a record only if it is strictly newer than the one it has.  The
second copies stand behind the first ones, so none of them is ever taken.

A batch is answered with 0 although a table does not exist if the name is that of another entry of
the tables directory (`resent_batch_harmless_iff`).
-/
namespace Lissandra

/-! ## The batch -/

/-- The loop of `process_multiinsert` over the states of `process_insert`.  `clock i` is the time
at which INSERT `i` of the batch runs. -/
def multiinsertLoop {S : Type} (insert : Int64 → InsertInput → S → Int32 × S)
    (clock : Nat → Int64) (inputs : List InsertInput) (s : S) : Int32 × S :=
  inputs.zipIdx.foldl (fun (multiinsertResult, s) (input, i) =>
    let (result, s) := insert (clock i) input s
    (if result < 0 then -1 else multiinsertResult, s)) (0, s)

/-- `process_multiinsert`, for names that tables can have. -/
def processMultiinsert (config : FsConfig) (clock : Nat → Int64) (inputs : List InsertInput)
    (fs : Filesystem) : Int32 × Filesystem :=
  multiinsertLoop (processInsert config) clock inputs fs

/-- `process_multiinsert`. -/
def TablesDirectory.processMultiinsert (config : FsConfig) (clock : Nat → Int64)
    (inputs : List InsertInput) (directory : TablesDirectory) : Int32 × TablesDirectory :=
  multiinsertLoop (TablesDirectory.processInsert config) clock inputs directory

/-- A record as a memory sends it: with its time, and with a value that has a text. -/
structure Journalable (input : InsertInput) : Prop where
  timestamp : 0 ≤ input.timestamp.toInt
  value_ne : input.value.bytes ≠ []
  value_semicolon : semicolon ∉ input.value.bytes

/-- The table exists and the value fits. -/
def Acceptable (config : FsConfig) (fs : Filesystem) (input : InsertInput) : Prop :=
  existInDirectory fs input.tableName.bytes = true ∧
    input.value.bytes.length ≤ config.maxValueSize

/-- `process_insert` accepts the record. -/
def Accepted (config : FsConfig) (directory : TablesDirectory) (input : InsertInput) : Prop :=
  directory.existInDirectory input.tableName.bytes = true ∧
    input.value.bytes.length ≤ config.maxValueSize

instance (config : FsConfig) (fs : Filesystem) : DecidablePred (Acceptable config fs) :=
  fun _ => inferInstanceAs (Decidable (_ ∧ _))

instance (config : FsConfig) (directory : TablesDirectory) :
    DecidablePred (Accepted config directory) :=
  fun _ => inferInstanceAs (Decidable (_ ∧ _))

/-- `find_table_in_list`, and the texts of the table. -/
def tkvsOf (memTable : List MemTable) (name : Bytes) : List Bytes :=
  ((memTable.find? fun table => table.name = name).map MemTable.tkvs).getD []

/-- The text of a record at the end of its table. -/
def listAddTkv (memTable : List MemTable) (input : InsertInput) : List MemTable :=
  addTkv (toUppercase input.tableName.bytes) (createTkv input)
    (createTable (toUppercase input.tableName.bytes) memTable)

/-- The texts that a batch has for a table. -/
def textsFor (inputs : List InsertInput) (name : Bytes) : List Bytes :=
  (inputs.filter fun input => toUppercase input.tableName.bytes = name).map createTkv

section Appending
variable {inputs : List InsertInput} {memTable : List MemTable} {name : Bytes}

theorem tkvsOf_listAddTkv (memTable : List MemTable) (input : InsertInput) (name : Bytes) :
    tkvsOf (listAddTkv memTable input) name = tkvsOf memTable name ++ textsFor [input] name := by
  rw [listAddTkv, tkvsOf, find?_insertTkv]
  by_cases hname : name = toUppercase input.tableName.bytes
  · subst hname
    simp [textsFor, tkvsOf]
  · simp [textsFor, tkvsOf, hname, Ne.symm hname]

/-- **Records are appended to their tables in their order.** -/
theorem tkvsOf_foldl_listAddTkv (inputs : List InsertInput) (memTable : List MemTable)
    (name : Bytes) :
    tkvsOf (inputs.foldl listAddTkv memTable) name =
      tkvsOf memTable name ++ textsFor inputs name := by
  induction inputs generalizing memTable with
  | nil => simp [textsFor]
  | cons input inputs ih =>
    rw [List.foldl_cons, ih, tkvsOf_listAddTkv, List.append_assoc]
    congr 1
    rw [textsFor, textsFor, textsFor, ← List.map_append, ← List.filter_append,
      List.singleton_append]

theorem mem_names_listAddTkv {memTable : List MemTable} {input : InsertInput} {name : Bytes} :
    name ∈ (listAddTkv memTable input).map MemTable.name ↔
      name ∈ memTable.map MemTable.name ∨ name = toUppercase input.tableName.bytes := by
  rw [listAddTkv, addTkv_names, mem_names_createTable]

/-- The table of each record is there at the end. -/
theorem mem_names_foldl_listAddTkv {input : InsertInput} (hmem : input ∈ inputs) :
    toUppercase input.tableName.bytes ∈ (inputs.foldl listAddTkv memTable).map MemTable.name := by
  have hkept : ∀ (rest : List InsertInput) (memTable : List MemTable),
      memTable.map MemTable.name ⊆ (rest.foldl listAddTkv memTable).map MemTable.name := by
    intro rest
    induction rest with
    | nil => exact fun memTable => List.Subset.refl _
    | cons input rest ih =>
      intro memTable name hname
      exact ih _ (mem_names_listAddTkv.mpr (Or.inl hname))
  obtain ⟨before, after, rfl⟩ := List.append_of_mem hmem
  rw [List.foldl_append, List.foldl_cons]
  apply hkept
  exact mem_names_listAddTkv.mpr (Or.inr rfl)

/-- No table is new if each record has one. -/
theorem names_foldl_listAddTkv (hmem : ∀ input ∈ inputs,
    toUppercase input.tableName.bytes ∈ memTable.map MemTable.name) :
    (inputs.foldl listAddTkv memTable).map MemTable.name = memTable.map MemTable.name := by
  induction inputs generalizing memTable with
  | nil => rfl
  | cons input inputs ih =>
    have hone : (listAddTkv memTable input).map MemTable.name = memTable.map MemTable.name := by
      rw [listAddTkv, addTkv_names]
      rcases createTable_cases (toUppercase input.tableName.bytes) memTable with ⟨-, heq⟩ |
        ⟨hnew, -⟩
      · rw [heq]
      · exact absurd (hmem input List.mem_cons_self) hnew
    rw [List.foldl_cons, ih, hone]
    intro other hother
    rw [hone]
    exact hmem other (List.mem_cons_of_mem _ hother)

end Appending

/-! ## What a batch does -/

section Batch
variable {config : FsConfig} {directory : TablesDirectory} {inputs : List InsertInput}
  {input : InsertInput}

theorem processInsert_of_accepted (htimestamp : 0 ≤ input.timestamp.toInt)
    (h : Accepted config directory input) (now : Int64) :
    directory.processInsert config now input =
      (0, { directory with memTable := listAddTkv directory.memTable input }) := by
  have htime : input.timestamp ≠ -1 := by
    intro heq
    rw [heq] at htimestamp
    exact absurd htimestamp (by decide)
  have hsize : ¬ config.maxValueSize < input.value.bytes.length := by
    have := h.2
    omega
  simp only [TablesDirectory.processInsert, h.1, hsize, htime, if_true, if_false]
  rfl

theorem processInsert_of_not_accepted (h : ¬ Accepted config directory input) (now : Int64) :
    ∃ result < 0, directory.processInsert config now input = (result, directory) := by
  by_cases hexist : directory.existInDirectory input.tableName.bytes = true
  · have hsize : config.maxValueSize < input.value.bytes.length := by
      by_contra hle
      exact h ⟨hexist, by omega⟩
    exact ⟨-1, by decide, by simp [TablesDirectory.processInsert, hexist, hsize]⟩
  · exact ⟨-2, by decide, by simp [TablesDirectory.processInsert, hexist]⟩

/-- **The batch.**  It fails if one record does, and the others are appended all the same. -/
theorem processMultiinsert_eq (config : FsConfig) (clock : Nat → Int64)
    (directory : TablesDirectory) (hinputs : ∀ input ∈ inputs, 0 ≤ input.timestamp.toInt) :
    directory.processMultiinsert config clock inputs =
      (if ∀ input ∈ inputs, Accepted config directory input then 0 else -1, { directory with
        memTable :=
          (inputs.filter (Accepted config directory)).foldl listAddTkv directory.memTable }) := by
  -- What is accepted does not change, as the entries do not.
  have hloop : ∀ (inputs : List InsertInput) (i : Nat) (multiinsertResult : Int32)
      (memTable : List MemTable), (∀ input ∈ inputs, 0 ≤ input.timestamp.toInt) →
      (inputs.zipIdx i).foldl (fun (multiinsertResult, directory) (input, i) =>
          let (result, directory) := TablesDirectory.processInsert config (clock i) input directory
          (if result < 0 then -1 else multiinsertResult, directory))
        (multiinsertResult, { directory with memTable := memTable }) =
        (if ∀ input ∈ inputs, Accepted config directory input then multiinsertResult else -1,
          { directory with memTable :=
              (inputs.filter (Accepted config directory)).foldl listAddTkv memTable }) := by
    intro inputs
    induction inputs with
    | nil =>
      intro i multiinsertResult memTable _
      simp
    | cons input inputs ih =>
      intro i multiinsertResult memTable hinputs
      have hrest := fun other hother => hinputs other (List.mem_cons_of_mem _ hother)
      rw [List.zipIdx_cons, List.foldl_cons]
      by_cases hinput : Accepted config directory input
      · have hone := @processInsert_of_accepted config { directory with memTable := memTable } input
          (hinputs input List.mem_cons_self) hinput (clock i)
        simp only [hone, ih _ _ _ hrest, List.forall_mem_cons, hinput, true_and]
        rw [List.filter_cons_of_pos (by simpa using hinput), List.foldl_cons]
        rfl
      · obtain ⟨result, hresult, hone⟩ :=
          @processInsert_of_not_accepted config { directory with memTable := memTable } input hinput
            (clock i)
        simp only [hone, ih _ _ _ hrest, List.forall_mem_cons, hinput, false_and, if_false, hresult,
          if_true, ite_self]
        rw [List.filter_cons_of_neg (by simpa using hinput)]
  exact hloop inputs 0 0 directory.memTable hinputs

end Batch

/-! ## Searching after a retry -/

section Searching
variable {inputs : List InsertInput} {key : UInt16}

/-- The loop of `search_key_in_memtable` at one text. -/
def visitMemTkv (key : UInt16) (keyFound : Found) (tkv : Bytes) : Option Found := do
  let record ← convertRecord tkv
  some (if record.key = key ∧ keyFound.timestamp < record.timestamp then record.found
    else keyFound)

/-- The table that is searched is found by the names alone. -/
theorem searchKeyInMemtable_eq_names (memTable : List MemTable) (name : Bytes) (key : UInt16) :
    searchKeyInMemtable memTable name key =
      match (memTable.map MemTable.name).find? fun other =>
        toUppercase other = toUppercase name with
      | none => some Found.missing
      | some found => (tkvsOf memTable found).foldlM (visitMemTkv key) Found.missing := by
  have hfind : (memTable.map MemTable.name).find? (fun other =>
      toUppercase other = toUppercase name) =
      (searchTableInMemtable memTable name).map MemTable.name := by
    rw [List.find?_map]
    rfl
  rw [hfind, searchKeyInMemtable]
  cases hfound : searchTableInMemtable memTable name with
  | none => rfl
  | some table =>
    -- It is also the first one with exactly its name.
    have hfirst : tkvsOf memTable table.name = table.tkvs := by
      obtain ⟨htable, before, after, rfl, hbefore⟩ := List.find?_eq_some_iff_append.mp hfound
      have hexact : (before ++ table :: after).find? (fun other => other.name = table.name) =
          some table := by
        refine List.find?_eq_some_iff_append.mpr ⟨decide_eq_true rfl, before, after, rfl, ?_⟩
        intro other hother
        have hother := hbefore other hother
        simp only [Bool.not_eq_true', decide_eq_false_iff_not] at hother ⊢
        intro hname
        exact hother (hname ▸ of_decide_eq_true htable)
      rw [tkvsOf, hexact]
      rfl
    simp only [Option.map_some, hfirst]
    rfl

/-- One turn of the loop at a record that was sent. -/
def keepNewer (key : UInt16) (keyFound : Found) (input : InsertInput) : Found :=
  if input.key = key ∧ keyFound.timestamp < input.timestamp then
    (Record.mk input.timestamp input.key input.value.bytes).found
  else keyFound

theorem foldlM_visitMemTkv (hinputs : ∀ input ∈ inputs, Journalable input) (keyFound : Found) :
    (inputs.map createTkv).foldlM (visitMemTkv key) keyFound =
      some (inputs.foldl (keepNewer key) keyFound) := by
  induction inputs generalizing keyFound with
  | nil => rfl
  | cons input inputs ih =>
    have hinput := hinputs input List.mem_cons_self
    have hrest := fun other hother => hinputs other (List.mem_cons_of_mem _ hother)
    rw [List.map_cons, List.foldlM_cons, visitMemTkv, createTkv_eq,
      convertRecord_convertToTkv hinput.value_ne hinput.value_semicolon, List.foldl_cons]
    exact ih hrest _

/-- What is kept is at least as new as before, and as new as the record. -/
theorem le_keepNewer (keyFound : Found) (input : InsertInput) :
    keyFound.timestamp ≤ (keepNewer key keyFound input).timestamp ∧
      (input.key = key → input.timestamp ≤ (keepNewer key keyFound input).timestamp) := by
  rw [keepNewer]
  split
  · rename_i hnewer
    exact ⟨Int64.le_of_lt hnewer.2, fun _ => Int64.le_refl _⟩
  · rename_i hkept
    refine ⟨Int64.le_refl _, fun hkey => ?_⟩
    exact Int64.not_lt.mp fun hlt => hkept ⟨hkey, hlt⟩

theorem le_foldl_keepNewer (inputs : List InsertInput) (keyFound : Found) :
    keyFound.timestamp ≤ (inputs.foldl (keepNewer key) keyFound).timestamp ∧
      ∀ input ∈ inputs, input.key = key →
        input.timestamp ≤ (inputs.foldl (keepNewer key) keyFound).timestamp := by
  induction inputs generalizing keyFound with
  | nil => exact ⟨Int64.le_refl _, nofun⟩
  | cons input inputs ih =>
    obtain ⟨hbefore, hinput⟩ := @le_keepNewer key keyFound input
    obtain ⟨hafter, hrest⟩ := ih (keepNewer key keyFound input)
    rw [List.foldl_cons]
    refine ⟨Int64.le_trans hbefore hafter, ?_⟩
    intro other hother hkey
    rcases List.mem_cons.mp hother with rfl | hother
    · exact Int64.le_trans (hinput hkey) hafter
    · exact hrest other hother hkey

/-- Records that are not newer are not taken. -/
theorem foldl_keepNewer_of_le {keyFound : Found}
    (hle : ∀ input ∈ inputs, input.key = key → input.timestamp ≤ keyFound.timestamp) :
    inputs.foldl (keepNewer key) keyFound = keyFound := by
  induction inputs with
  | nil => rfl
  | cons input inputs ih =>
    have hkept : keepNewer key keyFound input = keyFound := by
      rw [keepNewer, if_neg]
      rintro ⟨hkey, hlt⟩
      exact Int64.not_lt.mpr (hle input List.mem_cons_self hkey) hlt
    rw [List.foldl_cons, hkept]
    exact ih fun other hother => hle other (List.mem_cons_of_mem _ hother)

/-- **Second copies are not taken**, whatever texts stand before the first ones. -/
theorem foldlM_visitMemTkv_twice (hinputs : ∀ input ∈ inputs, Journalable input) (tkvs : List Bytes)
    (keyFound : Found) :
    (tkvs ++ inputs.map createTkv ++ inputs.map createTkv).foldlM (visitMemTkv key) keyFound =
      (tkvs ++ inputs.map createTkv).foldlM (visitMemTkv key) keyFound := by
  rw [List.foldlM_append, List.foldlM_append]
  cases tkvs.foldlM (visitMemTkv key) keyFound with
  | none => rfl
  | some best =>
    have honce := @foldlM_visitMemTkv inputs key hinputs
    simp only [Option.bind_eq_bind, Option.bind_some, honce]
    rw [foldl_keepNewer_of_le (le_foldl_keepNewer inputs best).2]

/-- Appending records a second time is not seen by a search. -/
theorem searchKeyInMemtable_foldl_twice (hinputs : ∀ input ∈ inputs, Journalable input)
    (memTable : List MemTable) (name : Bytes) (key : UInt16) :
    searchKeyInMemtable (inputs.foldl listAddTkv (inputs.foldl listAddTkv memTable)) name key =
      searchKeyInMemtable (inputs.foldl listAddTkv memTable) name key := by
  have hnames := @names_foldl_listAddTkv inputs (inputs.foldl listAddTkv memTable)
    fun input hinput => mem_names_foldl_listAddTkv hinput
  rw [searchKeyInMemtable_eq_names, searchKeyInMemtable_eq_names, hnames]
  cases ((inputs.foldl listAddTkv memTable).map MemTable.name).find? fun other =>
    toUppercase other = toUppercase name with
  | none => rfl
  | some found =>
    simp only [tkvsOf_foldl_listAddTkv]
    exact foldlM_visitMemTkv_twice
      (fun input hinput => hinputs input (List.mem_of_mem_filter hinput)) _ _

end Searching

/-! ## Sending a batch again -/

/-- The answer is 0 exactly if each record is acceptable, the acceptable ones are appended to their
tables in the order of the batch, and the same batch once more, whatever the clock says by then,
changes no search. -/
structure ResendsHarmlessly (config : FsConfig) (clock later : Nat → Int64)
    (directory : TablesDirectory) (inputs : List InsertInput) : Prop where
  answer : (directory.processMultiinsert config clock inputs).1 = 0 ↔
    ∀ input ∈ inputs, Acceptable config directory.toFilesystem input
  appended : (directory.processMultiinsert config clock inputs).2 = { directory with
    memTable := (inputs.filter (Acceptable config directory.toFilesystem)).foldl listAddTkv
      directory.memTable }
  texts : ∀ name, tkvsOf (directory.processMultiinsert config clock inputs).2.memTable name =
    tkvsOf directory.memTable name ++
      textsFor (inputs.filter (Acceptable config directory.toFilesystem)) name
  unseen : ∀ name key,
    searchKeyInMemtable ((directory.processMultiinsert config clock inputs).2.processMultiinsert
        config later inputs).2.memTable name key =
      searchKeyInMemtable (directory.processMultiinsert config clock inputs).2.memTable name key

section Resending
variable {config : FsConfig} {clock later : Nat → Int64} {directory : TablesDirectory}
  {inputs : List InsertInput} {input : InsertInput}

theorem accepted_iff : Accepted config directory input ↔
    Acceptable config directory.toFilesystem input ∨
      (directory.NoTable input.tableName.bytes ∧
        input.value.bytes.length ≤ config.maxValueSize) := by
  rw [Accepted, Acceptable, TablesDirectory.existInDirectory_iff, or_and_right, or_comm]

/-- **Sending a batch again is harmless**, for a batch that the tables decide. -/
theorem resendsHarmlessly_of_accepted (hinputs : ∀ input ∈ inputs, Journalable input)
    (haccepted : ∀ input ∈ inputs,
      Accepted config directory input ↔ Acceptable config directory.toFilesystem input) :
    ResendsHarmlessly config clock later directory inputs := by
  have htimes := fun input hinput => (hinputs input hinput).timestamp
  have hall : (∀ input ∈ inputs, Accepted config directory input) ↔
      ∀ input ∈ inputs, Acceptable config directory.toFilesystem input :=
    forall₂_congr haccepted
  have hfilter : inputs.filter (Accepted config directory) =
      inputs.filter (Acceptable config directory.toFilesystem) :=
    List.filter_congr fun input hinput => decide_eq_decide.mpr (haccepted input hinput)
  have honce := processMultiinsert_eq config clock directory htimes
  rw [hfilter] at honce
  refine ⟨?_, ?_, fun name => ?_, fun name key => ?_⟩
  · rw [honce, ← hall]
    split
    · rename_i haccept
      exact iff_of_true rfl haccept
    · rename_i hrefused
      exact iff_of_false (show (-1 : Int32) ≠ 0 by decide) hrefused
  · rw [honce]
  · rw [honce]
    exact tkvsOf_foldl_listAddTkv _ _ _
  · -- The same records are accepted the second time.
    rw [honce, processMultiinsert_eq config later _ htimes]
    have hsent : ∀ input ∈ inputs.filter (Accepted config directory), Journalable input :=
      fun input hinput => hinputs input (List.mem_of_mem_filter hinput)
    rw [← hfilter]
    exact searchKeyInMemtable_foldl_twice hsent directory.memTable name key

/-- **When sending a batch again is harmless.**  For all entries of the tables directory, every
memtable and every batch: if and only if no record with a value that fits names an entry that is no
table. -/
theorem resent_batch_harmless_iff (config : FsConfig) (clock later : Nat → Int64)
    (directory : TablesDirectory) (inputs : List InsertInput)
    (hinputs : ∀ input ∈ inputs, Journalable input) :
    ResendsHarmlessly config clock later directory inputs ↔
      ∀ input ∈ inputs, input.value.bytes.length ≤ config.maxValueSize →
        ¬ directory.NoTable input.tableName.bytes := by
  constructor
  · intro hharmless input hmem hfits hno
    have htimes := fun input hinput => (hinputs input hinput).timestamp
    -- No acceptable record has this name, and one text is appended to it.
    have htexts := hharmless.texts (toUppercase input.tableName.bytes)
    rw [processMultiinsert_eq config clock directory htimes, tkvsOf_foldl_listAddTkv] at htexts
    have hnone : textsFor (inputs.filter (Acceptable config directory.toFilesystem))
        (toUppercase input.tableName.bytes) = [] := by
      rw [textsFor, List.filter_filter, List.map_eq_nil_iff, List.filter_eq_nil_iff]
      rintro other - hother
      obtain ⟨hname, hacceptable⟩ := Bool.and_eq_true_iff.mp hother
      have hexist := (of_decide_eq_true hacceptable).1
      rw [existInDirectory, of_decide_eq_true hname] at hexist
      exact absurd (hexist.symm.trans hno.2) (by decide)
    rw [hnone, List.append_nil] at htexts
    have hempty := List.append_right_eq_self.mp htexts
    rw [textsFor, List.map_eq_nil_iff, List.filter_eq_nil_iff] at hempty
    exact hempty input (List.mem_filter.mpr
      ⟨hmem, decide_eq_true (accepted_iff.mpr (Or.inr ⟨hno, hfits⟩))⟩) (decide_eq_true rfl)
  · intro hcondition
    refine resendsHarmlessly_of_accepted hinputs fun input hinput => ?_
    rw [accepted_iff, or_iff_left]
    exact fun hno => hcondition input hinput hno.2 hno.1

end Resending

/-- A filesystem with an empty table T and values of at most two bytes, and a batch of two records
of T around one of a table that does not exist and one that is too long. -/
def oneTableFilesystem : Filesystem :=
  { Filesystem.formatted 64 8 with
    tables := (∅ : AList fun _ : Bytes => Table).insert [84] ⟨.strongConsistency, 0, [], [], none⟩ }

def mixedBatch : List InsertInput :=
  [⟨.ofBytes [116], 1, .ofBytes [97], 5⟩, ⟨.ofBytes [85], 1, .ofBytes [97], 6⟩,
    ⟨.ofBytes [84], 1, .ofBytes [97, 97, 97], 7⟩, ⟨.ofBytes [84], 1, .ofBytes [98], 5⟩]

theorem mixedBatch_journalable : ∀ input ∈ mixedBatch, Journalable input := by
  rintro input (_ | ⟨_, _ | ⟨_, _ | ⟨_, _ | ⟨_, ⟨⟩⟩⟩⟩⟩)
  all_goals exact ⟨by decide, by decide, by decide⟩

/-- The batch fails and appends two records, and once more it appends them again; the search
answers with the first of them. -/
theorem resent_batch_harmless_mixed :
    let once := oneTableFilesystem.mounted.processMultiinsert ⟨32, 2⟩ (fun _ => 8) mixedBatch
    let twice := once.2.processMultiinsert ⟨32, 2⟩ (fun _ => 9) mixedBatch
    ResendsHarmlessly ⟨32, 2⟩ (fun _ => 8) (fun _ => 9) oneTableFilesystem.mounted mixedBatch ∧
      once.1 = -1 ∧ (twice.2.memTable.map fun table => table.tkvs.length) = [4] ∧
      searchKeyInMemtable twice.2.memTable [84] 1 = some ⟨5, 1, [97]⟩ := by
  refine ⟨(resent_batch_harmless_iff ⟨32, 2⟩ (fun _ => 8) (fun _ => 9) oneTableFilesystem.mounted
    mixedBatch mixedBatch_journalable).mpr (by decide +kernel), ?_, ?_, ?_⟩ <;> decide +kernel

/-- `INSERT . 1 "a" 5` alone is answered with 0. -/
theorem resent_batch_not_harmless :
    ¬ ∀ (config : FsConfig) (clock later : Nat → Int64) (directory : TablesDirectory)
      (inputs : List InsertInput), (∀ input ∈ inputs, Journalable input) →
        ResendsHarmlessly config clock later directory inputs := by
  intro hclaim
  have hharmless := hclaim ⟨32, 2⟩ (fun _ => 8) (fun _ => 9) oneTableFilesystem.mounted
    [⟨.ofBytes dot, 1, .ofBytes [97], 5⟩] (by
      rintro input (_ | ⟨_, ⟨⟩⟩)
      exact ⟨by decide, by decide, by decide⟩)
  have haccepts := hharmless.answer.mp (by decide +kernel) _ List.mem_cons_self
  exact absurd haccepts (by decide +kernel)

end Lissandra
