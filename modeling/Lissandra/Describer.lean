import Lissandra.Filesystem
import Lissandra.OperationTypes
import Lissandra.Strings

/-! # The list of tables of the kernel

`describer.c`, and the path of a DESCRIBE: the filesystem reads the metadata, the memory passes
it on, and `on_describe` hands a copy of it to a thread of its own.  The kernel does not say in
its answer what was asked for, so `on_describe` takes an answer of one table for that of a
DESCRIBE of this table.

An update is one step: it runs under `g_mutex_user_describe`.  `none` is a `NULL` that is
dereferenced, or in an answer the `NULL` of a request that failed.
-/
namespace Lissandra

/-! ## The filesystem and the memory -/

/-- `read_table_metadata`, and the name of the directory. -/
def readTableMetadata (name : Bytes) (table : Table) : TableMetadataT :=
  ⟨CString.ofBytes name, table.consistency, Int32.ofNat table.partitions.length,
    table.compactionTime⟩

/-- `process_describe` of the filesystem. -/
def processDescribe (input : DescribeInput) (fs : Filesystem) : List TableMetadataT :=
  match input.tableName with
  | none => fs.tables.entries.map fun entry => readTableMetadata entry.1 entry.2
  | some tableName =>
    let tableNameUpper := toUppercase tableName.bytes
    match fs.tables.lookup tableNameUpper with
    | some table => [readTableMetadata tableNameUpper table]
    | none => []

/-- `describe_callback` of the memory: it has a list to answer with also when the filesystem did
not give it one. -/
def describeCallback (result : Option (List TableMetadataT)) : List TableMetadataT :=
  match result with
  | some results => results
  | none => []

/-- What the kernel may receive for a DESCRIBE. -/
inductive Received (input : DescribeInput) : Option (List TableMetadataT) → Prop where
  | answered (fs : Filesystem) :
    Received input (some (describeCallback (some (processDescribe input fs))))
  | filesystemUnreachable : Received input (some (describeCallback none))
  | memoryUnreachable : Received input none

/-! ## The kernel -/

/-- `update_metadata_args_t`. -/
structure UpdateMetadataArgs where
  metadataList : List TableMetadataT
  single : Bool
  upsert : Bool

/-- `string_equals_ignore_case` of a table's name. -/
def TableMetadataT.isNamed (metadata : TableMetadataT) (tableName : CString) : Bool :=
  stringEqualsIgnoreCase tableName.bytes metadata.tableName.bytes

/-- The individual case of `on_describe_update_triggered`, an insert or update. -/
def upsertMetadata (affected : TableMetadataT) : List TableMetadataT → List TableMetadataT
  | [] => [affected]
  | existing :: rest =>
    if existing.isNamed affected.tableName then affected :: rest
    else existing :: upsertMetadata affected rest

/-- The individual case of `on_describe_update_triggered`, a delete. -/
def deleteMetadata (affected : TableMetadataT) : List TableMetadataT → List TableMetadataT
  | [] => []
  | existing :: rest =>
    if existing.isNamed affected.tableName then rest
    else existing :: deleteMetadata affected rest

/-- The loop of the general case that removes the entries, from the last one on. -/
def clearMetadata : Nat → List TableMetadataT → List TableMetadataT
  | 0, table => table
  | i + 1, table => clearMetadata i (table.eraseIdx i)

/-- The general case of `on_describe_update_triggered`. -/
def replaceMetadata (metadataList table : List TableMetadataT) : List TableMetadataT :=
  metadataList.foldl (fun added metadata => added ++ [metadata])
    (clearMetadata table.length table)

/-- `on_describe_update_triggered`, on `g_table_metadata`. -/
def onDescribeUpdateTriggered (args : UpdateMetadataArgs) (table : List TableMetadataT) :
    Option (List TableMetadataT) :=
  if args.single then
    match args.metadataList with
    | [] => none
    | affected :: _ =>
      some (if args.upsert then upsertMetadata affected table else deleteMetadata affected table)
  else some (replaceMetadata args.metadataList table)

/-- `on_post_describe`: what the new thread is given. -/
def onPostDescribe (metadataList : Option (List TableMetadataT)) (single upsert : Bool) :
    Option UpdateMetadataArgs :=
  metadataList.map fun metadataList => ⟨metadataList, single, upsert⟩

/-- `on_describe`: the update that it triggers. -/
def onDescribe (result : Option (List TableMetadataT)) : Option UpdateMetadataArgs :=
  match result with
  | none => none
  | some metadataList =>
    if metadataList.length = 0 then none
    else onPostDescribe (some metadataList) (metadataList.length == 1) true

/-- `g_table_metadata` after a DESCRIBE statement and the update it triggers. -/
def afterDescribe (table : List TableMetadataT) (result : Option (List TableMetadataT)) :
    Option (List TableMetadataT) :=
  match onDescribe result with
  | none => some table
  | some args => onDescribeUpdateTriggered args table

/-! ## Updates -/

theorem clearMetadata_length (table : List TableMetadataT) :
    clearMetadata table.length table = [] := by
  generalize hlength : table.length = i
  induction i generalizing table with
  | zero => exact List.eq_nil_of_length_eq_zero hlength
  | succ i ih =>
    rw [clearMetadata]
    apply ih
    rw [List.length_eraseIdx_of_lt (by omega)]
    omega

theorem replaceMetadata_eq (metadataList table : List TableMetadataT) :
    replaceMetadata metadataList table = metadataList := by
  have hadd : ∀ added : List TableMetadataT,
      metadataList.foldl (fun added metadata => added ++ [metadata]) added
        = added ++ metadataList := by
    induction metadataList with
    | nil => simp
    | cons metadata rest ih =>
      intro added
      simp [ih]
  rw [replaceMetadata, clearMetadata_length, hadd, List.nil_append]

/-- Names are compared by what they are in upper case. -/
theorem TableMetadataT.isNamed_iff (metadata : TableMetadataT) (tableName : CString) :
    metadata.isNamed tableName ↔
      toUppercase metadata.tableName.bytes = toUppercase tableName.bytes := by
  simp [isNamed, stringEqualsIgnoreCase, eq_comm]

/-- The entries of other tables, in their order. -/
def othersThan (tableName : CString) (table : List TableMetadataT) : List TableMetadataT :=
  table.filter fun metadata => !metadata.isNamed tableName

section Single
variable {affected : TableMetadataT} {tableName : CString}

/-- An entry that is affected has the name of the table. -/
theorem isNamed_of_isNamed_affected {existing : TableMetadataT}
    (haffected : affected.isNamed tableName) (h : existing.isNamed affected.tableName) :
    existing.isNamed tableName := by
  rw [TableMetadataT.isNamed_iff] at *
  exact h.trans haffected

theorem othersThan_upsertMetadata (haffected : affected.isNamed tableName)
    (table : List TableMetadataT) :
    othersThan tableName (upsertMetadata affected table) = othersThan tableName table := by
  induction table with
  | nil => simp [upsertMetadata, othersThan, haffected]
  | cons existing rest ih =>
    rw [upsertMetadata]
    split_ifs with hnamed
    · have hexisting := isNamed_of_isNamed_affected haffected hnamed
      simp [othersThan, haffected, hexisting]
    · simp only [othersThan, List.filter_cons] at ih ⊢
      rw [ih]

theorem othersThan_deleteMetadata (haffected : affected.isNamed tableName)
    (table : List TableMetadataT) :
    othersThan tableName (deleteMetadata affected table) = othersThan tableName table := by
  induction table with
  | nil => rfl
  | cons existing rest ih =>
    rw [deleteMetadata]
    split_ifs with hnamed
    · have hexisting := isNamed_of_isNamed_affected haffected hnamed
      simp [othersThan, hexisting]
    · simp only [othersThan, List.filter_cons] at ih ⊢
      rw [ih]

/-- An individual update changes at most the entry of its table. -/
theorem onDescribeUpdateTriggered_single (haffected : affected.isNamed tableName)
    (upsert : Bool) (table : List TableMetadataT) :
    ∃ table', onDescribeUpdateTriggered ⟨[affected], true, upsert⟩ table = some table' ∧
      othersThan tableName table' = othersThan tableName table := by
  cases upsert with
  | true => exact ⟨_, rfl, othersThan_upsertMetadata haffected table⟩
  | false => exact ⟨_, rfl, othersThan_deleteMetadata haffected table⟩

end Single

/-! ## Answers -/

/-- Directories have their names in upper case. -/
theorem readTableMetadata_isNamed (tableName : CString) (table : Table) :
    (readTableMetadata (toUppercase tableName.bytes) table).isNamed tableName := by
  have hnul : ∀ b ∈ toUppercase tableName.bytes, b ≠ 0 := by
    intro b hb hzero
    obtain ⟨c, hc, rfl⟩ := List.mem_map.mp hb
    have hnul : c = 0 := (toUpper_eq_iff (by decide)).mp hzero
    exact tableName.noNul (hnul ▸ hc)
  rw [TableMetadataT.isNamed_iff]
  show toUppercase (List.takeWhile _ _) = _
  rw [List.takeWhile_eq_self_iff.mpr (by simpa using hnul), toUppercase_toUppercase]

/-- The answer to a DESCRIBE of one table is about this table. -/
theorem Received.single {tableName : CString} {result : Option (List TableMetadataT)}
    (h : Received ⟨some tableName⟩ result) :
    result = none ∨ result = some [] ∨
      ∃ affected, result = some [affected] ∧ affected.isNamed tableName := by
  cases h with
  | memoryUnreachable => exact .inl rfl
  | filesystemUnreachable => exact .inr (.inl rfl)
  | answered fs =>
    simp only [describeCallback, processDescribe]
    split
    · rename_i table _
      exact .inr (.inr ⟨_, rfl, readTableMetadata_isNamed tableName table⟩)
    · exact .inr (.inl rfl)

/-- An answer of two tables or more replaces the list. -/
theorem afterDescribe_of_two_le (table : List TableMetadataT) {received : List TableMetadataT}
    (h : 2 ≤ received.length) : afterDescribe table (some received) = some received := by
  have hempty : received.length ≠ 0 := by omega
  have hsingle : (received.length == 1) = false := by
    rw [beq_eq_false_iff_ne]
    omega
  simp [afterDescribe, onDescribe, onPostDescribe, onDescribeUpdateTriggered, hempty, hsingle,
    replaceMetadata_eq]

/-- A DESCRIBE of one table keeps the entries of the others. -/
theorem afterDescribe_single (table : List TableMetadataT) {tableName : CString}
    {result : Option (List TableMetadataT)} (h : Received ⟨some tableName⟩ result) :
    ∃ table', afterDescribe table result = some table' ∧
      othersThan tableName table' = othersThan tableName table := by
  obtain rfl | rfl | ⟨affected, rfl, haffected⟩ := h.single
  · exact ⟨table, rfl, rfl⟩
  · exact ⟨table, rfl, rfl⟩
  · exact onDescribeUpdateTriggered_single haffected true table

/-- A DESCRIBE of every table replaces `g_table_metadata` when it brings two tables or more, and
leaves it as it was when it brings none.  A DESCRIBE of one table keeps the entries of the
others. -/
theorem describe_updates (table : List TableMetadataT) {received : List TableMetadataT}
    {tableName : CString} {result : Option (List TableMetadataT)}
    (hreceived : 2 ≤ received.length) (hresult : Received ⟨some tableName⟩ result) :
    afterDescribe table (some received) = some received ∧
      afterDescribe table (some []) = some table ∧
      ∃ table', afterDescribe table result = some table' ∧
        othersThan tableName table' = othersThan tableName table :=
  ⟨afterDescribe_of_two_le table hreceived, rfl, afterDescribe_single table hresult⟩

/-- A table of one partition with a name of one letter. -/
def letterTable (letter : Byte) : TableMetadataT :=
  ⟨CString.ofBytes [letter], .strongConsistency, 1, 60000⟩

/-- A filesystem whose only table is B. -/
def oneTableDescribed : Filesystem :=
  { Filesystem.formatted 64 8 with
    tables := (∅ : AList fun _ : Bytes => Table).insert [66]
      ⟨.strongConsistency, 60000, [⟨[1], 0⟩], [], none⟩ }

/-- A DESCRIBE of every table brings two tables, another one none, and one of B brings B. -/
theorem describe_updates_two :
    afterDescribe [letterTable 65] (some [letterTable 66, letterTable 67])
        = some [letterTable 66, letterTable 67] ∧
      afterDescribe [letterTable 65] (some []) = some [letterTable 65] ∧
      ∃ table', afterDescribe [letterTable 65] (some [letterTable 66]) = some table' ∧
        othersThan (CString.ofBytes [66]) table' =
          othersThan (CString.ofBytes [66]) [letterTable 65] := by
  have hanswered : Received ⟨some (CString.ofBytes [66])⟩ (some [letterTable 66]) :=
    .answered oneTableDescribed
  exact describe_updates [letterTable 65] (by decide) hanswered

/-- The table that is in the list stays there when a DESCRIBE of every table brings none or
brings another one. -/
theorem describe_keeps :
    afterDescribe [letterTable 65] (some []) ≠ some [] ∧
      afterDescribe [letterTable 65] (some [letterTable 66]) ≠ some [letterTable 66] := by
  decide

end Lissandra
