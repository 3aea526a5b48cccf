import Lissandra.Dispatch
import Lissandra.KeyedList
import Lissandra.Serializer

/-! # Runs of updates of the list of tables

`g_table_metadata` is edited in place: a CREATE and a DESCRIBE of one table put an entry, a DROP
removes one, and a DESCRIBE of every table, which the kernel also makes by itself from time to
time, replaces them all.  As long as an answer does not name a table twice, the list is a map on
names in upper case, and the lookups of `exec_remote` read this map.

The automatic DESCRIBE tells a failure from an answer without tables by `NULL`.  A memory that
does not reach the filesystem answers with a list without elements.
-/
namespace Lissandra

/-! ## Updates -/

/-- Names are compared ignoring case. -/
def TableMetadataT.name (metadata : TableMetadataT) : Bytes :=
  toUppercase metadata.tableName.bytes

/-- `on_post_create`. -/
def onPostCreate (input : CreateInput) : Option UpdateMetadataArgs :=
  onPostDescribe (some [⟨input.tableName, input.consistency, input.partitions,
    input.compactionTime⟩]) true true

/-- `on_post_drop`, which writes the name into a block with the fields that `malloc` left in it. -/
def onPostDrop (input : DropInput) (uninitialised : TableMetadataT) : Option UpdateMetadataArgs :=
  onPostDescribe (some [{ uninitialised with tableName := input.tableName }]) true false

/-- `update_descriptions_callback`. -/
def updateDescriptionsCallback (result : Option (List TableMetadataT)) :
    Option UpdateMetadataArgs :=
  onPostDescribe result false true

/-- What triggers an update: a CREATE, a DESCRIBE of a table, a DROP, or all of the metadata. -/
inductive MetadataUpdate where
  | create (input : CreateInput)
  | describe (metadata : TableMetadataT)
  | drop (input : DropInput) (uninitialised : TableMetadataT)
  | replace (metadataList : List TableMetadataT)

/-- What the thread of the update is given. -/
def MetadataUpdate.args : MetadataUpdate → Option UpdateMetadataArgs
  | create input => onPostCreate input
  | describe metadata => onDescribe (some [metadata])
  | drop input uninitialised => onPostDrop input uninitialised
  | replace metadataList => updateDescriptionsCallback (some metadataList)

/-- The names of a full replacement are pairwise different. -/
def MetadataUpdate.Distinct : MetadataUpdate → Prop
  | replace metadataList => (metadataList.map TableMetadataT.name).Nodup
  | _ => True

/-- One update, processed by its thread. -/
def MetadataUpdate.process (table : List TableMetadataT) (update : MetadataUpdate) :
    Option (List TableMetadataT) := do
  onDescribeUpdateTriggered (← update.args) table

/-! ## What they are for -/

/-- The metadata of each name. -/
abbrev MetadataMap := Bytes → Option TableMetadataT

/-- Insert, erase and replace. -/
def MetadataUpdate.apply (map : MetadataMap) : MetadataUpdate → MetadataMap
  | create input =>
    Function.update map (toUppercase input.tableName.bytes)
      (some ⟨input.tableName, input.consistency, input.partitions, input.compactionTime⟩)
  | describe metadata => Function.update map metadata.name (some metadata)
  | drop input _ => Function.update map (toUppercase input.tableName.bytes) none
  | replace metadataList =>
    metadataList.foldl (fun map metadata => Function.update map metadata.name (some metadata))
      fun _ => none

/-- What `get_consistency_from_table` answers for the metadata of a name. -/
def consistencyCode : Option TableMetadataT → UInt8
  | some metadata => metadata.consistency.toEnum
  | none => -1

/-! ## The list as a map -/

theorem isNamed_iff_name (metadata : TableMetadataT) (tableName : CString) :
    metadata.isNamed tableName ↔ metadata.name = toUppercase tableName.bytes :=
  metadata.isNamed_iff tableName

theorem upsertMetadata_eq_put (affected : TableMetadataT) (table : List TableMetadataT) :
    upsertMetadata affected table = put TableMetadataT.name table affected := by
  induction table with
  | nil => rfl
  | cons existing rest ih =>
    simp only [upsertMetadata, put, isNamed_iff_name, ih]
    rfl

theorem deleteMetadata_eq_remove (affected : TableMetadataT) (table : List TableMetadataT) :
    deleteMetadata affected table = remove TableMetadataT.name affected.name table := by
  induction table with
  | nil => rfl
  | cons existing rest ih =>
    simp only [deleteMetadata, remove, isNamed_iff_name, ih]
    rfl

/-- What the second lookup answers, from the map. -/
theorem getConsistencyFromTable_eq (tableName : CString) (table : List TableMetadataT) :
    getConsistencyFromTable tableName table
      = consistencyCode (entryMap TableMetadataT.name table (toUppercase tableName.bytes)) := by
  induction table with
  | nil => rfl
  | cons first rest ih =>
    rw [getConsistencyFromTable]
    by_cases hnamed : first.isNamed tableName
    · rw [if_pos hnamed]
      rw [isNamed_iff_name] at hnamed
      rw [entryMap_cons, hnamed, Function.update_self, consistencyCode]
    · rw [if_neg hnamed, ih]
      rw [isNamed_iff_name] at hnamed
      rw [entryMap_cons, Function.update_of_ne fun heq => hnamed heq.symm]

/-- What the first lookup answers, from the map. -/
theorem tableExistsInMetadata_eq (tableName : CString) (table : List TableMetadataT) :
    tableExistsInMetadata tableName table
      = (entryMap TableMetadataT.name table (toUppercase tableName.bytes)).isSome := by
  induction table with
  | nil => rfl
  | cons first rest ih =>
    rw [tableExistsInMetadata]
    by_cases hnamed : first.isNamed tableName
    · rw [if_pos hnamed]
      rw [isNamed_iff_name] at hnamed
      rw [entryMap_cons, hnamed, Function.update_self, Option.isSome_some]
    · rw [if_neg hnamed, ih]
      rw [isNamed_iff_name] at hnamed
      rw [entryMap_cons, Function.update_of_ne fun heq => hnamed heq.symm]

/-- **One update** does to the list what it does to the map. -/
theorem MetadataUpdate.process_refines {table : List TableMetadataT} {update : MetadataUpdate}
    (hnodup : (table.map TableMetadataT.name).Nodup) (hdistinct : update.Distinct) :
    ∃ table', update.process table = some table' ∧
      (table'.map TableMetadataT.name).Nodup ∧
      entryMap TableMetadataT.name table'
        = update.apply (entryMap TableMetadataT.name table) := by
  cases update with
  | create input =>
    refine ⟨_, rfl, ?_, ?_⟩
    · rw [if_pos rfl, upsertMetadata_eq_put]
      exact nodup_put hnodup
    · rw [if_pos rfl, upsertMetadata_eq_put, entryMap_put]
      rfl
  | describe metadata =>
    refine ⟨_, rfl, ?_, ?_⟩
    · rw [if_pos rfl, upsertMetadata_eq_put]
      exact nodup_put hnodup
    · rw [if_pos rfl, upsertMetadata_eq_put, entryMap_put]
      rfl
  | drop input uninitialised =>
    refine ⟨_, rfl, ?_, ?_⟩
    · rw [if_neg Bool.false_ne_true, deleteMetadata_eq_remove]
      exact nodup_remove hnodup
    · rw [if_neg Bool.false_ne_true, deleteMetadata_eq_remove, entryMap_remove hnodup]
      rfl
  | replace metadataList =>
    refine ⟨metadataList, ?_, hdistinct, entryMap_eq_foldl hdistinct⟩
    exact congrArg some (replaceMetadata_eq metadataList table)

/-- **Runs of updates.**  From a list without repeated names, which the kernel starts with, any
sequence of updates gives a list without repeated names, and the lookups answer as the map after
the same sequence of insert, erase and replace. -/
theorem metadata_refines_map (updates : List MetadataUpdate) {table : List TableMetadataT}
    (hnodup : (table.map TableMetadataT.name).Nodup)
    (hdistinct : ∀ update ∈ updates, update.Distinct) :
    ∃ table', updates.foldlM MetadataUpdate.process table = some table' ∧
      (table'.map TableMetadataT.name).Nodup ∧
      ∀ tableName : CString,
        let stored := updates.foldl MetadataUpdate.apply (entryMap TableMetadataT.name table)
          (toUppercase tableName.bytes)
        tableExistsInMetadata tableName table' = stored.isSome ∧
          getConsistencyFromTable tableName table' = consistencyCode stored := by
  induction updates generalizing table with
  | nil =>
    refine ⟨table, rfl, hnodup, fun tableName => ⟨?_, ?_⟩⟩
    · exact tableExistsInMetadata_eq tableName table
    · exact getConsistencyFromTable_eq tableName table
  | cons update updates ih =>
    obtain ⟨middle, hprocess, hmiddle, hmap⟩ :=
      MetadataUpdate.process_refines hnodup (hdistinct update List.mem_cons_self)
    obtain ⟨table', hrun, hnodup', hlookups⟩ := ih hmiddle fun other hother =>
      hdistinct other (List.mem_cons_of_mem _ hother)
    refine ⟨table', ?_, hnodup', fun tableName => ?_⟩
    · rw [List.foldlM_cons, hprocess]
      exact hrun
    · rw [List.foldl_cons, ← hmap]
      exact hlookups tableName

/-- Two tables are described, one is described again in lower case, and the other one dropped. -/
theorem metadata_refines_map_four :
    ∃ table', [MetadataUpdate.replace [letterTable 65, letterTable 66],
        .describe (letterTable 97), .drop ⟨.ofBytes [98]⟩ (letterTable 65)].foldlM
          MetadataUpdate.process [] = some table' ∧
      (table'.map TableMetadataT.name).Nodup ∧
      ∀ tableName : CString,
        let stored := [MetadataUpdate.replace [letterTable 65, letterTable 66],
          .describe (letterTable 97), .drop ⟨.ofBytes [98]⟩ (letterTable 65)].foldl
            MetadataUpdate.apply (entryMap TableMetadataT.name []) (toUppercase tableName.bytes)
        tableExistsInMetadata tableName table' = stored.isSome ∧
          getConsistencyFromTable tableName table' = consistencyCode stored := by
  refine metadata_refines_map _ List.nodup_nil ?_
  rintro update (_ | ⟨_, _ | ⟨_, _ | ⟨_, ⟨⟩⟩⟩⟩)
  · show (List.map _ _).Nodup
    decide
  · trivial
  · trivial

/-! ## The automatic DESCRIBE -/

/-- What the kernel reads of an answer. -/
def transmitMetadata (answer : List TableMetadataT) : Option (List TableMetadataT) :=
  deserializeContent (serializeContent .describeOut answer) .describeOut
    (elementsInfo .describeOut answer).elements (elementsInfo .describeOut answer).elementsSize

/-- Why an automatic DESCRIBE fails: the memory does not reach the filesystem, or the kernel does
not reach the memory. -/
inductive DescribeFailure where
  | filesystemUnreachable
  | memoryUnreachable

/-- What `update_descriptions_callback` is called with. -/
def DescribeFailure.result : DescribeFailure → Option (List TableMetadataT)
  | filesystemUnreachable => transmitMetadata (describeCallback none)
  | memoryUnreachable => none

/-- `g_table_metadata` after an automatic DESCRIBE and the update it triggers. -/
def afterUpdateDescriptions (table : List TableMetadataT)
    (result : Option (List TableMetadataT)) : Option (List TableMetadataT) :=
  match updateDescriptionsCallback result with
  | none => some table
  | some args => onDescribeUpdateTriggered args table

/-- The table of metadata is what it was, and each table is found that was found before. -/
def KeepsMetadata (table : List TableMetadataT) (failure : DescribeFailure) : Prop :=
  afterUpdateDescriptions table failure.result = some table ∧
    ∀ after, afterUpdateDescriptions table failure.result = some after → ∀ tableName,
      tableExistsInMetadata tableName table → tableExistsInMetadata tableName after

/-- The kernel reads what the memory answers. -/
theorem transmitMetadata_eq (answer : List TableMetadataT) :
    transmitMetadata answer = some answer :=
  (deserializeContent_serializeContent .describeOut answer).2

theorem afterUpdateDescriptions_some (table answer : List TableMetadataT) :
    afterUpdateDescriptions table (some answer) = some answer :=
  congrArg some (replaceMetadata_eq answer table)

/-- A failure that the memory answers for is an answer without tables. -/
theorem afterUpdateDescriptions_filesystemUnreachable (table : List TableMetadataT) :
    afterUpdateDescriptions table DescribeFailure.filesystemUnreachable.result = some [] := by
  rw [DescribeFailure.result, transmitMetadata_eq, afterUpdateDescriptions_some]
  rfl

/-- **When a failed DESCRIBE keeps the metadata**: when it is the memory that was not reached, or
there was no metadata. -/
theorem keepsMetadata_iff (table : List TableMetadataT) (failure : DescribeFailure) :
    KeepsMetadata table failure ↔ failure = .memoryUnreachable ∨ table = [] := by
  cases failure with
  | memoryUnreachable =>
    refine iff_of_true ⟨rfl, ?_⟩ (.inl rfl)
    rintro after ⟨⟩ tableName hexists
    exact hexists
  | filesystemUnreachable =>
    constructor
    · rintro ⟨hkept, -⟩
      rw [afterUpdateDescriptions_filesystemUnreachable] at hkept
      exact .inr (Option.some.inj hkept).symm
    · rintro (⟨⟨⟩⟩ | rfl)
      have hafter := afterUpdateDescriptions_filesystemUnreachable []
      refine ⟨hafter, fun after heq tableName hexists => ?_⟩
      rw [hafter] at heq
      exact Option.some.inj heq ▸ hexists

/-- A memory that does not reach the filesystem has the kernel forget its only table. -/
theorem not_keepsMetadata :
    ¬ KeepsMetadata [letterTable 65] .filesystemUnreachable ∧
      tableExistsInMetadata (.ofBytes [65]) [letterTable 65] = true ∧
      ∃ after, afterUpdateDescriptions [letterTable 65]
          DescribeFailure.filesystemUnreachable.result = some after ∧
        tableExistsInMetadata (.ofBytes [65]) after = false := by
  have hafter := afterUpdateDescriptions_filesystemUnreachable [letterTable 65]
  refine ⟨?_, rfl, [], hafter, rfl⟩
  rintro ⟨hkept, -⟩
  rw [hafter] at hkept
  cases hkept

end Lissandra
