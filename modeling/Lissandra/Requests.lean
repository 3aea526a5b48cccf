import Lissandra.DumpCompaction

/-! # What the requests do to the tables

`process_insert`, `process_create` and `process_drop` on the views: an accepted INSERT
puts its record at the end of the memtable of its table (`Valid.insert`), an accepted
CREATE makes a table of empty partitions (`Valid.create`), a DROP removes the archives of
its table and leaves its memtable behind (`Valid.drop`).  A request that is refused leaves
the state as it was.
-/
namespace Lissandra

/-! ## INSERT -/

/-- The record that an INSERT at the time `now` puts into the memtable. -/
def insertedRecord (now : Int64) (input : InsertInput) : Record :=
  ⟨if input.timestamp = -1 then now else input.timestamp, input.key, input.value.bytes⟩

section Insert
variable {name tkv : Bytes} {memTable : List MemTable}

theorem addTkv_names (name tkv : Bytes) (memTable : List MemTable) :
    (addTkv name tkv memTable).map MemTable.name = memTable.map MemTable.name := by
  induction memTable with
  | nil => rfl
  | cons table rest ih =>
    rw [addTkv]
    split
    · rfl
    · rw [List.map_cons, ih, List.map_cons]

/-- A name is in the list after `create_table`, and no name is lost or doubled. -/
theorem createTable_cases (name : Bytes) (memTable : List MemTable) :
    (name ∈ memTable.map MemTable.name ∧ createTable name memTable = memTable) ∨
    (name ∉ memTable.map MemTable.name ∧ createTable name memTable = memTable ++ [⟨name, []⟩]) := by
  rw [createTable]
  by_cases hmem : name ∈ memTable.map MemTable.name
  · refine Or.inl ⟨hmem, if_pos ?_⟩
    obtain ⟨table, htable, hname⟩ := List.mem_map.mp hmem
    exact List.any_eq_true.mpr ⟨table, htable, decide_eq_true hname⟩
  · refine Or.inr ⟨hmem, if_neg fun hany => hmem ?_⟩
    obtain ⟨table, htable, hname⟩ := List.any_eq_true.mp hany
    exact List.mem_map.mpr ⟨table, htable, of_decide_eq_true hname⟩

theorem mem_names_createTable (name other : Bytes) (memTable : List MemTable) :
    other ∈ (createTable name memTable).map MemTable.name ↔
      other ∈ memTable.map MemTable.name ∨ other = name := by
  rcases createTable_cases name memTable with ⟨hmem, heq⟩ | ⟨-, heq⟩
  · rw [heq]
    constructor
    · exact Or.inl
    · rintro (hother | rfl)
      · exact hother
      · exact hmem
  · rw [heq, List.map_append, List.mem_append, List.map_singleton, List.mem_singleton]

theorem find?_addTkv (name tkv other : Bytes) (memTable : List MemTable) :
    (addTkv name tkv memTable).find? (fun table => table.name = other) =
      (memTable.find? fun table => table.name = other).map fun table =>
        if other = name then { table with tkvs := table.tkvs ++ [tkv] } else table := by
  induction memTable with
  | nil => rfl
  | cons table rest ih =>
    rw [addTkv]
    by_cases hname : table.name = name
    · rw [if_pos hname]
      by_cases hother : table.name = other
      · have heq : other = name := hother.symm.trans hname
        simp [heq, hname]
      · have hne : other ≠ name := fun heq => hother (hname.trans heq.symm)
        simp [hother, hne]
    · rw [if_neg hname]
      by_cases hother : table.name = other
      · have hne : other ≠ name := fun heq => hname (hother.trans heq)
        simp [hother, hne]
      · simp only [List.find?_cons, hother, decide_false, ih]

/-- **The memtable after an insert**, by names. -/
theorem find?_insertTkv (memTable : List MemTable) (name tkv other : Bytes) :
    (addTkv name tkv (createTable name memTable)).find? (fun table => table.name = other) =
      if other = name then
        some ⟨name, ((memTable.find? fun table => table.name = name).map MemTable.tkvs).getD [] ++
          [tkv]⟩
      else memTable.find? fun table => table.name = other := by
  rw [find?_addTkv]
  rcases createTable_cases name memTable with ⟨hmem, heq⟩ | ⟨hnew, heq⟩
  · rw [heq]
    by_cases hother : other = name
    · subst hother
      obtain ⟨table, htable, hname⟩ := List.mem_map.mp hmem
      cases hfound : memTable.find? fun table => table.name = other with
      | none => exact absurd (decide_eq_true hname) (List.find?_eq_none.mp hfound table htable)
      | some found =>
        have hfoundname : found.name = other := by simpa using List.find?_some hfound
        simp [hfoundname]
    · simp [hother]
  · rw [heq, List.find?_append]
    by_cases hother : other = name
    · subst hother
      have hnone : memTable.find? (fun table => table.name = other) = none := by
        rw [List.find?_eq_none]
        exact fun table htable hname =>
          hnew (List.mem_map.mpr ⟨table, htable, of_decide_eq_true hname⟩)
      simp [hnone]
    · simp [hother, Ne.symm hother]

/-- Its records. -/
theorem memRecords_insert {record : Record} (hrecord : convertRecord tkv = some record)
    (memTable : List MemTable) (name other : Bytes) :
    memRecords (addTkv name tkv (createTable name memTable)) other =
      if other = name then some ((memRecords memTable name).getD [] ++ [record])
      else memRecords memTable other := by
  rw [memRecords, find?_insertTkv]
  by_cases hother : other = name
  · rw [if_pos hother, if_pos hother, memRecords]
    cases memTable.find? fun table => table.name = name with
    | none => simp [MemTable.records, hrecord]
    | some table => simp [MemTable.records, hrecord]
  · rw [if_neg hother, if_neg hother, memRecords]

/-- Its names. -/
theorem name_of_mem_insertTkv {table : MemTable}
    (h : table ∈ addTkv name tkv (createTable name memTable)) :
    (∃ old ∈ memTable, old.name = table.name) ∨ table.name = name := by
  have hname := List.mem_map_of_mem (f := MemTable.name) h
  rw [addTkv_names, mem_names_createTable] at hname
  exact hname.imp_left List.mem_map.mp

theorem mem_addTkv {table : MemTable} (h : table ∈ addTkv name tkv memTable) :
    table ∈ memTable ∨ ∃ old ∈ memTable, table = { old with tkvs := old.tkvs ++ [tkv] } := by
  induction memTable with
  | nil => exact absurd h List.not_mem_nil
  | cons first rest ih =>
    rw [addTkv] at h
    split at h
    · rcases List.mem_cons.mp h with rfl | h
      · exact Or.inr ⟨first, List.mem_cons_self, rfl⟩
      · exact Or.inl (List.mem_cons_of_mem _ h)
    · rcases List.mem_cons.mp h with rfl | h
      · exact Or.inl List.mem_cons_self
      · rcases ih h with h | ⟨old, hold, heq⟩
        · exact Or.inl (List.mem_cons_of_mem _ h)
        · exact Or.inr ⟨old, List.mem_cons_of_mem _ hold, heq⟩

variable {config : FsConfig} {fs : Filesystem} {now : Int64} {input : InsertInput}

/-- What an INSERT does. -/
theorem processInsert_cases (config : FsConfig) (now : Int64) (input : InsertInput)
    (fs : Filesystem) : (∃ status, status ≠ 0 ∧ processInsert config now input fs = (status, fs)) ∨
    ((fs.tables.lookup (toUppercase input.tableName.bytes)).isSome ∧
      processInsert config now input fs = (0, { fs with
        memTable := addTkv (toUppercase input.tableName.bytes)
          (convertToTkv (insertedRecord now input))
          (createTable (toUppercase input.tableName.bytes) fs.memTable) })) := by
  rw [processInsert]
  by_cases hexist : existInDirectory fs input.tableName.bytes
  · by_cases hsize : config.maxValueSize < input.value.bytes.length
    · exact Or.inl ⟨-1, by decide, by simp [hexist, hsize]⟩
    · refine Or.inr ⟨hexist, ?_⟩
      simp only [hexist, hsize, if_true, if_false]
      rfl
  · exact Or.inl ⟨-2, by decide, by simp [hexist]⟩

/-- An INSERT is accepted only if its value is not too long. -/
theorem value_length_of_accepted (h : (processInsert config now input fs).1 = 0) :
    input.value.bytes.length ≤ config.maxValueSize := by
  unfold processInsert at h
  dsimp only at h
  split at h
  · split at h
    · exact absurd h (show (-1 : Int32) ≠ 0 by decide)
    · omega
  · exact absurd h (show (-2 : Int32) ≠ 0 by decide)

/-- The invariant does not depend on what else is in the memtable. -/
theorem Valid.setMemTable {memTable : List MemTable} (h : Valid config fs)
    (hupper : ∀ table ∈ memTable, toUppercase table.name = table.name)
    (hnodup : (memTable.map MemTable.name).Nodup)
    (htexts : ∀ table ∈ memTable, table.Texts config) : Valid config { fs with memTable } := by
  have hviews : ∀ name view, Filesystem.view config { fs with memTable } name = some view →
      ∃ old, fs.view config name = some old ∧ view =
      { old with mem := memRecords memTable name } := by
    intro name view hview
    obtain ⟨table, hlookup, rfl⟩ := Option.map_eq_some_iff.mp hview
    exact ⟨_, view_some hlookup, rfl⟩
  refine ⟨⟨h.holds, h.tidy⟩, hupper, hnodup, htexts, fun name view hview => ?_,
    fun name view hview => ?_, fun name view hview => ?_⟩
  all_goals obtain ⟨old, hold, rfl⟩ := hviews name view hview
  · exact h.routed name old hold
  · exact h.partitions_ne name old hold
  · exact h.names name old hold

theorem Valid.createTable (h : Valid config fs) (hname : toUppercase name = name) :
    Valid config { fs with memTable := Lissandra.createTable name fs.memTable } := by
  rcases createTable_cases name fs.memTable with ⟨-, heq⟩ | ⟨hnew, heq⟩
  · rw [heq]
    exact h
  · rw [heq]
    refine h.setMemTable (fun table hmem => ?_) ?_ fun table hmem => ?_
    · rcases List.mem_append.mp hmem with hmem | hmem
      · exact h.upper table hmem
      · obtain rfl := List.mem_singleton.mp hmem
        exact hname
    · rw [List.map_append, List.nodup_append]
      refine ⟨h.nodup, by simp, ?_⟩
      rintro a ha b hb rfl
      have hname : a = name := by simpa using hb
      exact hnew (hname ▸ ha)
    · rcases List.mem_append.mp hmem with hmem | hmem
      · exact h.texts table hmem
      · obtain rfl := List.mem_singleton.mp hmem
        exact ⟨rfl, by simp [MemTable.records]⟩

/-- One more text in memory. -/
theorem MemTable.Texts.append {table : MemTable} {record : Record} (h : table.Texts config)
    (hrecord : Storable config.tkvSize record) :
    ({ table with tkvs := table.tkvs ++ [convertToTkv record] } : MemTable).records =
        table.records ++ [record] ∧
      ({ table with tkvs := table.tkvs ++ [convertToTkv record] } : MemTable).Texts config := by
  obtain ⟨htkvs, hstorable⟩ := h
  refine MemTable.texts_of_eq _ ?_ fun r hmem => ?_
  · rw [List.map_append, List.map_singleton, ← htkvs]
  · rcases List.mem_append.mp hmem with hmem | hmem
    · exact hstorable r hmem
    · exact List.mem_singleton.mp hmem ▸ hrecord

/-- **An accepted INSERT**, as seen in the views. -/
theorem Valid.insert (h : Valid config fs)
    (hrecord : Storable config.tkvSize (insertedRecord now input))
    (hstatus : (processInsert config now input fs).1 = 0) :
    Valid config (processInsert config now input fs).2 ∧
      ∀ name, (processInsert config now input fs).2.view config name =
        (fs.view config name).map fun view =>
          if name = toUppercase input.tableName.bytes then view.insert (insertedRecord now input)
          else view := by
  rcases processInsert_cases config now input fs with ⟨status, hne, heq⟩ | ⟨-, heq⟩
  · rw [heq] at hstatus
    exact absurd hstatus hne
  rw [heq]
  constructor
  · have hcreated := h.createTable (toUppercase_toUppercase input.tableName.bytes)
    refine h.setMemTable (fun table hmem => ?_) ?_ fun table hmem => ?_
    · rcases mem_addTkv hmem with hin | ⟨old, hin, rfl⟩
      · exact hcreated.upper table hin
      · exact hcreated.upper old hin
    · rw [addTkv_names]
      exact hcreated.nodup
    · rcases mem_addTkv hmem with hin | ⟨old, hin, rfl⟩
      · exact hcreated.texts table hin
      · exact ((hcreated.texts old hin).append hrecord).2
  · intro name
    rw [Filesystem.view, Filesystem.view, Option.map_map]
    refine Option.map_congr fun table _ => ?_
    simp only [Function.comp_apply, memRecords_insert (convertRecord_text hrecord)]
    by_cases hname : name = toUppercase input.tableName.bytes
    · subst hname
      simp only [if_true]
      rfl
    · simp only [hname, if_false]

end Insert

/-! ## CREATE and DROP -/

section CreateDrop
variable {config : FsConfig} {fs fs' : Filesystem} {status : Int32}

/-- What a CREATE does. -/
theorem processCreate_cases {input : CreateInput}
    (h : processCreate input fs = some (status, fs')) : (status ≠ 0 ∧ fs' = fs) ∨
    (status = 0 ∧ fs.tables.lookup (toUppercase input.tableName.bytes) = none ∧
      ∃ taken bitmap, Marked fs.storage taken bitmap ∧ taken.length = input.partitions.toInt.toNat ∧
        fs' = { fs with
          storage := { fs.storage with bitmap }
          tables := fs.tables.insert (toUppercase input.tableName.bytes)
            ⟨input.consistency, input.compactionTime, taken.map fun b => ⟨[b], 0⟩, [], none⟩
            }) := by
  rw [processCreate] at h
  split at h
  · exact absurd h (by simp)
  · dsimp only at h
    split at h
    · rename_i hcount
      split at h
      · obtain ⟨rfl, rfl⟩ := Prod.mk.inj (Option.some.inj h)
        exact Or.inl ⟨by decide, rfl⟩
      · rename_i hnew
        obtain ⟨rfl, rfl⟩ := Prod.mk.inj (Option.some.inj h)
        refine Or.inr ⟨rfl, by simpa using hnew, _, _, ?_, hcount, rfl⟩
        rw [assignFreeBlocks]
        split
        · exact marked_takeFreeBlocks _ _
        · exact ⟨by simp, by simp⟩
    · obtain ⟨rfl, rfl⟩ := Prod.mk.inj (Option.some.inj h)
      exact Or.inl ⟨by decide, rfl⟩

/-- **An accepted CREATE**, as seen in the views. -/
theorem Valid.create {input : CreateInput} (h : Valid config fs)
    (hrun : processCreate input fs = some (0, fs'))
    (hpartitions : input.partitions.toInt.toNat ≠ 0) :
    Valid config fs' ∧ fs'.memTable = fs.memTable ∧ fs'.storage.blockSize = fs.storage.blockSize ∧
      ∀ name, fs'.view config name =
        if name = toUppercase input.tableName.bytes then
          some (TableView.created input.partitions.toInt.toNat (memRecords fs.memTable name))
        else fs.view config name := by
  rcases processCreate_cases hrun with ⟨hne, -⟩ | ⟨-, hnew, taken, bitmap, hmarked, hcount, rfl⟩
  · exact absurd rfl hne
  let table : Table :=
    ⟨input.consistency, input.compactionTime, taken.map fun b => ⟨[b], 0⟩, [], none⟩
  obtain ⟨hholds, hdecode⟩ := h.holds.take hmarked
  have howned : table.owned = taken.map ([·]) := by
    simp [table, Table.owned, existingTmps]
  have herase := ownedBy_erase_of_lookup_none hnew
  obtain ⟨hsound, hviews⟩ := h.toSound.setTable (toUppercase input.tableName.bytes) table
    (show Holds config.tkvSize { fs.storage with bitmap } _ by rw [howned, herase]; exact hholds)
    ⟨rfl, fun _ _ => rfl⟩ ⟨⟨0, rfl⟩, rfl⟩
  have hview : ∀ mem, table.decoded config.tkvSize { fs.storage with bitmap } mem =
      TableView.created input.partitions.toInt.toNat mem := by
    intro mem
    rw [Table.decoded, TableView.created]
    congr 1
    rw [List.map_map, List.eq_replicate_iff]
    refine ⟨by rw [List.length_map, hcount], fun records hmem => ?_⟩
    obtain ⟨b, hb, rfl⟩ := List.mem_map.mp hmem
    exact hdecode b hb
  have hviews' : ∀ name, Filesystem.view config { fs with
      storage := { fs.storage with bitmap }
      tables := fs.tables.insert (toUppercase input.tableName.bytes) table } name =
        if name = toUppercase input.tableName.bytes then
          some (TableView.created input.partitions.toInt.toNat (memRecords fs.memTable name))
        else fs.view config name := fun name => by rw [hviews, hview]
  refine ⟨⟨hsound, h.upper, h.nodup, h.texts, fun name view hv => ?_, fun name view hv => ?_,
    fun name view hv => ?_⟩, rfl, rfl, hviews'⟩
  all_goals
    rw [hviews'] at hv
    split at hv
  · obtain rfl := Option.some.inj hv
    exact TableView.routed_created _ _
  · exact h.routed name view hv
  · obtain rfl := Option.some.inj hv
    simpa [TableView.created] using hpartitions
  · exact h.partitions_ne name view hv
  · rename_i hname
    rw [hname, toUppercase_toUppercase]
  · exact h.names name view hv

/-- There is no table, or its archives are freed and it is erased. -/
theorem processDrop_eq_some {input : DropInput} (h : processDrop input fs = some (status, fs')) :
    (status = -1 ∧ fs' = fs ∧ fs.tables.lookup (toUppercase input.tableName.bytes) = none) ∨
    ∃ table storage₁ storage₂, status = 0 ∧
      fs.tables.lookup (toUppercase input.tableName.bytes) = some table ∧
      freePartitions fs.storage table = some storage₁ ∧
      freeBlocksOfAllTmps storage₁ table = some storage₂ ∧
      fs' = { fs with
        storage := storage₂, tables := fs.tables.erase (toUppercase input.tableName.bytes) } := by
  rw [processDrop] at h
  cases hlookup : fs.tables.lookup (toUppercase input.tableName.bytes) with
  | none =>
    rw [hlookup] at h
    obtain ⟨rfl, rfl⟩ := Prod.mk.inj (Option.some.inj h)
    exact .inl ⟨rfl, rfl, rfl⟩
  | some table =>
    rw [hlookup] at h
    obtain ⟨storage₁, hpartitions, h⟩ := Option.bind_eq_some_iff.mp h
    obtain ⟨storage₂, htmps, h⟩ := Option.bind_eq_some_iff.mp h
    obtain ⟨rfl, rfl⟩ := Prod.mk.inj (Option.some.inj h)
    exact .inr ⟨table, storage₁, storage₂, rfl, rfl, hpartitions, htmps, rfl⟩

/-- **A DROP**, as seen in the views. -/
theorem Valid.drop {input : DropInput} (h : Valid config fs)
    (hrun : processDrop input fs = some (status, fs')) :
    Valid config fs' ∧ fs'.memTable = fs.memTable ∧ fs'.storage.blockSize = fs.storage.blockSize ∧
      ∀ name, fs'.view config name =
        if name = toUppercase input.tableName.bytes then none else fs.view config name := by
  rcases processDrop_eq_some hrun with
    ⟨-, rfl, hnone⟩ | ⟨table, freed₁, freed₂, -, hlookup, hfreed₁, hfreed₂, rfl⟩
  · refine ⟨h, rfl, rfl, fun name => ?_⟩
    split
    · rename_i hname
      rw [hname, view_eq_none_iff, hnone]
    · rfl
  · have hholds := h.holds.perm (ownedBy_perm hlookup)
    rw [Table.owned, List.map_append, List.append_assoc] at hholds
    obtain ⟨storage₁, hpartitions, hholds₁, hkeeps₁⟩ := hholds.freeAll
    obtain rfl := Option.some.inj (hpartitions.symm.trans hfreed₁)
    obtain ⟨storage₂, htmps, hholds₂, hkeeps₂⟩ := hholds₁.freeAll
    obtain rfl := Option.some.inj (htmps.symm.trans hfreed₂)
    have hkeeps := (hkeeps₁.subset (List.subset_append_right _ _)).trans hkeeps₂
    have hviews : ∀ name, Filesystem.view config { fs with
        storage := storage₂
        tables := fs.tables.erase (toUppercase input.tableName.bytes) } name =
        if name = toUppercase input.tableName.bytes then none else fs.view config name := by
      intro name
      by_cases hname : name = toUppercase input.tableName.bytes
      · rw [if_pos hname, hname, view_eq_none_iff, AList.lookup_erase]
      · rw [if_neg hname]
        exact view_keeps h.toSound (AList.lookup_erase_ne hname) rfl fun other hother =>
          hkeeps.subset (owned_subset_erase hother hname)
    refine ⟨⟨⟨hholds₂, fun name other hother => ?_⟩, h.upper, h.nodup, h.texts,
      fun name view hv => ?_, fun name view hv => ?_, fun name view hv => ?_⟩,
      rfl, hkeeps.blockSize, hviews⟩
    · by_cases hname : name = toUppercase input.tableName.bytes
      · rw [hname, AList.lookup_erase] at hother
        exact absurd hother (by simp)
      · rw [AList.lookup_erase_ne hname] at hother
        exact h.tidy name other hother
    all_goals
      rw [hviews] at hv
      split at hv
      · exact absurd hv (by simp)
    · exact h.routed name view hv
    · exact h.partitions_ne name view hv
    · exact h.names name view hv

end CreateDrop

end Lissandra
