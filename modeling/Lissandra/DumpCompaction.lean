import Lissandra.TableStorage

/-! # What a dump and a compaction do to the tables

Both are followed on the views: a dump turns the view of every table into
`TableView.dump` of it (`Valid.dump`), a compaction of a table its view into
`TableView.compact` (`Valid.compaction`), as long as neither runs out of blocks.  They end
in any case (`Valid.dump_isSome`, `Valid.compaction_isSome`).
-/
namespace Lissandra

/-! ## What a compaction does -/

section
variable {config : FsConfig} {fs fs' : Filesystem} {name : Bytes} {table : Table} {tmpc : Archive}
  {tmpDestroyFlag : Bool} {storage after : Storage}

theorem createNewPartitions_cons {partition : List Record} {rest : List (List Record)}
    {archives : List Archive}
    (h : createNewPartitions storage (partition :: rest) = some (after, archives)) :
    ∃ storage₁ archive others, createPartition storage partition = some (storage₁, archive) ∧
      createNewPartitions storage₁ rest = some (after, others) ∧ archives = archive :: others := by
  obtain ⟨⟨storage₁, archive⟩, hone, h⟩ := Option.bind_eq_some_iff.mp h
  obtain ⟨⟨storage₂, others⟩, hrest, h⟩ := Option.bind_eq_some_iff.mp h
  obtain ⟨rfl, rfl⟩ := Prod.mk.inj (Option.some.inj h)
  exact ⟨storage₁, archive, others, hone, hrest, rfl⟩

/-- The records are merged, the archives are freed, and the partitions are written. -/
theorem startCompaction_eq_some
    (h : startCompaction config fs name table tmpc tmpDestroyFlag = some fs') :
    ∃ partitionTkvs freed table₁ after archives,
      mergedPartitions config fs.storage table tmpc = some partitionTkvs ∧
      freeArchives fs.storage table tmpDestroyFlag = some (freed, table₁) ∧
      createNewPartitions freed partitionTkvs = some (after, archives) ∧
      fs' = { fs with
        storage := after
        tables := fs.tables.insert name { table₁ with partitions := archives } } := by
  obtain ⟨partitionTkvs, hmerged, h⟩ := Option.bind_eq_some_iff.mp h
  obtain ⟨⟨freed, table₁⟩, hfree, h⟩ := Option.bind_eq_some_iff.mp h
  obtain ⟨⟨after, archives⟩, hcreate, h⟩ := Option.bind_eq_some_iff.mp h
  exact ⟨partitionTkvs, freed, table₁, after, archives, hmerged, hfree, hcreate,
    (Option.some.inj h).symm⟩

/-- There is nothing to compact, or A1.tmpc or the temporary archives are. -/
theorem compaction_eq_some (h : compaction config name fs = some fs') :
    (fs' = fs ∧ ∀ table, fs.tables.lookup name = some table →
      table.tmpc = none ∧ existingTmps table.tmps = []) ∨
    ∃ table tmpc tmpDestroyFlag, fs.tables.lookup name = some table ∧
      startCompaction config fs name table tmpc tmpDestroyFlag = some fs' ∧
      (table.tmpc = some tmpc ∧ tmpDestroyFlag = false ∨
        table.tmpc = none ∧ existingTmps table.tmps ≠ [] ∧
          tmpc = getAllBlocksFromAllTmps table ∧ tmpDestroyFlag = true) := by
  rw [compaction] at h
  cases hlookup : fs.tables.lookup name with
  | none =>
    rw [hlookup] at h
    exact .inl ⟨(Option.some.inj h).symm, nofun⟩
  | some table =>
    rw [hlookup] at h
    cases htmpc : table.tmpc with
    | some tmpc =>
      simp only [htmpc] at h
      exact .inr ⟨table, tmpc, false, rfl, h, .inl ⟨htmpc, rfl⟩⟩
    | none =>
      simp only [htmpc] at h
      split at h
      · rename_i htmps
        refine .inl ⟨(Option.some.inj h).symm, fun other hother => ?_⟩
        obtain rfl := Option.some.inj hother
        exact ⟨htmpc, htmps⟩
      · rename_i htmps
        exact .inr ⟨table, _, true, rfl, h, .inr ⟨htmpc, htmps, rfl, rfl⟩⟩

/-- Without an A1.tmpc only the temporary archives are. -/
theorem compaction_of_noTmpc (h : compaction config name fs = some fs')
    (hnone : ∀ table, fs.tables.lookup name = some table → table.tmpc = none) :
    (fs' = fs ∧ ∀ table, fs.tables.lookup name = some table → existingTmps table.tmps = []) ∨
    ∃ table, fs.tables.lookup name = some table ∧ existingTmps table.tmps ≠ [] ∧
      startCompaction config fs name table (getAllBlocksFromAllTmps table) true = some fs' := by
  rcases compaction_eq_some h with ⟨rfl, hnothing⟩ | ⟨table, tmpc, flag, hlookup, hstart, hcase⟩
  · exact .inl ⟨rfl, fun table hlookup => (hnothing table hlookup).2⟩
  · rcases hcase with ⟨hleft, -⟩ | ⟨-, htmps, rfl, rfl⟩
    · cases hleft.symm.trans (hnone table hlookup)
    · exact .inr ⟨table, hlookup, htmps, hstart⟩

end

/-! ## Writing one archive -/

section
variable {tkvSize : Nat} {storage after : Storage} {owned : List (List Nat)} {archive : Archive}
  {records : List Record}

theorem dumpTable_total (hsize : 2 ≤ storage.blockSize) (records : List Record) :
    ∃ after archive, dumpTable storage (records.map convertToTkv) = some (after, archive) ∧
      after.blockSize = storage.blockSize := by
  obtain ⟨after, blocks, hrun, hafter, -, -⟩ := writeTkvs_total hsize records
  exact ⟨after, _, by rw [dumpTable, hrun]; rfl, hafter⟩

theorem Holds.dumpTable (h : Holds tkvSize storage owned)
    (hrun : Lissandra.dumpTable storage (records.map convertToTkv) = some (after, archive))
    (hzero : 0 ∉ archive.blocks) (hrecords : ∀ record ∈ records, Storable tkvSize record) :
    Holds tkvSize after (archive.blocks :: owned) ∧ Keeps storage after owned ∧
      decode tkvSize after archive.blocks = records := by
  rw [Lissandra.dumpTable] at hrun
  obtain ⟨⟨after', blocks⟩, hwrite, heq⟩ := Option.bind_eq_some_iff.mp hrun
  obtain ⟨rfl, rfl⟩ := Prod.mk.inj (Option.some.inj heq)
  exact h.write hwrite hzero hrecords

end

/-! ## The memtable -/

/-- The texts in memory are those of storable records. -/
structure MemTable.Texts (config : FsConfig) (table : MemTable) : Prop where
  tkvs_eq : table.tkvs = table.records.map convertToTkv
  storable : ∀ record ∈ table.records, Storable config.tkvSize record

theorem MemTable.texts_of_eq {config : FsConfig} {table : MemTable} (records : List Record)
    (htkvs : table.tkvs = records.map convertToTkv)
    (hrecords : ∀ record ∈ records, Storable config.tkvSize record) :
    table.records = records ∧ table.Texts config := by
  have heq : table.records = records := by
    rw [MemTable.records, htkvs]
    clear htkvs
    induction records with
    | nil => rfl
    | cons record records ih =>
      rw [List.map_cons, List.filterMap_cons_some
        (convertRecord_text (hrecords _ List.mem_cons_self)), ih fun r hr =>
        hrecords r (List.mem_cons_of_mem _ hr)]
  exact ⟨heq, ⟨by rw [heq, htkvs], by rw [heq]; exact hrecords⟩⟩

/-- The invariant of the process between two requests: on top of the storage, `mem_table`
has one element for each name, and every table has partitions, which keep one record for
each of their keys. -/
structure Valid (config : FsConfig) (fs : Filesystem) : Prop extends Sound config fs where
  upper : ∀ table ∈ fs.memTable, toUppercase table.name = table.name
  nodup : (fs.memTable.map MemTable.name).Nodup
  texts : ∀ table ∈ fs.memTable, table.Texts config
  routed : ∀ name view, fs.view config name = some view → view.Routed
  partitions_ne : ∀ name view, fs.view config name = some view → view.partitions ≠ []
  names : ∀ name view, fs.view config name = some view → toUppercase name = name

theorem Valid.table_partitions_ne {config : FsConfig} {fs : Filesystem} (h : Valid config fs)
    {name : Bytes} {table : Table} (hlookup : fs.tables.lookup name = some table) :
    table.partitions ≠ [] := by
  have hne := h.partitions_ne name _ (view_some hlookup)
  rintro hnil
  exact hne (by rw [Table.decoded, hnil, List.map_nil])

/-! ## Dump -/

section Dump
variable {config : FsConfig} {fs fs' : Filesystem} {table : MemTable} {rest : List MemTable}

/-- What one turn of the loop does. -/
theorem dumpOne_cases (h : dumpOne fs table = some fs') :
    ∃ storage archive directory, dumpTable fs.storage table.tkvs = some (storage, archive) ∧
      fs.tables.lookup (toUppercase table.name) = some directory ∧
      fs' = { fs with
        storage
        tables := fs.tables.insert (toUppercase table.name)
          { directory with tmps := addTmp archive directory.tmps } } := by
  rw [dumpOne] at h
  obtain ⟨⟨storage, archive⟩, hdump, h⟩ := Option.bind_eq_some_iff.mp h
  obtain ⟨directory, hlookup, h⟩ := Option.bind_eq_some_iff.mp h
  exact ⟨storage, archive, directory, hdump, hlookup, (Option.some.inj h).symm⟩

theorem dumpOne_isSome (hsize : 2 ≤ fs.storage.blockSize) (htexts : table.Texts config)
    (hlookup : (fs.tables.lookup (toUppercase table.name)).isSome) :
    ∃ fs', dumpOne fs table = some fs' ∧ fs'.storage.blockSize = fs.storage.blockSize ∧
      ∀ name, (fs.tables.lookup name).isSome → (fs'.tables.lookup name).isSome := by
  obtain ⟨directory, hdirectory⟩ := Option.isSome_iff_exists.mp hlookup
  obtain ⟨after, archive, hdump, hafter⟩ := dumpTable_total hsize table.records
  rw [← htexts.tkvs_eq] at hdump
  refine ⟨_, by rw [dumpOne, hdump, hdirectory]; rfl, hafter, fun name hname => ?_⟩
  rw [AList.lookup_isSome] at hname ⊢
  exact (AList.mem_insert _).mpr (Or.inr hname)

theorem dumpOne_owned (h : dumpOne fs table = some fs') :
    ownedBy fs.tables ⊆ ownedBy fs'.tables := by
  obtain ⟨storage, archive, directory, -, hlookup, rfl⟩ := dumpOne_cases h
  intro blocks hmem
  have hsplit := (ownedBy_perm hlookup).mem_iff.mp hmem
  change blocks ∈ ownedBy (fs.tables.insert _ _)
  rw [ownedBy_insert]
  rcases List.mem_append.mp hsplit with hmem | hmem
  · refine List.mem_append_left _ (List.map_subset _ ?_ hmem)
    exact List.append_subset.mpr ⟨List.subset_append_left _ _,
      List.Subset.trans (existingTmps_subset_addTmp archive directory.tmps)
        (List.subset_append_right _ _)⟩
  · exact List.mem_append_right _ hmem

theorem foldlM_dumpOne_owned (h : rest.foldlM dumpOne fs = some fs') :
    ownedBy fs.tables ⊆ ownedBy fs'.tables := by
  induction rest generalizing fs with
  | nil =>
    obtain rfl := Option.some.inj h
    exact List.Subset.refl _
  | cons table rest ih =>
    rw [List.foldlM_cons] at h
    obtain ⟨fs₁, hone, hrest⟩ := Option.bind_eq_some_iff.mp h
    exact List.Subset.trans (dumpOne_owned hone) (ih hrest)

theorem Filesystem.Allocated.of_subset (h : fs'.Allocated)
    (hsub : ownedBy fs.tables ⊆ ownedBy fs'.tables) : fs.Allocated := by
  intro hzero
  obtain ⟨blocks, hmem, hzero⟩ := List.mem_flatten.mp hzero
  exact h (List.mem_flatten.mpr ⟨blocks, hsub hmem, hzero⟩)

/-- **One table of the memtable.** -/
theorem Sound.dumpOne (h : Sound config fs) (hrun : Lissandra.dumpOne fs table = some fs')
    (halloc : fs'.Allocated) (htexts : table.Texts config) :
    Sound config fs' ∧ fs'.memTable = fs.memTable ∧ fs'.storage.blockSize = fs.storage.blockSize ∧
      ∀ other, fs'.view config other = (fs.view config other).map fun view =>
        if other = toUppercase table.name then { view with tmps := view.tmps ++ [table.records] }
        else view := by
  obtain ⟨storage, archive, directory, hdump, hlookup, rfl⟩ := dumpOne_cases hrun
  have htidy := h.tidy _ _ hlookup
  obtain ⟨hgap, htmps⟩ := htidy.noGap.addTmp archive
  let directory' : Table := { directory with tmps := addTmp archive directory.tmps }
  have howned : directory'.owned = directory.owned ++ [archive.blocks] := by
    simp only [directory', Table.owned, htmps, List.map_append, List.append_assoc, List.map_cons,
      List.map_nil]
  have hzero : 0 ∉ archive.blocks := by
    intro hmem
    refine halloc (List.mem_flatten.mpr ⟨archive.blocks, ?_, hmem⟩)
    change archive.blocks ∈ ownedBy (fs.tables.insert _ directory')
    rw [ownedBy_insert, howned]
    simp
  rw [htexts.tkvs_eq] at hdump
  obtain ⟨hholds, hkeeps, hdecode⟩ := h.holds.dumpTable hdump hzero htexts.storable
  have hperm : (archive.blocks :: ownedBy fs.tables).Perm
      (directory'.owned ++ ownedBy (fs.tables.erase (toUppercase table.name))) := by
    rw [howned, List.append_assoc]
    exact ((ownedBy_perm hlookup).cons _).trans List.perm_middle.symm
  obtain ⟨hsound, hviews⟩ := h.setTable (toUppercase table.name) directory' (hholds.perm hperm)
    (hkeeps.subset (erase_subset _ _)) ⟨hgap, htidy.noTmpc⟩
  refine ⟨hsound, rfl, hkeeps.blockSize, fun other => ?_⟩
  rw [hviews]
  by_cases hname : other = toUppercase table.name
  · subst hname
    rw [if_pos rfl, view_some hlookup, Option.map_some, if_pos rfl]
    have hold := Table.decoded_keeps (memRecords fs.memTable (toUppercase table.name))
      (hkeeps.subset (owned_subset hlookup))
      fun blocks hblocks => h.holds.intact blocks (owned_subset hlookup hblocks)
    rw [← hold]
    simp only [Table.decoded, directory', htmps, List.map_append, List.map_cons, List.map_nil,
      hdecode]
  · simp [hname]

/-- The loop over the memtable. -/
theorem Sound.foldlM_dumpOne (h : Sound config fs)
    (hrun : rest.foldlM Lissandra.dumpOne fs = some fs') (halloc : fs'.Allocated)
    (htexts : ∀ table ∈ rest, table.Texts config)
    (hupper : ∀ table ∈ rest, toUppercase table.name = table.name) :
    Sound config fs' ∧ fs'.memTable = fs.memTable ∧ fs'.storage.blockSize = fs.storage.blockSize ∧
      ∀ other, fs'.view config other = (fs.view config other).map fun view =>
        { view with
          tmps := view.tmps ++ (rest.filter fun table => table.name = other).map MemTable.records
            } := by
  induction rest generalizing fs with
  | nil =>
    obtain rfl := Option.some.inj hrun
    exact ⟨h, rfl, rfl, fun other => by simp⟩
  | cons table rest ih =>
    rw [List.foldlM_cons] at hrun
    obtain ⟨fs₁, hone, hrest⟩ := Option.bind_eq_some_iff.mp hrun
    obtain ⟨hsound, hmem, hsize, hviews⟩ := h.dumpOne hone
      (halloc.of_subset (foldlM_dumpOne_owned hrest)) (htexts table List.mem_cons_self)
    obtain ⟨hsound', hmem', hsize', hviews'⟩ := ih hsound hrest
      (fun t ht => htexts t (List.mem_cons_of_mem _ ht))
      fun t ht => hupper t (List.mem_cons_of_mem _ ht)
    refine ⟨hsound', hmem'.trans hmem, hsize'.trans hsize, fun other => ?_⟩
    rw [hviews', hviews, Option.map_map, hupper table List.mem_cons_self]
    congr 1
    funext view
    by_cases hname : table.name = other
    · simp [hname]
    · simp [hname, Ne.symm hname]

/-- Names are unique, so what is filtered is what is found. -/
theorem filter_name (hnodup : (rest.map MemTable.name).Nodup) (name : Bytes) :
    (rest.filter fun table => table.name = name) =
      (rest.find? fun table => table.name = name).toList :=
  UniqueKeys.entriesOf_eq hnodup name

/-- **A dump**, as seen in the views. -/
theorem Valid.dump (h : Valid config fs) (hrun : Lissandra.dump fs = some fs')
    (halloc : fs'.Allocated) :
    Valid config fs' ∧ fs'.memTable = [] ∧ fs'.storage.blockSize = fs.storage.blockSize ∧
      ∀ name, fs'.view config name = (fs.view config name).map TableView.dump := by
  obtain ⟨fs₁, hfold, rfl⟩ := Option.map_eq_some_iff.mp hrun
  obtain ⟨hsound, hmem, hsize, hviews⟩ := h.toSound.foldlM_dumpOne hfold halloc h.texts h.upper
  have hviews' : ∀ name,
      (freeMemtable fs₁).view config name = (fs.view config name).map TableView.dump := by
    intro name
    have hclear : (freeMemtable fs₁).view config name =
        (fs₁.view config name).map fun view => { view with mem := none } := by
      rw [Filesystem.view, Filesystem.view, Option.map_map]
      rfl
    rw [hclear, hviews, Option.map_map, filter_name h.nodup]
    cases hlookup : fs.tables.lookup name with
    | none => rw [view_eq_none_iff.mpr hlookup]; rfl
    | some directory =>
      rw [view_some hlookup, Option.map_some, Option.map_some, TableView.dump, Table.decoded]
      simp [memRecords, Option.toList_map]
  refine ⟨⟨⟨hsound.holds, hsound.tidy⟩, by simp [freeMemtable], by simp [freeMemtable],
    by simp [freeMemtable], fun name view hview => ?_, fun name view hview => ?_,
    fun name view hview => ?_⟩, rfl, hsize, hviews'⟩
  all_goals
    rw [hviews'] at hview
    obtain ⟨old, hold, rfl⟩ := Option.map_eq_some_iff.mp hview
  · exact h.routed name old hold
  · exact h.partitions_ne name old hold
  · exact h.names name old hold

/-- A turn of the loop keeps the invariant too. -/
theorem Valid.dumpOne (h : Valid config fs) (hmem : table ∈ fs.memTable)
    (hrun : Lissandra.dumpOne fs table = some fs') (halloc : fs'.Allocated) :
    Valid config fs' ∧ fs'.memTable = fs.memTable ∧
      ∀ name, fs'.view config name = (fs.view config name).map fun view =>
        if name = table.name then { view with tmps := view.tmps ++ [table.records] } else view := by
  obtain ⟨hsound, hsame, -, hviews⟩ := h.toSound.dumpOne hrun halloc (h.texts table hmem)
  rw [h.upper table hmem] at hviews
  have hold : ∀ name view, fs'.view config name = some view → ∃ old,
    fs.view config name = some old ∧
      view.partitions = old.partitions := by
    intro name view hview
    rw [hviews] at hview
    obtain ⟨old, hold, rfl⟩ := Option.map_eq_some_iff.mp hview
    exact ⟨old, hold, by split <;> rfl⟩
  refine ⟨⟨hsound, hsame ▸ h.upper, hsame ▸ h.nodup, hsame ▸ h.texts, fun name view hview => ?_,
    fun name view hview => ?_, fun name view hview => ?_⟩, hsame, hviews⟩
  all_goals obtain ⟨old, hold, heq⟩ := hold name view hview
  · have hrouted := h.routed name old hold
    rwa [TableView.Routed, ← heq] at hrouted
  · exact heq ▸ h.partitions_ne name old hold
  · exact h.names name old hold

/-- A dump ends when every table in memory still has its directory. -/
theorem Valid.dump_isSome (h : Valid config fs)
    (hdirectories : ∀ table ∈ fs.memTable, (fs.tables.lookup table.name).isSome) :
    (Lissandra.dump fs).isSome := by
  have hloop : ∀ (rest : List MemTable) (fs : Filesystem), 2 ≤ fs.storage.blockSize →
      (∀ table ∈ rest, table.Texts config ∧ toUppercase table.name = table.name ∧
        (fs.tables.lookup table.name).isSome) → (rest.foldlM Lissandra.dumpOne fs).isSome := by
    intro rest
    induction rest with
    | nil => exact fun _ _ _ => rfl
    | cons table rest ih =>
      intro fs hsize hrest
      obtain ⟨htexts, hupper, hlookup⟩ := hrest table List.mem_cons_self
      obtain ⟨fs₁, hone, hblock, hkeys⟩ := dumpOne_isSome hsize htexts (by rwa [hupper])
      rw [List.foldlM_cons, hone]
      refine ih fs₁ (by rwa [hblock]) fun t ht => ?_
      obtain ⟨ht₁, ht₂, ht₃⟩ := hrest t (List.mem_cons_of_mem _ ht)
      exact ⟨ht₁, ht₂, hkeys _ ht₃⟩
  rw [Lissandra.dump, Option.isSome_map]
  exact hloop fs.memTable fs h.holds.size fun table htable =>
    ⟨h.texts table htable, h.upper table htable, hdirectories table htable⟩

end Dump

/-! ## Compaction -/

theorem addRecordToPartitionList_eq (partition : List Record) (record : Record) :
    addRecordToPartitionList partition record = upsert Record.key time partition record := by
  rw [addRecordToPartitionList, upsert]
  cases partition.find? fun r => r.key = record.key with
  | none => rfl
  | some old =>
    dsimp only
    by_cases hlt : time old < time record
    · rw [if_pos hlt, if_pos (Int64.lt_iff_toInt_lt.mpr hlt)]
    · rw [if_neg hlt, if_neg fun h => hlt (Int64.lt_iff_toInt_lt.mp h)]

theorem getTkvsToInsert_eq (tmpcTkvs : List Record) {partitionTkvs : List (List Record)}
    (hne : partitionTkvs ≠ []) :
    getTkvsToInsert tmpcTkvs partitionTkvs =
      some (distribute Record.key time (TableView.route partitionTkvs.length) tmpcTkvs
        partitionTkvs) := by
  rw [getTkvsToInsert, distribute]
  have hpos := List.length_pos_iff.mpr hne
  induction tmpcTkvs generalizing partitionTkvs with
  | nil => rfl
  | cons record tmpcTkvs ih =>
    let next := partitionTkvs.modify (TableView.route partitionTkvs.length record.key)
      fun partition =>
      upsert Record.key time partition record
    have hlen : next.length = partitionTkvs.length := List.length_modify ..
    have hturn := @ih next (List.length_pos_iff.mp (hlen ▸ hpos)) (hlen ▸ hpos)
    rw [hlen] at hturn
    have hstep : (partitionTkvs.modify (record.key.toNat % partitionTkvs.length) fun partition =>
        addRecordToPartitionList partition record) = next := by
      simp only [next, addRecordToPartitionList_eq]
      rfl
    rw [List.foldlM_cons, List.foldl_cons, if_neg hne, hstep]
    exact hturn

section Compaction
variable {config : FsConfig} {storage after : Storage} {owned : List (List Nat)} {table : Table}
  {fs fs' : Filesystem} {name : Bytes}

theorem createPartitionTkvList_eq
    (h : ∀ blocks ∈ table.owned, Intact config.tkvSize storage blocks) :
    createPartitionTkvList config storage table =
      some (table.partitions.map fun archive => decode config.tkvSize storage archive.blocks) :=
  mapM_createTkvList fun archive hmem =>
    h archive.blocks (List.mem_map_of_mem (List.mem_append_left _ hmem))

/-- The records that the new partitions get. -/
theorem mergedPartitions_eq (h : ∀ blocks ∈ table.owned, Intact config.tkvSize storage blocks)
    (hne : table.partitions ≠ []) (mem : Option (List Record)) :
    mergedPartitions config storage table (getAllBlocksFromAllTmps table) =
      some (table.decoded config.tkvSize storage mem).compact.partitions := by
  have htmps : ∀ blocks ∈ (existingTmps table.tmps).map Archive.blocks,
      Intact config.tkvSize storage blocks := fun blocks hmem =>
    h blocks (List.map_subset _ (List.subset_append_right _ _) hmem)
  have htmpc : createTkvList config.tkvSize storage.block (getAllBlocksFromAllTmps table).blocks =
      some (table.decoded config.tkvSize storage mem).tmps.flatten := by
    rw [getAllBlocksFromAllTmps, List.flatMap_def, createTkvList_flatten htmps, List.flatMap_map,
      Table.decoded, ← List.flatMap_def]
  rw [mergedPartitions, htmpc, createPartitionTkvList_eq h]
  simp only [Option.bind_eq_bind, Option.bind_some]
  rw [getTkvsToInsert_eq _ (by simpa using hne)]
  rfl

/-- Every record of a merged partition was in the partitions or in the dumps. -/
theorem storable_compact (h : ∀ blocks ∈ table.owned, Intact config.tkvSize storage blocks)
    (mem : Option (List Record)) :
    ∀ partition ∈ (table.decoded config.tkvSize storage mem).compact.partitions,
      ∀ record ∈ partition, Storable config.tkvSize record := by
  have harchives : ∀ archive ∈ table.partitions ++ existingTmps table.tmps,
      ∀ record ∈ decode config.tkvSize storage archive.blocks, Storable config.tkvSize record :=
    fun archive hmem => (h _ (List.mem_map_of_mem hmem)).decode_eq.2.2
  intro partition hpartition record hrecord
  rcases mem_distribute hpartition hrecord with ⟨old, hold, hmem⟩ | hmem
  · obtain ⟨archive, harchive, rfl⟩ := List.mem_map.mp hold
    exact harchives archive (List.mem_append_left _ harchive) record hmem
  · obtain ⟨tmp, htmp, hmem⟩ := List.mem_flatten.mp hmem
    obtain ⟨archive, harchive, rfl⟩ := List.mem_map.mp htmp
    exact harchives archive (List.mem_append_right _ harchive) record hmem

/-- The blocks of a table are freed. -/
theorem freeArchives_eq (h : Holds config.tkvSize storage (table.owned ++ owned)) :
    ∃ after, freeArchives storage table true =
        some (after, { table with tmps := destroyAllTmps table.tmps, tmpc := none }) ∧
      Holds config.tkvSize after owned ∧ Keeps storage after owned := by
  rw [Table.owned, List.map_append, List.append_assoc] at h
  obtain ⟨storage₁, hpartitions, hholds₁, hkeeps₁⟩ := h.freeAll
  obtain ⟨storage₂, htmps, hholds₂, hkeeps₂⟩ := hholds₁.freeAll
  refine ⟨storage₂, ?_, hholds₂, (hkeeps₁.subset (List.subset_append_right _ _)).trans hkeeps₂⟩
  rw [freeArchives, freePartitions, hpartitions]
  simp only [Option.bind_eq_bind, Option.bind_some, if_true, freeBlocksOfAllTmps, htmps]

theorem createNewPartitions_total (hsize : 2 ≤ storage.blockSize)
    (partitionTkvs : List (List Record)) :
    ∃ after archives, createNewPartitions storage partitionTkvs = some (after, archives) := by
  induction partitionTkvs generalizing storage with
  | nil => exact ⟨storage, [], rfl⟩
  | cons partition rest ih =>
    obtain ⟨storage₁, archive, hone, hblock⟩ := dumpTable_total hsize partition
    obtain ⟨after, archives, hrest⟩ := ih (hblock ▸ hsize)
    refine ⟨after, archive :: archives, ?_⟩
    rw [createNewPartitions, createPartition, hone]
    simp only [Option.bind_eq_bind, Option.bind_some, hrest]

/-- The new partitions. -/
theorem Holds.createNewPartitions {archives : List Archive} {partitionTkvs : List (List Record)}
    (h : Holds config.tkvSize storage owned)
    (hrun : Lissandra.createNewPartitions storage partitionTkvs = some (after, archives))
    (hzero : ∀ archive ∈ archives, 0 ∉ archive.blocks)
    (hrecords : ∀ partition ∈ partitionTkvs, ∀ record ∈ partition, Storable config.tkvSize record) :
    Holds config.tkvSize after (archives.map Archive.blocks ++ owned) ∧ Keeps storage after owned ∧
      (archives.map fun archive => decode config.tkvSize after archive.blocks) = partitionTkvs := by
  induction partitionTkvs generalizing storage archives owned with
  | nil =>
    obtain ⟨rfl, rfl⟩ := Prod.mk.inj (Option.some.inj hrun)
    exact ⟨h, Keeps.refl _ _, rfl⟩
  | cons partition rest ih =>
    obtain ⟨storage₁, archive, archives', hone, hrest, rfl⟩ := createNewPartitions_cons hrun
    obtain ⟨hholds₁, hkeeps₁, hdecode₁⟩ := h.dumpTable hone (hzero archive List.mem_cons_self)
      (hrecords partition List.mem_cons_self)
    obtain ⟨hholds₂, hkeeps₂, hdecode₂⟩ := ih hholds₁ hrest
      (fun a ha => hzero a (List.mem_cons_of_mem _ ha))
      fun p hp => hrecords p (List.mem_cons_of_mem _ hp)
    refine ⟨hholds₂.perm List.perm_middle,
      hkeeps₁.trans (hkeeps₂.subset (List.subset_cons_self _ _)), ?_⟩
    rw [List.map_cons, hkeeps₂.decode_eq List.mem_cons_self (hholds₁.intact _ List.mem_cons_self),
      hdecode₁, hdecode₂]

/-- **A compaction of the dumps**, as seen in the views. -/
theorem Sound.startCompaction (h : Sound config fs) (hlookup : fs.tables.lookup name = some table)
    (hne : table.partitions ≠ [])
    (hrun : Lissandra.startCompaction config fs name table (getAllBlocksFromAllTmps table) true =
      some fs')
    (halloc : fs'.Allocated) :
    Sound config fs' ∧ fs'.memTable = fs.memTable ∧ fs'.storage.blockSize = fs.storage.blockSize ∧
      ∀ other, fs'.view config other = (fs.view config other).map fun view =>
        if other = name then view.compact else view := by
  have hintact : ∀ blocks ∈ table.owned, Intact config.tkvSize fs.storage blocks :=
    fun blocks hmem =>
    h.holds.intact blocks (owned_subset hlookup hmem)
  have hholds := h.holds.perm (ownedBy_perm hlookup)
  obtain ⟨storage₁, hfree, hholds₁, hkeeps₁⟩ := freeArchives_eq hholds
  rw [Lissandra.startCompaction, mergedPartitions_eq hintact hne none] at hrun
  simp only [Option.bind_eq_bind, Option.bind_some, hfree] at hrun
  obtain ⟨⟨storage₂, archives⟩, hcreate, hrun⟩ := Option.bind_eq_some_iff.mp hrun
  obtain rfl := Option.some.inj hrun
  obtain ⟨hgap, htmps⟩ := (h.tidy _ _ hlookup).noGap.destroyAllTmps
  let table' : Table :=
    { table with partitions := archives, tmps := destroyAllTmps table.tmps, tmpc := none }
  have howned : table'.owned = archives.map Archive.blocks := by
    simp only [table', Table.owned, htmps, List.append_nil]
  have hzero : ∀ archive ∈ archives, 0 ∉ archive.blocks := by
    intro archive hmem hz
    refine halloc (List.mem_flatten.mpr ⟨archive.blocks, ?_, hz⟩)
    change archive.blocks ∈ ownedBy (fs.tables.insert name table')
    rw [ownedBy_insert, howned]
    exact List.mem_append_left _ (List.mem_map_of_mem hmem)
  obtain ⟨hholds₂, hkeeps₂, hdecode⟩ :=
    hholds₁.createNewPartitions hcreate hzero (storable_compact hintact none)
  obtain ⟨hsound, hviews⟩ := h.setTable name table' (howned ▸ hholds₂)
    (hkeeps₁.trans hkeeps₂) ⟨hgap, rfl⟩
  refine ⟨hsound, rfl, (hkeeps₁.trans hkeeps₂).blockSize, fun other => ?_⟩
  rw [hviews]
  by_cases hname : other = name
  · subst hname
    rw [if_pos rfl, view_some hlookup, Option.map_some, if_pos rfl, Table.decoded, hdecode]
    simp only [table', htmps, List.map_nil]
    rfl
  · simp [hname]

theorem TableView.compact_of_tmps_nil {view : TableView} (h : view.tmps = []) :
    view.compact = view := by
  obtain ⟨partitions, tmps, mem⟩ := view
  obtain rfl : tmps = [] := h
  rfl

theorem Sound.compaction (h : Sound config fs)
    (hne : ∀ table, fs.tables.lookup name = some table → table.partitions ≠ [])
    (hrun : Lissandra.compaction config name fs = some fs') (halloc : fs'.Allocated) :
    Sound config fs' ∧ fs'.memTable = fs.memTable ∧ fs'.storage.blockSize = fs.storage.blockSize ∧
      ∀ other, fs'.view config other = (fs.view config other).map fun view =>
        if other = name then view.compact else view := by
  rcases compaction_of_noTmpc hrun fun table hlookup => (h.tidy _ _ hlookup).noTmpc with
    ⟨rfl, htmps⟩ | ⟨table, hlookup, -, hstart⟩
  · refine ⟨h, rfl, rfl, fun other => ?_⟩
    by_cases hname : other = name
    · subst hname
      cases hlookup : fs'.tables.lookup other with
      | none =>
        rw [view_eq_none_iff.mpr hlookup]
        rfl
      | some table =>
        rw [view_some hlookup, Option.map_some, if_pos rfl, TableView.compact_of_tmps_nil]
        simp [Table.decoded, htmps table hlookup]
    · simp [hname]
  · exact h.startCompaction hlookup (hne table hlookup) hstart halloc

/-- **A compaction**, as seen in the views. -/
theorem Valid.compaction (h : Valid config fs)
    (hrun : Lissandra.compaction config name fs = some fs') (halloc : fs'.Allocated) :
    Valid config fs' ∧ fs'.memTable = fs.memTable ∧ fs'.storage.blockSize = fs.storage.blockSize ∧
      ∀ other, fs'.view config other = (fs.view config other).map fun view =>
        if other = name then view.compact else view := by
  obtain ⟨hsound, hmem, hsize, hviews⟩ :=
    h.toSound.compaction (fun _ hlookup => h.table_partitions_ne hlookup) hrun halloc
  refine ⟨⟨hsound, hmem ▸ h.upper, hmem ▸ h.nodup, hmem ▸ h.texts, fun other view hview => ?_,
    fun other view hview => ?_, fun other view hview => ?_⟩, hmem, hsize, hviews⟩
  all_goals
    rw [hviews] at hview
    obtain ⟨old, hold, rfl⟩ := Option.map_eq_some_iff.mp hview
  · split
    · exact (h.routed other old hold).compact
    · exact h.routed other old hold
  · split
    · rw [← List.length_pos_iff, TableView.length_compact, List.length_pos_iff]
      exact h.partitions_ne other old hold
    · exact h.partitions_ne other old hold
  · exact h.names other old hold

/-- A compaction ends. -/
theorem Valid.compaction_isSome (h : Valid config fs) (name : Bytes) :
    (Lissandra.compaction config name fs).isSome := by
  rw [Lissandra.compaction]
  cases hlookup : fs.tables.lookup name with
  | none => rfl
  | some table =>
    simp only [(h.tidy _ _ hlookup).noTmpc]
    split
    · rfl
    · have hintact : ∀ blocks ∈ table.owned, Intact config.tkvSize fs.storage blocks :=
        fun blocks hmem => h.holds.intact blocks (owned_subset hlookup hmem)
      obtain ⟨storage₁, hfree, hholds₁, -⟩ := freeArchives_eq (h.holds.perm (ownedBy_perm hlookup))
      obtain ⟨after, archives, hcreate⟩ := createNewPartitions_total hholds₁.size
        (table.decoded config.tkvSize fs.storage none).compact.partitions
      rw [Lissandra.startCompaction, mergedPartitions_eq hintact (h.table_partitions_ne hlookup)
        none]
      simp only [Option.bind_eq_bind, Option.bind_some, hfree, hcreate]
      rfl

end Compaction

end Lissandra
