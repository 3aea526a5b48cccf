import Lissandra.Requests

/-! # Runs of the filesystem process

Requests, dumps and compactions, one after the other.  As long as no block runs out, every
state of a run is `Valid` (`valid_of_reachable`), so whatever holds of the views holds of
what the decoders read: dumps and compactions keep the record stored for every key
(`dump_compaction_storedRecord`).
-/
namespace Lissandra

/-! ## Operations -/

/-- One request or one turn of a background thread. -/
inductive Op where
  | insert (now : Int64) (input : InsertInput)
  | create (input : CreateInput)
  | drop (input : DropInput)
  | dump
  | compaction (name : Bytes)

/-- An operation executed alone. -/
def Op.run (config : FsConfig) (fs : Filesystem) : Op → Option Filesystem
  | .insert now input => some (processInsert config now input fs).2
  | .create input => (processCreate input fs).map Prod.snd
  | .drop input => (processDrop input fs).map Prod.snd
  | .dump => Lissandra.dump fs
  | .compaction name => Lissandra.compaction config name fs

/-- Inserted records are storable and tables have partitions. -/
def Op.Sane (config : FsConfig) : Op → Prop
  | .insert now input => Storable config.tkvSize (insertedRecord now input)
  | .create input => input.partitions ≠ 0
  | _ => True

/-- Everything but DROP. -/
def Op.Keeps : Op → Prop
  | .drop _ => False
  | _ => True

/-- The states of the runs of sane operations that `allowed` lets through, on a formatted
filesystem that never runs out of blocks. -/
inductive Reachable (config : FsConfig) (blockSize blocks : Nat) (allowed : Op → Prop) :
    Filesystem → Prop
  | formatted : Reachable config blockSize blocks allowed (Filesystem.formatted blockSize blocks)
  | step {fs fs' : Filesystem} (op : Op) (reachable : Reachable config blockSize blocks allowed fs)
      (permitted : allowed op) (sane : op.Sane config) (run : op.run config fs = some fs')
      (allocated : fs'.Allocated) : Reachable config blockSize blocks allowed fs'

instance (config : FsConfig) : DecidablePred (Op.Sane config)
  | .insert now input => inferInstanceAs (Decidable (Storable _ (insertedRecord now input)))
  | .create input => inferInstanceAs (Decidable (input.partitions ≠ 0))
  | .drop _ | .dump | .compaction _ => isTrue trivial

instance : DecidablePred Op.Keeps
  | .drop _ => isFalse id
  | .insert _ _ | .create _ | .dump | .compaction _ => isTrue trivial

/-- Several operations, as long as there are enough free blocks. -/
def runOps (config : FsConfig) (fs : Filesystem) (ops : List Op) : Option Filesystem :=
  ops.foldlM (fun fs op => (op.run config fs).filter fun fs => fs.Allocated) fs

theorem reachable_runOps {config : FsConfig} {blockSize blocks : Nat} {allowed : Op → Prop}
    {fs fs' : Filesystem} {ops : List Op} (h : Reachable config blockSize blocks allowed fs)
    (hops : ∀ op ∈ ops, allowed op ∧ op.Sane config) (hrun : runOps config fs ops = some fs') :
    Reachable config blockSize blocks allowed fs' := by
  induction ops generalizing fs with
  | nil =>
    obtain rfl := Option.some.inj hrun
    exact h
  | cons op ops ih =>
    rw [runOps, List.foldlM_cons] at hrun
    obtain ⟨fs₁, hone, hrest⟩ := Option.bind_eq_some_iff.mp hrun
    obtain ⟨hone, halloc⟩ := Option.filter_eq_some_iff.mp hone
    obtain ⟨hallowed, hsane⟩ := hops op List.mem_cons_self
    exact ih (h.step op hallowed hsane hone (of_decide_eq_true halloc))
      (fun o ho => hops o (List.mem_cons_of_mem _ ho)) hrest

/-! ## The invariant over a run -/

section Runs
variable {config : FsConfig} {blockSize blocks : Nat} {allowed : Op → Prop} {fs fs' : Filesystem}

theorem valid_formatted (hsize : 2 ≤ blockSize) :
    Valid config (Filesystem.formatted blockSize blocks) where
  holds := holds_formatted hsize config.tkvSize blocks
  tidy _ _ h := absurd h (by simp [Filesystem.formatted])
  upper _ h := absurd h List.not_mem_nil
  nodup := List.nodup_nil
  texts _ h := absurd h List.not_mem_nil
  routed _ _ h := absurd h (by simp [Filesystem.view, Filesystem.formatted])
  partitions_ne _ _ h := absurd h (by simp [Filesystem.view, Filesystem.formatted])
  names _ _ h := absurd h (by simp [Filesystem.view, Filesystem.formatted])

/-- A table that a CREATE makes has as many partitions as the input says. -/
theorem partitions_ne_of_create {input : CreateInput} {status : Int32}
    (hrun : processCreate input fs = some (status, fs')) (hsane : input.partitions ≠ 0) :
    input.partitions.toInt.toNat ≠ 0 := by
  intro hzero
  rw [processCreate] at hrun
  split at hrun
  · exact absurd hrun (by simp)
  · rename_i hplain
    have hnonneg : (0 : Int32).toInt ≤ input.partitions.toInt :=
      Int32.le_iff_toInt_le.mp (Int32.not_lt.mp fun hneg => hplain (Or.inl hneg))
    exact hsane (Int32.toInt_inj.mp (le_antisymm (Int.toNat_eq_zero.mp hzero) hnonneg))

/-- **One operation keeps the invariant.** -/
theorem Valid.step {op : Op} (h : Valid config fs) (hsane : op.Sane config)
    (hrun : op.run config fs = some fs') (halloc : fs'.Allocated) : Valid config fs' := by
  cases op with
  | insert now input =>
    obtain rfl := Option.some.inj hrun
    rcases processInsert_cases config now input fs with ⟨status, -, heq⟩ | ⟨-, heq⟩
    · rw [heq]
      exact h
    · exact (h.insert hsane (congrArg Prod.fst heq)).1
  | create input =>
    obtain ⟨⟨status, fs₁⟩, hcreate, rfl⟩ := Option.map_eq_some_iff.mp hrun
    rcases processCreate_cases hcreate with ⟨-, rfl⟩ | ⟨rfl, -⟩
    · exact h
    · exact (h.create hcreate (partitions_ne_of_create hcreate hsane)).1
  | drop input =>
    obtain ⟨⟨status, fs₁⟩, hdrop, rfl⟩ := Option.map_eq_some_iff.mp hrun
    exact (h.drop hdrop).1
  | dump => exact (h.dump hrun halloc).1
  | compaction name => exact (h.compaction hrun halloc).1

/-- **Every state of a run is valid.** -/
theorem valid_of_reachable (hsize : 2 ≤ blockSize)
    (h : Reachable config blockSize blocks allowed fs) : Valid config fs := by
  induction h with
  | formatted => exact valid_formatted hsize
  | step op _ _ hsane hrun halloc ih => exact ih.step hsane hrun halloc

theorem blockSize_step {op : Op} (h : Valid config fs) (hrun : op.run config fs = some fs')
    (halloc : fs'.Allocated) : fs'.storage.blockSize = fs.storage.blockSize := by
  cases op with
  | insert now input =>
    obtain rfl := Option.some.inj hrun
    rcases processInsert_cases config now input fs with ⟨status, -, heq⟩ | ⟨-, heq⟩
    · rw [heq]
    · rw [heq]
  | create input =>
    obtain ⟨⟨status, fs₁⟩, hcreate, rfl⟩ := Option.map_eq_some_iff.mp hrun
    rcases processCreate_cases hcreate with ⟨-, rfl⟩ | ⟨-, -, taken, bitmap, -, -, rfl⟩
    · rfl
    · rfl
  | drop input =>
    obtain ⟨⟨status, fs₁⟩, hdrop, rfl⟩ := Option.map_eq_some_iff.mp hrun
    exact (h.drop hdrop).2.2.1
  | dump => exact (h.dump hrun halloc).2.2.1
  | compaction name => exact (h.compaction hrun halloc).2.2.1

theorem blockSize_of_reachable (hsize : 2 ≤ blockSize)
    (h : Reachable config blockSize blocks allowed fs) : fs.storage.blockSize = blockSize := by
  induction h with
  | formatted => rfl
  | step op hreach _ _ hrun halloc ih =>
    exact (blockSize_step (valid_of_reachable hsize hreach) hrun halloc).trans ih

/-- The tables in memory have directories. -/
def Housed (fs : Filesystem) : Prop :=
  ∀ table ∈ fs.memTable, (fs.tables.lookup table.name).isSome

theorem Housed.step {op : Op} (h : Valid config fs) (hhoused : Housed fs) (hkeeps : op.Keeps)
    (hrun : op.run config fs = some fs') (halloc : fs'.Allocated) : Housed fs' := by
  cases op with
  | insert now input =>
    obtain rfl := Option.some.inj hrun
    rcases processInsert_cases config now input fs with ⟨status, -, heq⟩ | ⟨hexist, heq⟩
    · rwa [heq]
    · rw [heq]
      intro table hmem
      rcases name_of_mem_insertTkv hmem with ⟨old, hold, hname⟩ | hname
      · exact hname ▸ hhoused old hold
      · exact hname ▸ hexist
  | create input =>
    obtain ⟨⟨status, fs₁⟩, hcreate, rfl⟩ := Option.map_eq_some_iff.mp hrun
    rcases processCreate_cases hcreate with ⟨-, rfl⟩ | ⟨-, -, taken, bitmap, -, -, rfl⟩
    · exact hhoused
    · intro table hmem
      rw [AList.lookup_isSome]
      exact (AList.mem_insert _).mpr (Or.inr (AList.lookup_isSome.mp (hhoused table hmem)))
  | drop input => exact hkeeps.elim
  | dump =>
    intro table hmem
    rw [(h.dump hrun halloc).2.1] at hmem
    exact absurd hmem List.not_mem_nil
  | compaction name =>
    obtain ⟨-, hmemTable, -, hviews⟩ := h.compaction hrun halloc
    intro table hmem
    obtain ⟨directory, hdirectory⟩ :=
      Option.isSome_iff_exists.mp (hhoused table (hmemTable ▸ hmem))
    have hview := hviews table.name
    rw [view_some hdirectory, Option.map_some] at hview
    exact Option.isSome_iff_ne_none.mpr fun hnone =>
      absurd (view_eq_none_iff.mpr hnone) (by rw [hview]; simp)

/-- In a run without DROP the tables in memory have directories. -/
theorem housed_of_reachable (hsize : 2 ≤ blockSize)
    (h : Reachable config blockSize blocks Op.Keeps fs) : Housed fs := by
  induction h with
  | formatted => exact fun _ hmem => absurd hmem List.not_mem_nil
  | step op hreach hkeeps _ hrun halloc ih =>
    exact ih.step (valid_of_reachable hsize hreach) hkeeps hrun halloc

end Runs

/-! ## The stored records -/

/-- The texts of a table in `mem_table`. -/
def tkvsInMemory (fs : Filesystem) (name : Bytes) : List Bytes :=
  ((fs.memTable.find? fun table => table.name = name).map MemTable.tkvs).getD []

/-- The contents of a table for a key, as the decoders read them: the first record of
greatest timestamp in the partition of the key, the temporary archives in order and the
memtable. -/
def storedRecord (config : FsConfig) (fs : Filesystem) (name : Bytes) (key : UInt16) :
    Option (Option Record) := do
  let table ← fs.tables.lookup name
  let partition ← table.partitions[key.toNat % table.partitions.length]?
  let inPartition ← createTkvList config.tkvSize fs.storage.block partition.blocks
  let inTmps ← (existingTmps table.tmps).mapM fun tmp =>
    createTkvList config.tkvSize fs.storage.block tmp.blocks
  let inMemory ← (tkvsInMemory fs name).mapM convertRecord
  some (newest (ofKey key (inPartition ++ inTmps.flatten ++ inMemory)))

section Stored
variable {config : FsConfig} {fs fs' : Filesystem} {name : Bytes} {view : TableView}

theorem MemTable.Texts.mapM_eq {table : MemTable} (h : table.Texts config) :
    table.tkvs.mapM convertRecord = some table.records := by
  obtain ⟨htkvs, hrecords⟩ := h
  rw [htkvs]
  generalize table.records = records at hrecords
  induction records with
  | nil => rfl
  | cons record records ih =>
    rw [List.map_cons, List.mapM_cons, convertRecord_text (hrecords record List.mem_cons_self),
      ih fun r hr => hrecords r (List.mem_cons_of_mem _ hr)]
    rfl

/-- The decoders read what the view says. -/
theorem storedRecord_eq (h : Valid config fs) (hview : fs.view config name = some view)
    (key : UInt16) : storedRecord config fs name key = some (view.stored key) := by
  obtain ⟨table, hlookup, rfl⟩ := Option.map_eq_some_iff.mp hview
  have hintact : ∀ blocks ∈ table.owned, Intact config.tkvSize fs.storage blocks :=
    fun blocks hmem =>
    h.holds.intact blocks (owned_subset hlookup hmem)
  have hlt : key.toNat % table.partitions.length < table.partitions.length :=
    Nat.mod_lt _ (List.length_pos_iff.mpr (h.table_partitions_ne hlookup))
  have hpartition : createTkvList config.tkvSize fs.storage.block
      table.partitions[key.toNat % table.partitions.length].blocks =
      some ((table.decoded config.tkvSize fs.storage (memRecords fs.memTable name)).partitionOf
        key) := by
    rw [(hintact _ (List.mem_map_of_mem
      (List.mem_append_left _ (List.getElem_mem hlt)))).decode_eq.1]
    simp [TableView.partitionOf, TableView.route, Table.decoded, hlt]
  have htmps := @mapM_createTkvList _ _ (existingTmps table.tmps) fun archive hmem =>
    hintact archive.blocks (List.mem_map_of_mem (List.mem_append_right _ hmem))
  have hmemory : (tkvsInMemory fs name).mapM convertRecord =
      some ((memRecords fs.memTable name).getD []) := by
    rw [tkvsInMemory, memRecords]
    cases hfind : fs.memTable.find? fun table => table.name = name with
    | none => rfl
    | some memTable => exact (h.texts memTable (List.mem_of_find?_eq_some hfind)).mapM_eq
  rw [storedRecord, hlookup]
  simp only [Option.bind_eq_bind, Option.bind_some, List.getElem?_eq_getElem hlt, hpartition, htmps,
    hmemory]
  rfl

theorem storedRecord_of_view_none (hview : fs.view config name = none) (key : UInt16) :
    storedRecord config fs name key = none := by
  rw [storedRecord, view_eq_none_iff.mp hview]
  rfl

/-- Views with the same stored records make the decoders agree. -/
theorem storedRecord_congr {f : TableView → TableView} (h : Valid config fs) (h' : Valid config fs')
    (hviews : fs'.view config name = (fs.view config name).map f) (key : UInt16)
    (hstored : ∀ view, fs.view config name = some view → (f view).stored key = view.stored key) :
    storedRecord config fs' name key = storedRecord config fs name key := by
  cases hview : fs.view config name with
  | none =>
    rw [hview] at hviews
    rw [storedRecord_of_view_none hview, storedRecord_of_view_none hviews]
  | some view =>
    rw [hview] at hviews
    rw [storedRecord_eq h hview, storedRecord_eq h' hviews, hstored view hview]

/-- The partitions of a table hold one record for each of their keys, and no other keys. -/
def UniquePartitions (config : FsConfig) (fs : Filesystem) (name : Bytes) : Prop :=
  ∀ table, fs.tables.lookup name = some table →
    ∀ i (partition : Archive), table.partitions[i]? = some partition →
      ∃ records, createTkvList config.tkvSize fs.storage.block partition.blocks = some records ∧
        (records.map Record.key).Nodup ∧
        ∀ record ∈ records, record.key.toNat % table.partitions.length = i

theorem Valid.uniquePartitions (h : Valid config fs) (name : Bytes) :
    UniquePartitions config fs name := by
  intro table hlookup i partition hpartition
  have howned : partition.blocks ∈ table.owned :=
    List.mem_map_of_mem (List.mem_append_left _ (List.mem_of_getElem? hpartition))
  have hrouted := h.routed name _ (view_some hlookup) i
    (decode config.tkvSize fs.storage partition.blocks) (by simp [Table.decoded, hpartition])
  refine ⟨_, (h.holds.intact _ (owned_subset hlookup howned)).decode_eq.1, hrouted.1,
    fun record hrecord => ?_⟩
  have hroute := hrouted.2 record hrecord
  simpa [TableView.route, Table.decoded] using hroute

/-- **Dump and compaction keep the stored records.**  In every state of a run of INSERTs,
CREATEs, dumps and compactions, a dump and a compaction of any table end; if they found
enough free blocks they leave the record stored for every key of every table as it was,
and after the compaction each partition of its table has at most one record for a key, and
only keys that map to it. -/
theorem dump_compaction_storedRecord {blockSize blocks : Nat} (hsize : 2 ≤ blockSize)
    (hreach : Reachable config blockSize blocks Op.Keeps fs) :
    (∀ name key, (fs.tables.lookup name).isSome → (storedRecord config fs name key).isSome) ∧
    (∃ fs', dump fs = some fs' ∧ (fs'.Allocated →
      ∀ name key, storedRecord config fs' name key = storedRecord config fs name key)) ∧
    ∀ table, ∃ fs', compaction config table fs = some fs' ∧ (fs'.Allocated →
      (∀ name key, storedRecord config fs' name key = storedRecord config fs name key) ∧
      UniquePartitions config fs' table) := by
  have hvalid := valid_of_reachable hsize hreach
  refine ⟨fun name key hname => ?_, ?_, fun table => ?_⟩
  · obtain ⟨directory, hdirectory⟩ := Option.isSome_iff_exists.mp hname
    rw [storedRecord_eq hvalid (view_some hdirectory)]
    rfl
  · obtain ⟨fs', hdump⟩ := Option.isSome_iff_exists.mp
      (hvalid.dump_isSome (housed_of_reachable hsize hreach))
    refine ⟨fs', hdump, fun halloc name key => ?_⟩
    obtain ⟨hvalid', -, -, hviews⟩ := hvalid.dump hdump halloc
    exact storedRecord_congr hvalid hvalid' (hviews name) key fun view _ => view.stored_dump key
  · obtain ⟨fs', hcompaction⟩ := Option.isSome_iff_exists.mp (hvalid.compaction_isSome table)
    refine ⟨fs', hcompaction, fun halloc => ?_⟩
    obtain ⟨hvalid', -, -, hviews⟩ := hvalid.compaction hcompaction halloc
    refine ⟨fun name key => ?_, hvalid'.uniquePartitions table⟩
    refine storedRecord_congr hvalid hvalid' (hviews name) key fun view hview => ?_
    split
    · exact TableView.stored_compact (hvalid.routed name view hview)
        (hvalid.partitions_ne name view hview) key
    · rfl

end Stored

/-- A table with a record in a dump and another one of the same key in memory. -/
def dumpedOnce : List Op :=
  [.create ⟨.ofBytes [84], .strongConsistency, 2, 1000⟩,
    .insert 0 ⟨.ofBytes [84], 1, .ofBytes [97], 10⟩,
    .dump,
    .insert 0 ⟨.ofBytes [84], 1, .ofBytes [98], 11⟩]

theorem dumpedOnce_runs : (runOps ⟨32, 8⟩ (Filesystem.formatted 8 32) dumpedOnce).isSome := by
  decide +kernel

theorem dump_compaction_storedRecord_dumpedOnce :
    let fs := (runOps ⟨32, 8⟩ (Filesystem.formatted 8 32) dumpedOnce).get dumpedOnce_runs
    (∀ name key, (fs.tables.lookup name).isSome → (storedRecord ⟨32, 8⟩ fs name key).isSome) ∧
    (∃ fs', dump fs = some fs' ∧ (fs'.Allocated →
      ∀ name key, storedRecord ⟨32, 8⟩ fs' name key = storedRecord ⟨32, 8⟩ fs name key)) ∧
    ∀ table, ∃ fs', compaction ⟨32, 8⟩ table fs = some fs' ∧ (fs'.Allocated →
      (∀ name key, storedRecord ⟨32, 8⟩ fs' name key = storedRecord ⟨32, 8⟩ fs name key) ∧
      UniquePartitions ⟨32, 8⟩ fs' table) :=
  dump_compaction_storedRecord (by decide)
    (reachable_runOps .formatted (by decide +kernel) (Option.some_get dumpedOnce_runs).symm)

end Lissandra
