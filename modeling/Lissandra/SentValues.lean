import Lissandra.DurableRecords

/-! # Where the values of the filesystem come from

Not only what is stored for a key in the end, but every record of an archive or of `mem_table` has a
value that a client has sent for its table and key (`Filesystem.Sent`).  So whatever a SELECT finds
has one, also if its four lookups see the process at different times, and also if the search of an
archive does not find the newest record (`Filesystem.Sent.searchKeyAcross`).
-/
namespace Lissandra

/-- A client has sent the value for the key of the table. -/
def SentBy (inserted : List InsertInput) (name : Bytes) (key : UInt16) (value : Bytes) : Prop :=
  ∃ input ∈ inserted, toUppercase input.tableName.bytes = name ∧ input.key = key ∧
    input.value.bytes = value

instance (inserted : List InsertInput) (name : Bytes) (key : UInt16) (value : Bytes) :
    Decidable (SentBy inserted name key value) := inferInstanceAs (Decidable (∃ input ∈ _, _))

theorem SentBy.mono {inserted more : List InsertInput} {name : Bytes} {key : UInt16} {value : Bytes}
    (h : SentBy inserted name key value) (hsub : inserted ⊆ more) : SentBy more name key value := by
  obtain ⟨input, hinput, hsame⟩ := h
  exact ⟨input, hsub hinput, hsame⟩

/-- The INSERTs of an event. -/
def FsEvent.inserts : FsEvent → List InsertInput
  | .insert _ input => [input]
  | .multiinsert _ inputs => inputs
  | _ => []

/-! ## Records of archives -/

/-- The records of the partitions and of the temporary archives. -/
def TableView.archived (view : TableView) : List Record :=
  view.partitions.flatten ++ view.tmps.flatten

section Archived
variable {config : FsConfig} {fs fs' : Filesystem} {name : Bytes} {view : TableView}
  {record : Record} {key : UInt16}

theorem TableView.mem_archived_of_partitionOf (h : record ∈ view.partitionOf key) :
    record ∈ view.archived := by
  rw [TableView.partitionOf] at h
  cases hget : view.partitions[route view.partitions.length key]? with
  | none =>
    rw [hget] at h
    exact absurd h List.not_mem_nil
  | some partition =>
    rw [hget] at h
    exact List.mem_append_left _ (List.mem_flatten_of_mem (List.mem_of_getElem? hget) h)

/-- A compaction makes up no record. -/
theorem TableView.archived_compact (h : record ∈ view.compact.archived) :
    record ∈ view.archived := by
  rcases List.mem_append.mp h with h | h
  · obtain ⟨partition, hpartition, hrecord⟩ := List.mem_flatten.mp h
    rcases mem_distribute hpartition hrecord with ⟨old, hold, hmem⟩ | hmem
    · exact List.mem_append_left _ (List.mem_flatten_of_mem hold hmem)
    · exact List.mem_append_right _ hmem
  · exact absurd h List.not_mem_nil

theorem tmpsAnswer_mem {blockSize : Nat} {tmps : List (List Record)}
    (h : tmpsAnswer blockSize key tmps = some record) : record ∈ ofKey key tmps.flatten := by
  have hfold : ∀ best, tmps.foldl (fun best tmp => later time best
      (archiveAnswer blockSize key tmp)) best = some record →
      best = some record ∨ record ∈ ofKey key tmps.flatten := by
    clear h
    induction tmps with
    | nil => exact fun _ => .inl
    | cons tmp tmps ih =>
      intro best h
      rw [List.flatten_cons, ofKey_append]
      rcases ih _ h with hone | hrest
      · change later time best (archiveAnswer blockSize key tmp) = some record at hone
        rw [later] at hone
        split at hone
        · exact .inr (List.mem_append_left _ (archiveAnswer_mem hone))
        · exact .inl hone
      · exact .inr (List.mem_append_right _ hrest)
  exact (hfold none h).resolve_left (by simp)

end Archived

/-! ## Every record was sent -/

/-- Every record in the archives of a table has a value that was sent. -/
def Filesystem.ArchivedSent (config : FsConfig) (inserted : List InsertInput) (fs : Filesystem) :
    Prop :=
  ∀ name view, fs.view config name = some view → ∀ record ∈ view.archived,
    SentBy inserted name record.key record.value

/-- So has every record of the logs. -/
structure Filesystem.Sent (config : FsConfig) (inserted : List InsertInput) (fs : Filesystem) :
    Prop where
  logs : ∃ store, Represents config fs store ∧
    ∀ name record, store.Has name record → SentBy inserted name record.key record.value
  archived : fs.ArchivedSent config inserted

namespace Filesystem
variable {config : FsConfig} {inserted : List InsertInput} {fs fs' : Filesystem} {name : Bytes}
  {key : UInt16}

theorem Sent.valid (h : fs.Sent config inserted) : Valid config fs := by
  obtain ⟨store, hrep, -⟩ := h.logs
  exact hrep.valid

theorem Sent.recent (h : fs.Sent config inserted) {record : Record}
    (hmem : record ∈ (memRecords fs.memTable name).getD []) :
    SentBy inserted name record.key record.value := by
  obtain ⟨store, hrep, hsent⟩ := h.logs
  rw [← hrep.recent] at hmem
  exact hsent name record (.inr hmem)

theorem sent_formatted {blockSize blocks : Nat} (hsize : 2 ≤ blockSize) :
    (formatted blockSize blocks).Sent config inserted where
  logs := ⟨_, represents_formatted hsize, fun _ _ hhas => absurd hhas LogStore.not_has_empty⟩
  archived name view hview := absurd hview (by simp [Filesystem.view, formatted])

theorem Sent.mono {more : List InsertInput} (h : fs.Sent config inserted)
    (hsub : inserted ⊆ more) : fs.Sent config more := by
  obtain ⟨store, hrep, hsent⟩ := h.logs
  exact ⟨⟨store, hrep, fun name record hhas => (hsent name record hhas).mono hsub⟩,
    fun name view hview record hmem => (h.archived name view hview record hmem).mono hsub⟩

/-- INSERTs change no archive. -/
theorem ArchivedSent.of_files (h : fs.ArchivedSent config inserted)
    (hfiles : fs'.tables = fs.tables ∧ fs'.storage = fs.storage) :
    fs'.ArchivedSent config inserted := by
  intro name view hview record hmem
  rw [Filesystem.view, hfiles.1, hfiles.2] at hview
  obtain ⟨table, hlookup, rfl⟩ := Option.map_eq_some_iff.mp hview
  exact h name _ (Option.map_eq_some_iff.mpr ⟨table, hlookup, rfl⟩) record hmem

/-- A new table has no records. -/
theorem ArchivedSent.create {input : CreateInput} {status : Int32}
    (h : fs.ArchivedSent config inserted) (hvalid : Valid config fs) (hsane : input.partitions ≠ 0)
    (hrun : processCreate input fs = some (status, fs')) : fs'.ArchivedSent config inserted := by
  rcases processCreate_status hrun with ⟨rfl, -⟩ | ⟨-, -, rfl⟩ | ⟨-, rfl⟩
  · obtain ⟨-, -, -, hviews⟩ := hvalid.create hrun (partitions_ne_of_create hrun hsane)
    intro name view hview record hmem
    rw [hviews] at hview
    split at hview
    · obtain rfl := Option.some.inj hview
      rcases List.mem_append.mp hmem with hmem | hmem
      · obtain ⟨partition, hpartition, hrecord⟩ := List.mem_flatten.mp hmem
        rw [(List.mem_replicate.mp hpartition).2] at hrecord
        exact absurd hrecord List.not_mem_nil
      · exact absurd hmem List.not_mem_nil
    · exact h name view hview record hmem
  · exact h
  · exact h

theorem ArchivedSent.drop {input : DropInput} {status : Int32}
    (h : fs.ArchivedSent config inserted) (hvalid : Valid config fs)
    (hrun : processDrop input fs = some (status, fs')) : fs'.ArchivedSent config inserted := by
  obtain ⟨-, -, -, hviews⟩ := hvalid.drop hrun
  intro name view hview record hmem
  rw [hviews] at hview
  split at hview
  · cases hview
  · exact h name view hview record hmem

theorem ArchivedSent.compaction {table : Bytes} (h : fs.ArchivedSent config inserted)
    (hvalid : Valid config fs) (hrun : Lissandra.compaction config table fs = some fs')
    (halloc : fs'.Allocated) : fs'.ArchivedSent config inserted := by
  obtain ⟨-, -, -, hviews⟩ := hvalid.compaction hrun halloc
  intro name view hview record hmem
  rw [hviews] at hview
  obtain ⟨old, hold, rfl⟩ := Option.map_eq_some_iff.mp hview
  split at hmem
  · exact h name old hold record (TableView.archived_compact hmem)
  · exact h name old hold record hmem

/-- **A dump**, perhaps of the first tables only, writes what is recent. -/
theorem Sent.archived_dump {rest : List MemTable} (h : fs.Sent config inserted)
    (hrest : rest.Sublist fs.memTable)
    (hpart : ∀ name records, memRecords rest name = some records →
      memRecords fs.memTable name = some records)
    (hrun : rest.foldlM dumpOne fs = some fs') (halloc : fs'.Allocated) :
    fs'.ArchivedSent config inserted := by
  obtain ⟨-, -, -, hviews⟩ := h.valid.toSound.foldlM_dumpOne hrun halloc
    (fun table htable => h.valid.texts table (hrest.subset htable))
    fun table htable => h.valid.upper table (hrest.subset htable)
  intro name view hview record hmem
  rw [hviews] at hview
  obtain ⟨old, hold, rfl⟩ := Option.map_eq_some_iff.mp hview
  rw [TableView.archived, List.flatten_append,
    flatten_filter_name (h.valid.nodup.sublist (hrest.map MemTable.name)),
    ← List.append_assoc] at hmem
  rcases List.mem_append.mp hmem with hmem | hmem
  · exact h.archived name old hold record hmem
  · cases hrecords : memRecords rest name with
    | none =>
      rw [hrecords] at hmem
      exact absurd hmem List.not_mem_nil
    | some records =>
      rw [hrecords] at hmem
      refine h.recent ?_
      rwa [hpart name records hrecords]

/-- A dump of everything. -/
theorem Sent.archived_dumpAll (h : fs.Sent config inserted) (hrun : dump fs = some fs')
    (halloc : fs'.Allocated) : fs'.ArchivedSent config inserted := by
  obtain ⟨written, hfold, rfl⟩ := Option.map_eq_some_iff.mp hrun
  exact (h.archived_dump (List.Sublist.refl _) (fun _ _ => id) hfold halloc).of_files ⟨rfl, rfl⟩

/-- A process that dies, perhaps in the middle of a dump. -/
theorem Sent.archived_kill {archives tkvs : Nat} {answer : Option Int32}
    (h : fs.Sent config inserted)
    (hrun : (FsEvent.kill archives tkvs).run config fs = some (answer, fs'))
    (halloc : fs'.Allocated) : fs'.ArchivedSent config inserted := by
  obtain ⟨written, torn, hfold, halloc', -, hsame, -, rfl⟩ := h.valid.kill hrun halloc
  have hwritten := h.archived_dump (List.take_sublist archives fs.memTable)
    (fun name records hrecords => by
      rw [memRecords_take] at hrecords
      split at hrecords
      · exact hrecords
      · cases hrecords) hfold halloc'
  have htorn : torn.ArchivedSent config inserted := fun name view hview =>
    hwritten name view (hsame name ▸ hview)
  exact htorn.of_files ⟨rfl, rfl⟩

/-- What is sent is sent by an INSERT of the event. -/
theorem sentBy_of_sends {event : FsEvent} {answer : Option Int32} {record : Record}
    (h : Sends name record (event, answer)) :
    SentBy event.inserts name record.key record.value := by
  cases event with
  | insert now input =>
    obtain ⟨hname, rfl, -⟩ := h
    exact ⟨input, List.mem_singleton.mpr rfl, hname, rfl, rfl⟩
  | multiinsert clock inputs =>
    obtain ⟨entry, hentry, hname, rfl⟩ := h
    exact ⟨entry.1, List.fst_mem_of_mem_zipIdx hentry, hname, rfl, rfl⟩
  | create _ | drop _ | dump | compaction _ | shutdown | kill _ _ => exact h.elim

/-- **One event.** -/
theorem Sent.step {event : FsEvent} {answer : Option Int32} (h : fs.Sent config inserted)
    (hstep : FsStep config fs (event, answer) fs')
    (hsent : ∀ name record, Sends name record (event, answer) →
      SentBy inserted name record.key record.value) : fs'.Sent config inserted := by
  obtain ⟨store, hrep, hlogs⟩ := h.logs
  obtain ⟨_, ⟨ops, hmeans, rfl⟩, hrep'⟩ := Represents.simulation config fs store _ fs' hrep hstep
  refine ⟨⟨_, hrep', fun name record hhas => ?_⟩, ?_⟩
  · rcases LogStore.has_of_run hhas with hhas | hop
    · exact hlogs name record hhas
    · exact hsent name record (hmeans.sends hop)
  obtain ⟨hsane, hrun, halloc⟩ := hstep
  cases event with
  | insert now input =>
    obtain ⟨-, rfl⟩ := Prod.mk.inj (Option.some.inj hrun)
    exact h.archived.of_files (tables_insert config now input fs)
  | multiinsert clock inputs =>
    obtain ⟨-, rfl⟩ := Prod.mk.inj (Option.some.inj hrun)
    exact h.archived.of_files (files_processMultiinsert config clock inputs fs)
  | create input =>
    obtain ⟨⟨status, created⟩, hcreate, heq⟩ := Option.map_eq_some_iff.mp hrun
    obtain ⟨-, rfl⟩ := Prod.mk.inj heq
    exact h.archived.create hrep.valid hsane hcreate
  | drop input =>
    obtain ⟨⟨status, dropped⟩, hdrop, heq⟩ := Option.map_eq_some_iff.mp hrun
    obtain ⟨-, rfl⟩ := Prod.mk.inj heq
    exact h.archived.drop hrep.valid hdrop
  | dump =>
    obtain ⟨dumped, hdump, heq⟩ := Option.map_eq_some_iff.mp hrun
    obtain ⟨-, rfl⟩ := Prod.mk.inj heq
    exact h.archived_dumpAll hdump halloc
  | compaction table =>
    obtain ⟨compacted, hcompaction, heq⟩ := Option.map_eq_some_iff.mp hrun
    obtain ⟨-, rfl⟩ := Prod.mk.inj heq
    exact h.archived.compaction hrep.valid hcompaction halloc
  | shutdown =>
    obtain ⟨dumped, hdump, heq⟩ := Option.map_eq_some_iff.mp hrun
    obtain ⟨-, rfl⟩ := Prod.mk.inj heq
    exact (h.archived_dumpAll hdump halloc).of_files ⟨rfl, rfl⟩
  | kill archives tkvs => exact h.archived_kill hrun halloc

/-! ## SELECT -/

/-- The memtable has no text that is not a record, whatever tables there are. -/
theorem timed_memRecords (h : Valid config fs) :
    Timed (latest Record.key time key ((memRecords fs.memTable name).getD [])) := by
  rw [memRecords]
  cases hfind : fs.memTable.find? fun table => table.name = name with
  | none => exact fun _ hnone => absurd hnone (by simp [latest, entriesOf])
  | some table => exact timed_latest (h.texts table (List.mem_of_find?_eq_some hfind)).storable key

/-- The answer to a SELECT, whose lookups may see the process at different times, is a record of an
archive or of `mem_table`. -/
theorem searchKeyAcross_mem {atTmpc atTmp atPartition atMemtable : Filesystem} {found : Found}
    (hTmpc : Valid config atTmpc) (hTmp : Valid config atTmp)
    (hPartition : Valid config atPartition) (hMemtable : Valid config atMemtable)
    (h : searchKeyAcross config atTmpc atTmp atPartition atMemtable name key = some found)
    (hfound : found.timestamp ≠ -1) :
    ∃ record, record.key = key ∧ record.found = found ∧
      ((∃ view, atTmp.view config name = some view ∧ record ∈ view.archived) ∨
        (∃ view, atPartition.view config name = some view ∧ record ∈ view.archived) ∨
        record ∈ (memRecords atMemtable.memTable name).getD []) := by
  have hexists : ∀ {fs : Filesystem} {α : Type} {f : Table → Option α} {a : α},
      (fs.tables.lookup name).bind f = some a → ∃ view, fs.view config name = some view := by
    intro fs α f a hbind
    obtain ⟨table, hlookup, -⟩ := Option.bind_eq_some_iff.mp hbind
    exact ⟨_, Option.map_eq_some_iff.mpr ⟨table, hlookup, rfl⟩⟩
  obtain ⟨inTmpc, hinTmpc, h⟩ := Option.bind_eq_some_iff.mp h
  obtain ⟨inTmp, hinTmp, h⟩ := Option.bind_eq_some_iff.mp h
  obtain ⟨inPartition, hinPartition, h⟩ := Option.bind_eq_some_iff.mp h
  obtain ⟨inMemtable, hinMemtable, h⟩ := Option.bind_eq_some_iff.mp h
  obtain ⟨viewTmpc, hviewTmpc⟩ := hexists hinTmpc
  obtain ⟨viewTmp, hviewTmp⟩ := hexists hinTmp
  obtain ⟨view, hview⟩ := hexists hinPartition
  -- what each lookup finds
  rw [searchInTmpc_eq hTmpc hviewTmpc] at hinTmpc
  rw [searchInAllTmps_eq hTmp hviewTmp] at hinTmp
  rw [searchInPartition_eq hPartition hview] at hinPartition
  rw [searchKeyInMemtable_memRecords hMemtable (hPartition.names name view hview)] at hinMemtable
  obtain rfl := Option.some.inj hinTmpc
  obtain rfl := Option.some.inj hinTmp
  obtain rfl := Option.some.inj hinPartition
  obtain rfl := Option.some.inj hinMemtable
  have htmp := timed_tmpsAnswer atTmp.storage.blockSize (hTmp.storable hviewTmp).2.1 key
  have hpartition : Timed (latest Record.key time key (view.partitionOf key)) := by
    refine timed_latest ((hPartition.storable hview).1 _ ?_) key
    exact List.mem_of_getElem? (TableView.getElem?_route
      (hPartition.partitions_ne name view hview) key)
  obtain rfl := Option.some.inj h
  rw [mostCurrentKey_foundOf htmp hpartition (timed_memRecords hMemtable)] at hfound ⊢
  -- and which of it is the answer
  cases hanswer : later time (later time (latest Record.key time key (view.partitionOf key))
      (latest Record.key time key ((memRecords atMemtable.memTable name).getD [])))
      (tmpsAnswer atTmp.storage.blockSize key viewTmp.tmps) with
  | none =>
    rw [hanswer] at hfound
    exact absurd rfl hfound
  | some record =>
    rw [later] at hanswer
    split at hanswer
    · obtain ⟨hmem, hkey⟩ := mem_ofKey.mp (tmpsAnswer_mem hanswer)
      exact ⟨record, hkey, rfl, .inl ⟨viewTmp, hviewTmp, List.mem_append_right _ hmem⟩⟩
    · rw [later] at hanswer
      split at hanswer
      · obtain ⟨hmem, hkey⟩ := mem_ofKey.mp (latest_mem hanswer)
        exact ⟨record, hkey, rfl, .inr (.inr hmem)⟩
      · obtain ⟨hmem, hkey⟩ := mem_ofKey.mp (latest_mem hanswer)
        exact ⟨record, hkey, rfl,
          .inr (.inl ⟨view, hview, TableView.mem_archived_of_partitionOf hmem⟩)⟩

/-- **Whatever a SELECT finds was sent.** -/
theorem Sent.searchKeyAcross {atTmpc atTmp atPartition atMemtable : Filesystem} {found : Found}
    (hTmpc : atTmpc.Sent config inserted) (hTmp : atTmp.Sent config inserted)
    (hPartition : atPartition.Sent config inserted) (hMemtable : atMemtable.Sent config inserted)
    (h : Lissandra.searchKeyAcross config atTmpc atTmp atPartition atMemtable name key = some found)
    (hfound : found.timestamp ≠ -1) : SentBy inserted name key found.value := by
  obtain ⟨record, rfl, rfl, hplace⟩ := searchKeyAcross_mem hTmpc.valid hTmp.valid hPartition.valid
    hMemtable.valid h hfound
  rcases hplace with ⟨view, hview, hmem⟩ | ⟨view, hview, hmem⟩ | hmem
  · exact hTmp.archived name view hview record hmem
  · exact hPartition.archived name view hview record hmem
  · exact hMemtable.recent hmem

end Filesystem

end Lissandra
