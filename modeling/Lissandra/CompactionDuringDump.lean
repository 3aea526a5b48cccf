import Lissandra.BackgroundThreads

/-! # Compaction while dumps run

In any interleaving of the sections of `dump` and `compaction`, as long as the windows
[number chosen, file created] of the dump and [archives listed, archives removed] of the
compaction do not overlap on a table, a finished compaction has lost no record for which
there is not one at least as new (`compaction_keeps_newest`).

The invariant looks at the tables without what a running compaction has left half done:
A1.tmpc while it is there, and the block lists of partitions whose blocks are free already
(`Background.live`), with the new partitions that only the compaction knows yet
(`Background.view`).
-/
namespace Lissandra

/-! ## Views over a run -/

/-- What a run keeps of the views it started with, when the tables `copied` of the memtable
are in the archives already. -/
structure ViewsKept (before views : Bytes → Option TableView) (copied : List MemTable) : Prop where
  routed : ∀ name view, views name = some view → view.Routed
  partitions_ne : ∀ name view, views name = some view → view.partitions ≠ []
  covers : ∀ name view, before name = some view →
    ∃ view', views name = some view' ∧ TableView.Covers view view'
  archived : ∀ table ∈ copied, ∀ view, views table.name = some view → view.Archived table.records

section ViewsKept
variable {before views views' : Bytes → Option TableView} {copied : List MemTable}

/-- Views that change by a map. -/
theorem ViewsKept.covers_map (h : ViewsKept before views copied) {f : Bytes → TableView → TableView}
    (hviews : ∀ name, views' name = (views name).map (f name))
    (hcovers : ∀ name view, views name = some view → TableView.Covers view (f name view)) :
    ∀ name view, before name = some view →
      ∃ view', views' name = some view' ∧ TableView.Covers view view' := by
  intro name view hbefore
  obtain ⟨middle, hmiddle, hle⟩ := h.covers name view hbefore
  exact ⟨f name middle, by rw [hviews, hmiddle]; rfl, hle.trans (hcovers name middle hmiddle)⟩

theorem ViewsKept.dumped (h : ViewsKept before views copied) (table : MemTable)
    (hviews : ∀ name, views' name = (views name).map fun view =>
      if name = table.name then { view with tmps := view.tmps ++ [table.records] } else view) :
    ViewsKept before views' (copied ++ [table]) := by
  have hold : ∀ name view, views' name = some view → ∃ old, views name = some old ∧
      view.partitions = old.partitions := by
    intro name view hview
    rw [hviews] at hview
    obtain ⟨old, hold, rfl⟩ := Option.map_eq_some_iff.mp hview
    exact ⟨old, hold, by split <;> rfl⟩
  refine ⟨fun name view hview => ?_, fun name view hview => ?_, h.covers_map hviews ?_, ?_⟩
  · obtain ⟨old, hold, heq⟩ := hold name view hview
    have hrouted := h.routed name old hold
    rwa [TableView.Routed, ← heq] at hrouted
  · obtain ⟨old, hold, heq⟩ := hold name view hview
    exact heq ▸ h.partitions_ne name old hold
  · intro name view _
    split
    · exact TableView.covers_tmp view table.records
    · exact TableView.Covers.refl view
  · intro other hother view hview
    rw [hviews] at hview
    obtain ⟨old, hold, rfl⟩ := Option.map_eq_some_iff.mp hview
    rcases List.mem_append.mp hother with hother | hother
    · have harchived := h.archived other hother old hold
      split
      · exact harchived.tmp table.records
      · exact harchived
    · obtain rfl := List.mem_singleton.mp hother
      rw [if_pos rfl]
      exact TableView.archived_tmp old other.records

theorem ViewsKept.cleared (h : ViewsKept before views copied)
    (hmem : ∀ name view, views name = some view → view.Archived (view.mem.getD []))
    (hviews : ∀ name, views' name = (views name).map fun view => { view with mem := none }) :
    ViewsKept before views' [] := by
  refine ⟨fun name view hview => ?_, fun name view hview => ?_,
    h.covers_map hviews fun name view hview => TableView.covers_clear
    (hmem name view hview), by simp⟩
  all_goals
    rw [hviews] at hview
    obtain ⟨old, hold, rfl⟩ := Option.map_eq_some_iff.mp hview
  · exact h.routed name old hold
  · exact h.partitions_ne name old hold

theorem ViewsKept.compacted (h : ViewsKept before views copied) (name : Bytes)
    (hviews : ∀ other, views' other = (views other).map fun view =>
      if other = name then view.compact else view) :
    ViewsKept before views' copied := by
  refine ⟨fun other view hview => ?_, fun other view hview => ?_, h.covers_map hviews ?_, ?_⟩
  · rw [hviews] at hview
    obtain ⟨old, hold, rfl⟩ := Option.map_eq_some_iff.mp hview
    split
    · exact (h.routed other old hold).compact
    · exact h.routed other old hold
  · rw [hviews] at hview
    obtain ⟨old, hold, rfl⟩ := Option.map_eq_some_iff.mp hview
    split
    · rw [← List.length_pos_iff, TableView.length_compact, List.length_pos_iff]
      exact h.partitions_ne other old hold
    · exact h.partitions_ne other old hold
  · intro other view hview
    split
    · exact TableView.covers_compact (h.routed other view hview) (h.partitions_ne other view hview)
    · exact TableView.Covers.refl view
  · intro table htable view hview
    rw [hviews] at hview
    obtain ⟨old, hold, rfl⟩ := Option.map_eq_some_iff.mp hview
    have harchived := h.archived table htable old hold
    split
    · exact harchived.compact (h.routed _ old hold) (h.partitions_ne _ old hold)
    · exact harchived

end ViewsKept

/-! ## Tables without what is half done -/

/-- An entry with another reading of its table. -/
def mapEntry (g : Bytes → Table → Table) (entry : Sigma fun _ : Bytes => Table) :
    Sigma fun _ : Bytes => Table := ⟨entry.1, g entry.1 entry.2⟩

/-- Another reading of every table. -/
def mapTables (g : Bytes → Table → Table) (tables : AList fun _ : Bytes => Table) :
    AList fun _ : Bytes => Table where
  entries := tables.entries.map (mapEntry g)
  nodupKeys := by
    have hkeys : (tables.entries.map (mapEntry g)).keys = tables.entries.keys := by
      rw [List.keys, List.map_map]
      rfl
    have hnodup := tables.nodupKeys
    rwa [List.NodupKeys, ← hkeys] at hnodup

section MapTables
variable {g g' : Bytes → Table → Table} {tables : AList fun _ : Bytes => Table} {name : Bytes}

theorem entries_mapTables : (mapTables g tables).entries = tables.entries.map (mapEntry g) := rfl

theorem lookup_mapTables :
    (mapTables g tables).lookup name = (tables.lookup name).map (g name) := by
  obtain ⟨entries, hnodup⟩ := tables
  change (entries.map (mapEntry g)).dlookup name = (entries.dlookup name).map (g name)
  clear hnodup
  induction entries with
  | nil => rfl
  | cons entry entries ih =>
    obtain ⟨key, first⟩ := entry
    rw [List.map_cons, mapEntry]
    by_cases hkey : name = key
    · subst hkey
      rw [List.dlookup_cons_eq, List.dlookup_cons_eq, Option.map_some]
    · rw [List.dlookup_cons_ne _ _ hkey, List.dlookup_cons_ne _ _ hkey, ih]

theorem kerase_map_mapEntry (entries : List (Sigma fun _ : Bytes => Table)) :
    (entries.map (mapEntry g)).kerase name = (entries.kerase name).map (mapEntry g) := by
  induction entries with
  | nil => rfl
  | cons entry entries ih =>
    obtain ⟨key, first⟩ := entry
    rw [List.map_cons]
    by_cases hkey : name = key
    · rw [List.kerase_cons_eq hkey, List.kerase_cons_eq hkey]
    · rw [List.kerase_cons_ne hkey, List.kerase_cons_ne hkey, ih, List.map_cons]

/-- Two readings that differ on one table, when that table is replaced. -/
theorem mapTables_insert (h : ∀ other, other ≠ name → ∀ table, g other table = g' other table)
    (table : Table) :
    mapTables g (tables.insert name table) = (mapTables g' tables).insert name (g name table) := by
  refine AList.ext ?_
  rw [AList.entries_insert, entries_mapTables, entries_mapTables, AList.entries_insert,
    List.map_cons, kerase_map_mapEntry]
  congr 1
  refine List.map_congr_left fun entry hentry => ?_
  have hne : entry.1 ≠ name := by
    rintro rfl
    exact List.notMem_keys_kerase _ tables.nodupKeys (List.mem_map_of_mem hentry)
  rw [mapEntry, mapEntry, h entry.1 hne]

end MapTables

/-- The storage holds the archives of all tables and some others, and the tables are tidy. -/
structure Shared (config : FsConfig) (pending : List (List Nat)) (fs : Filesystem) : Prop where
  holds : Holds config.tkvSize fs.storage (pending ++ ownedBy fs.tables)
  tidy : ∀ name table, fs.tables.lookup name = some table → table.Tidy

section Shared
variable {config : FsConfig} {pending : List (List Nat)} {fs : Filesystem} {after : Storage}
  {name : Bytes} {table : Table}

theorem Shared.sound (h : Shared config pending fs) : Sound config fs := ⟨h.holds.of_append, h.tidy⟩

theorem Shared.intact (h : Shared config pending fs)
    (hlookup : fs.tables.lookup name = some table) :
    ∀ blocks ∈ table.owned, Intact config.tkvSize fs.storage blocks := fun blocks hmem =>
  h.sound.holds.intact blocks (owned_subset hlookup hmem)

/-- What is held, one table first. -/
theorem Shared.holds_table (h : Shared config pending fs)
    (hlookup : fs.tables.lookup name = some table) :
    Holds config.tkvSize fs.storage
      (table.owned ++ (pending ++ ownedBy (fs.tables.erase name))) := by
  refine h.holds.perm (((ownedBy_perm hlookup).append_left pending).trans ?_)
  rw [← List.append_assoc, ← List.append_assoc]
  exact List.perm_append_comm.append_right _

/-- **One table at a time**, while others are pending. -/
theorem Shared.setTable (h : Shared config pending fs) (pending' : List (List Nat)) (name : Bytes)
    (table' : Table)
    (hholds : Holds config.tkvSize after
      (table'.owned ++ (pending' ++ ownedBy (fs.tables.erase name))))
    (hkeeps : Keeps fs.storage after (ownedBy (fs.tables.erase name))) (htidy : table'.Tidy) :
    Shared config pending' { fs with storage := after, tables := fs.tables.insert name table' } ∧
      ∀ other, Filesystem.view config
          { fs with storage := after, tables := fs.tables.insert name table' } other =
        if other = name then
          some (table'.decoded config.tkvSize after (memRecords fs.memTable other))
        else fs.view config other := by
  have hswap : (table'.owned ++ (pending' ++ ownedBy (fs.tables.erase name))).Perm
      (pending' ++ ownedBy (fs.tables.insert name table')) := by
    rw [ownedBy_insert, ← List.append_assoc, ← List.append_assoc]
    exact List.perm_append_comm.append_right _
  have hholds' := hholds.perm hswap
  obtain ⟨hsound, hviews⟩ := h.sound.setTable name table' hholds'.of_append hkeeps htidy
  exact ⟨⟨hholds', hsound.tidy⟩, hviews⟩

/-- Blocks of no table are written. -/
theorem Shared.setStorage (h : Shared config pending fs) (pending' : List (List Nat))
    (hholds : Holds config.tkvSize after (pending' ++ ownedBy fs.tables))
    (hkeeps : Keeps fs.storage after (ownedBy fs.tables)) :
    Shared config pending' { fs with storage := after } ∧
      ∀ name, Filesystem.view config { fs with storage := after } name = fs.view config name :=
  ⟨⟨hholds, h.tidy⟩, fun _ => view_keeps h.sound rfl rfl fun _ hlookup =>
    hkeeps.subset (owned_subset hlookup)⟩

end Shared

/-! ## The invariant -/

/-- A table without what the compaction leaves half done. -/
def CompactionPhase.live (phase : CompactionPhase) (name : Bytes) (table : Table) : Table :=
  match phase with
  | .logged n _ _ | .merged n _ _ => if name = n then { table with tmpc := none } else table
  | .freed n _ => if name = n then { table with partitions := [] } else table
  | _ => table

/-- A view with the partitions that the compaction is about to write. -/
def CompactionPhase.upcoming (phase : CompactionPhase) (name : Bytes)
    (view : TableView) : TableView :=
  match phase with
  | .freed n partitionTkvs => if name = n then { view with partitions := partitionTkvs } else view
  | _ => view

/-- The filesystem without what is half done. -/
def Background.live (s : Background) : Filesystem :=
  { s.fs with tables := mapTables s.compaction.live s.fs.tables }

/-- The view of a table while the threads run. -/
def Background.view (config : FsConfig) (s : Background) (name : Bytes) : Option TableView :=
  (s.live.view config name).map (s.compaction.upcoming name)

/-- How many tables of `mem_table` are in archives. -/
def DumpPhase.copied : DumpPhase → Nat
  | .copying i | .written i _ | .numbered i _ _ => i
  | .idle => 0

/-- What the compaction has in memory agrees with the files. -/
def Background.Agrees (config : FsConfig) (s : Background) : Prop :=
  match s.compaction with
  | .idle => True
  | .listed name tmpc =>
    ∀ table, s.fs.tables.lookup name = some table → tmpc = getAllBlocksFromAllTmps table
  | .logged name tmpc tmpDestroyFlag => tmpDestroyFlag = true ∧
    ∀ table, s.fs.tables.lookup name = some table → tmpc = getAllBlocksFromAllTmps table
  | .merged name partitionTkvs tmpDestroyFlag => tmpDestroyFlag = true ∧
    ∀ view, s.view config name = some view → partitionTkvs = view.compact.partitions
  | .freed _ partitionTkvs => ∀ partition ∈ partitionTkvs, ∀ record ∈ partition,
    Storable config.tkvSize record

/-- The invariant of a run that started with the views `before`. -/
structure Background.Kept (config : FsConfig) (before : Bytes → Option TableView) (s : Background) :
    Prop where
  shared : Shared config s.dump.pending s.live
  upper : ∀ table ∈ s.fs.memTable, toUppercase table.name = table.name
  texts : ∀ table ∈ s.fs.memTable, table.Texts config
  views : ViewsKept before (s.view config) (s.fs.memTable.take s.dump.copied)
  pending : ∀ blocks ∈ s.dump.pending, ∀ table, s.fs.memTable[s.dump.copied]? = some table →
    decode config.tkvSize s.fs.storage blocks = table.records
  number : ∀ i archive number, s.dump = .numbered i archive number →
    ∀ table directory, s.dumped i = some (table, directory) → number = freeTmpNumber directory.tmps
  agrees : s.Agrees config

section WriteTable
variable {config : FsConfig} {s : Background} {name : Bytes} {table : Table}

theorem lookup_live (hlookup : s.fs.tables.lookup name = some table) :
    s.live.tables.lookup name = some (s.compaction.live name table) := by
  rw [Background.live, lookup_mapTables, hlookup]
  rfl

theorem view_of_lookup (hlookup : s.fs.tables.lookup name = some table) :
    s.view config name = some (s.compaction.upcoming name ((s.compaction.live name table).decoded
      config.tkvSize s.fs.storage (memRecords s.fs.memTable name))) := by
  rw [Background.view, view_some (lookup_live hlookup)]
  rfl

/-- **A section that writes a directory**, and may take the compaction of this table on. -/
theorem Shared.writeTable {after : Storage} (h : Shared config s.dump.pending s.live)
    (pending' : List (List Nat)) (dump : DumpPhase) (phase : CompactionPhase) (table : Table)
    (hphase : ∀ other, other ≠ name → phase.live other = s.compaction.live other ∧
      phase.upcoming other = s.compaction.upcoming other)
    (hholds : Holds config.tkvSize after
      ((phase.live name table).owned ++ (pending' ++ ownedBy (s.live.tables.erase name))))
    (hkeeps : Keeps s.fs.storage after (ownedBy (s.live.tables.erase name)))
    (htidy : (phase.live name table).Tidy) :
    Shared config pending' (Background.live ⟨s.setTable after name table, dump, phase⟩) ∧
      ∀ other, Background.view config ⟨s.setTable after name table, dump, phase⟩ other =
        if other = name then some (phase.upcoming name
          ((phase.live name table).decoded config.tkvSize after (memRecords s.fs.memTable name)))
        else s.view config other := by
  have htables : mapTables phase.live (s.fs.tables.insert name table) =
      s.live.tables.insert name (phase.live name table) :=
    mapTables_insert (fun other hne table => congrFun (hphase other hne).1 table) table
  have hlive : Background.live ⟨s.setTable after name table, dump, phase⟩ = { s.live with
      storage := after
      tables := s.live.tables.insert name (phase.live name table) } := by
    rw [Background.live, Background.setTable, htables]
    rfl
  obtain ⟨hshared, hviews⟩ := h.setTable pending' name (phase.live name table) hholds hkeeps htidy
  refine ⟨hlive ▸ hshared, fun other => ?_⟩
  rw [Background.view, hlive, hviews]
  by_cases hname : other = name
  · subst hname
    rw [if_pos rfl, if_pos rfl]
    rfl
  · rw [if_neg hname, if_neg hname, (hphase other hname).2]
    rfl

end WriteTable

section Dump
variable {config : FsConfig} {before : Bytes → Option TableView} {s s' : Background}
  {i number : Nat} {archive : Archive} {table : MemTable} {directory : Table} {storage : Storage}

theorem live_tmps (phase : CompactionPhase) (name : Bytes) (table : Table)
    (tmps : List (Option Archive)) :
    phase.live name { table with tmps } = { phase.live name table with tmps } := by
  cases phase with
  | idle | listed => rfl
  | logged n _ _ | merged n _ _ | freed n _ =>
    by_cases hname : name = n <;> simp [CompactionPhase.live, hname]

theorem tmps_live (phase : CompactionPhase) (name : Bytes) (table : Table) :
    (phase.live name table).tmps = table.tmps := by
  cases phase with
  | idle | listed => rfl
  | logged n _ _ | merged n _ _ | freed n _ =>
    by_cases hname : name = n <;> simp [CompactionPhase.live, hname]

theorem upcoming_tmps (phase : CompactionPhase) (name : Bytes) (view : TableView)
    (tmps : List (List Record)) :
    phase.upcoming name { view with tmps } = { phase.upcoming name view with tmps } := by
  cases phase with
  | idle | listed | logged | merged => rfl
  | freed n _ => by_cases hname : name = n <;> simp [CompactionPhase.upcoming, hname]

theorem tmps_upcoming (phase : CompactionPhase) (name : Bytes) (view : TableView) :
    (phase.upcoming name view).tmps = view.tmps := by
  cases phase with
  | idle | listed | logged | merged => rfl
  | freed n _ => by_cases hname : name = n <;> simp [CompactionPhase.upcoming, hname]

theorem upcoming_mem (phase : CompactionPhase) (name : Bytes) (view : TableView)
    (mem : Option (List Record)) :
    phase.upcoming name { view with mem } = { phase.upcoming name view with mem } := by
  cases phase with
  | idle | listed | logged | merged => rfl
  | freed n _ => by_cases hname : name = n <;> simp [CompactionPhase.upcoming, hname]

theorem mem_upcoming (phase : CompactionPhase) (name : Bytes) (view : TableView) :
    (phase.upcoming name view).mem = view.mem := by
  cases phase with
  | idle | listed | logged | merged => rfl
  | freed n _ => by_cases hname : name = n <;> simp [CompactionPhase.upcoming, hname]

theorem dumped_eq_some (h : s.dumped i = some (table, directory)) :
    s.fs.memTable[i]? = some table ∧ s.fs.tables.lookup (toUppercase table.name) =
      some directory := by
  obtain ⟨table', htable, h⟩ := Option.bind_eq_some_iff.mp h
  obtain ⟨directory', hlookup, h⟩ := Option.bind_eq_some_iff.mp h
  obtain ⟨rfl, rfl⟩ := Prod.mk.inj (Option.some.inj h)
  exact ⟨htable, hlookup⟩

/-- What the compaction has in memory stays right if its table stays as it was while it is
listed. -/
theorem Background.Agrees.of_eq (h : s.Agrees config) (hphase : s'.compaction = s.compaction)
    (hlookup : ∀ name ∈ s.compaction.listing, s'.fs.tables.lookup name = s.fs.tables.lookup name)
    (hview : ∀ name ∈ s.compaction.listing, ∀ view', s'.view config name = some view' →
      ∃ view, s.view config name = some view ∧ view'.compact.partitions = view.compact.partitions) :
    s'.Agrees config := by
  rw [Background.Agrees] at h ⊢
  rw [hphase]
  cases hcompaction : s.compaction with
  | idle => trivial
  | listed name tmpc | logged name tmpc _ =>
    rw [hcompaction] at h hlookup
    dsimp only at h ⊢
    rwa [hlookup name rfl]
  | merged name partitionTkvs _ =>
    rw [hcompaction] at h hview
    obtain ⟨hflag, h⟩ := h
    refine ⟨hflag, fun view' hview' => ?_⟩
    obtain ⟨view, hold, heq⟩ := hview name rfl view' hview'
    exact (h view hold).trans heq.symm
  | freed name partitionTkvs =>
    rw [hcompaction] at h
    exact h

theorem mem_memRecords {memTable : List MemTable} {name : Bytes} {record : Record}
    (h : record ∈ (memRecords memTable name).getD []) :
    ∃ table ∈ memTable, table.name = name ∧ record ∈ table.records := by
  rw [memRecords] at h
  cases hfind : memTable.find? fun table => table.name = name with
  | none =>
    rw [hfind] at h
    exact absurd h List.not_mem_nil
  | some table =>
    rw [hfind] at h
    have hname := List.find?_some hfind
    exact ⟨table, List.mem_of_find?_eq_some hfind, of_decide_eq_true hname, h⟩

/-- The blocks of an archive are written. -/
theorem Background.Kept.dumpWrite (h : s.Kept config before) (hdump : s.dump = .copying i)
    (htable : s.fs.memTable[i]? = some table)
    (hwrite : dumpTable s.fs.storage table.tkvs = some (storage, archive))
    (hzero : 0 ∉ archive.blocks) : Background.Kept config before
      { s with fs := { s.fs with storage }, dump := .written i archive } := by
  obtain ⟨fs, dump, compaction⟩ := s
  obtain rfl : dump = .copying i := hdump
  have htexts := h.texts table (List.mem_of_getElem? htable)
  have hholds : Holds config.tkvSize fs.storage (ownedBy (mapTables compaction.live fs.tables)) :=
    h.shared.holds
  dsimp only at hwrite htable
  rw [htexts.tkvs_eq] at hwrite
  obtain ⟨hholds', hkeeps, hdecode⟩ := hholds.dumpTable hwrite hzero htexts.storable
  obtain ⟨hshared, hviews⟩ := h.shared.setStorage [archive.blocks] hholds' hkeeps
  have hview : Background.view config ⟨{ fs with storage }, .written i archive, compaction⟩ =
      Background.view config ⟨fs, .copying i, compaction⟩ :=
    funext fun name => congrArg (Option.map _) (hviews name)
  refine ⟨hshared, h.upper, h.texts, hview ▸ h.views, fun blocks hblocks other hother => ?_,
    fun _ _ _ hphase => absurd hphase (by simp), ?_⟩
  · obtain rfl := List.mem_singleton.mp hblocks
    obtain rfl := Option.some.inj (htable.symm.trans hother)
    exact hdecode
  · exact h.agrees.of_eq rfl (fun _ _ => rfl) fun name _ view' hview' =>
      ⟨view', by rwa [← hview], rfl⟩

/-- A number is chosen for its file. -/
theorem Background.Kept.dumpNumber (h : s.Kept config before) (hdump : s.dump = .written i archive)
    (hdumped : s.dumped i = some (table, directory)) :
    Background.Kept config before
      { s with dump := .numbered i archive (freeTmpNumber directory.tmps) } := by
  obtain ⟨fs, dump, compaction⟩ := s
  obtain rfl : dump = .written i archive := hdump
  refine ⟨h.shared, h.upper, h.texts, h.views, h.pending,
    fun j _ number hphase table' directory' hother => ?_, h.agrees⟩
  obtain ⟨rfl, -, rfl⟩ := DumpPhase.numbered.inj hphase
  have hsame : some (table, directory) = some (table', directory') := hdumped.symm.trans hother
  obtain ⟨-, rfl⟩ := Prod.mk.inj (Option.some.inj hsame)
  rfl

/-- The file with this number is created. -/
theorem Background.Kept.dumpCreate (h : s.Kept config before)
    (hdump : s.dump = .numbered i archive number) (hdumped : s.dumped i = some (table, directory))
    (hapart : ∀ name ∈ s.compaction.listing, name ∉ s.numbering) :
    Background.Kept config before { s with
      fs := s.setTable s.fs.storage (toUppercase table.name)
        { directory with tmps := putTmp number archive directory.tmps }
      dump := .copying (i + 1) } := by
  obtain ⟨fs, dump, compaction⟩ := s
  obtain rfl : dump = .numbered i archive number := hdump
  obtain rfl := h.number i archive number rfl table directory hdumped
  obtain ⟨htable, hlookup⟩ := dumped_eq_some hdumped
  dsimp only at htable hlookup
  have hname := h.upper table (List.mem_of_getElem? htable)
  -- a compaction that has listed the archives works on another table
  have hne : ∀ name ∈ compaction.listing, name ≠ table.name := by
    intro name hlisting heq
    refine hapart name hlisting ?_
    simp [Background.numbering, htable, hname, heq]
  rw [hname] at hlookup ⊢
  have htidy := h.shared.tidy _ _ (lookup_live hlookup)
  obtain ⟨hgap, htmps⟩ := (tmps_live compaction table.name directory ▸ htidy.noGap).addTmp archive
  have hlive : compaction.live table.name { directory with tmps := addTmp archive directory.tmps } =
      { compaction.live table.name directory with tmps := addTmp archive directory.tmps } :=
      live_tmps ..
  have howned : (compaction.live table.name
        { directory with tmps := addTmp archive directory.tmps }).owned =
      (compaction.live table.name directory).owned ++ [archive.blocks] := by
    rw [hlive, Table.owned, Table.owned, htmps, tmps_live, List.map_append, List.map_append,
      List.map_append, List.append_assoc]
    rfl
  -- the blocks of the archive were pending, and are now the table's
  obtain ⟨hshared, hviews⟩ := h.shared.writeTable [] (.copying (i + 1)) compaction
    { directory with tmps := addTmp archive directory.tmps } (fun _ _ => ⟨rfl, rfl⟩)
    (by
      rw [howned, List.append_assoc]
      exact h.shared.holds_table (lookup_live hlookup))
    (Keeps.refl _ _)
    (by
      rw [hlive]
      exact ⟨hgap, htidy.noTmpc⟩)
  have hmap : ∀ name, Background.view config ⟨Background.setTable
        ⟨fs, .numbered i archive (freeTmpNumber directory.tmps), compaction⟩ fs.storage table.name
          { directory with tmps := addTmp archive directory.tmps },
        .copying (i + 1), compaction⟩ name =
      (Background.view config
        ⟨fs, .numbered i archive (freeTmpNumber directory.tmps), compaction⟩ name).map fun view =>
          if name = table.name then { view with tmps := view.tmps ++ [table.records] }
          else view := by
    intro name
    have hdecode := h.pending archive.blocks List.mem_cons_self table htable
    rw [hviews]
    by_cases heq : name = table.name
    · subst heq
      rw [if_pos rfl, view_of_lookup hlookup, Option.map_some, if_pos rfl, hlive, tmps_upcoming,
        ← upcoming_tmps]
      congr 2
      simp only [Table.decoded, htmps, tmps_live, List.map_append, List.map_cons, List.map_nil,
        hdecode]
    · simp [heq]
  refine ⟨hshared, h.upper, h.texts, ?_, by simp [DumpPhase.pending], by simp, ?_⟩
  · have hcopied : fs.memTable.take (i + 1) = fs.memTable.take i ++ [table] := by
      rw [List.take_add_one, htable]
      rfl
    change ViewsKept before _ (fs.memTable.take (i + 1))
    rw [hcopied]
    exact h.views.dumped table hmap
  · refine h.agrees.of_eq rfl (fun name hlisting => AList.lookup_insert_ne (hne name hlisting))
      fun name hlisting view' hview' => ⟨view', ?_, rfl⟩
    have hsame := hviews name
    rw [if_neg (hne name hlisting)] at hsame
    exact hsame.symm.trans hview'

/-- The dump ends. -/
theorem Background.Kept.freeMemtable (h : s.Kept config before) (hdump : s.dump = .copying i)
    (hlength : s.fs.memTable.length ≤ i) :
    Background.Kept config before { s with fs := Lissandra.freeMemtable s.fs, dump := .idle } := by
  obtain ⟨fs, dump, compaction⟩ := s
  obtain rfl : dump = .copying i := hdump
  have hviews : ∀ name, Background.view config ⟨Lissandra.freeMemtable fs, .idle, compaction⟩ name =
      (Background.view config ⟨fs, .copying i, compaction⟩ name).map fun view =>
        { view with mem := none } := by
    intro name
    have hclear :
        (Background.live ⟨Lissandra.freeMemtable fs, .idle, compaction⟩).view config name =
        ((Background.live ⟨fs, .copying i, compaction⟩).view config name).map fun view =>
          { view with mem := none } := by
      rw [Filesystem.view, Filesystem.view, Option.map_map]
      rfl
    rw [Background.view, hclear, Background.view, Option.map_map, Option.map_map]
    exact Option.map_congr fun view _ => upcoming_mem compaction name view none
  have hcopied : fs.memTable.take i = fs.memTable := List.take_of_length_le hlength
  have hmem : ∀ name view, Background.view config ⟨fs, .copying i, compaction⟩ name = some view →
      view.Archived (view.mem.getD []) := by
    intro name view hview record hrecord
    have hrecords : view.mem = memRecords fs.memTable name := by
      obtain ⟨old, hold, rfl⟩ := Option.map_eq_some_iff.mp hview
      obtain ⟨directory, -, rfl⟩ := Option.map_eq_some_iff.mp hold
      rw [mem_upcoming]
      rfl
    rw [hrecords] at hrecord
    obtain ⟨table, htable, hname, hrecord⟩ := mem_memRecords hrecord
    refine h.views.archived table ?_ view (hname ▸ hview) record hrecord
    change table ∈ fs.memTable.take i
    rwa [hcopied]
  refine ⟨⟨h.shared.holds, h.shared.tidy⟩, by simp [Lissandra.freeMemtable],
    by simp [Lissandra.freeMemtable], ?_, by simp [DumpPhase.pending], by simp, ?_⟩
  · exact h.views.cleared hmem hviews
  · refine h.agrees.of_eq rfl (fun _ _ => rfl) fun name _ view' hview' => ?_
    rw [hviews] at hview'
    obtain ⟨view, hview, rfl⟩ := Option.map_eq_some_iff.mp hview'
    exact ⟨view, hview, rfl⟩

end Dump

section Compaction
variable {config : FsConfig} {before : Bytes → Option TableView} {s s' : Background} {name : Bytes}
  {tmpc : Archive} {table : Table} {storage : Storage} {partitionTkvs : List (List Record)}

/-- A write to a table that leaves its temporary archives leaves those of all tables. -/
theorem Background.setTable_tmps {table' directory' : Table} {other : Bytes}
    (hlookup : s.fs.tables.lookup name = some table)
    (h : (s.setTable storage name table').tables.lookup other = some directory')
    (htmps : table'.tmps = table.tmps) :
    ∃ directory, s.fs.tables.lookup other = some directory ∧ directory'.tmps = directory.tmps := by
  rcases lookup_insert_cases h with ⟨rfl, rfl⟩ | ⟨-, hold⟩
  · exact ⟨table, hlookup, htmps⟩
  · exact ⟨directory', hold, rfl⟩

/-- The number of the dump is still free if the temporary archives of its table are the same. -/
theorem Background.Kept.number_of_tmps (h : s.Kept config before) (hdump : s'.dump = s.dump)
    (hmem : s'.fs.memTable = s.fs.memTable)
    (htmps : ∀ name ∈ s.numbering, ∀ directory', s'.fs.tables.lookup name = some directory' →
      ∃ directory, s.fs.tables.lookup name = some directory ∧ directory'.tmps = directory.tmps) :
    ∀ i archive number, s'.dump = .numbered i archive number →
      ∀ table directory, s'.dumped i = some (table, directory) →
      number = freeTmpNumber directory.tmps := by
  intro i archive number hphase table directory hdumped
  rw [hdump] at hphase
  obtain ⟨htable, hlookup⟩ := dumped_eq_some hdumped
  rw [hmem] at htable
  obtain ⟨old, hold, heq⟩ := htmps (toUppercase table.name)
    (by simp [Background.numbering, hphase, htable]) directory hlookup
  rw [heq]
  refine h.number i archive number hphase table old ?_
  simp [Background.dumped, htable, hold]

/-- The temporary archives are listed. -/
theorem Background.Kept.list (h : s.Kept config before)
    (hstep : s.step config (.list name) = some s') : s'.Kept config before := by
  obtain ⟨fs, dump, compaction⟩ := s
  rw [Background.step] at hstep
  split at hstep
  · rename_i hidle
    obtain rfl : compaction = .idle := hidle
    split at hstep
    · obtain rfl := Option.some.inj hstep
      exact h
    · rename_i table hlookup
      have htmpc : table.tmpc = none := (h.shared.tidy _ _ (lookup_live hlookup)).noTmpc
      rw [htmpc] at hstep
      dsimp only at hstep
      split at hstep
      · obtain rfl := Option.some.inj hstep
        exact h
      · obtain rfl := Option.some.inj hstep
        refine ⟨h.shared, h.upper, h.texts, h.views, h.pending, h.number, fun other hother => ?_⟩
        obtain rfl := Option.some.inj (hlookup.symm.trans hother)
        rfl
  · exact absurd hstep (by simp)

/-- A1.tmpc is written. -/
theorem Background.Kept.log (h : s.Kept config before) (hphase : s.compaction = .listed name tmpc)
    (hlookup : s.fs.tables.lookup name = some table) :
    Background.Kept config before { s with
      fs := s.setTable s.fs.storage name { table with tmpc := some tmpc }
      compaction := .logged name tmpc true } := by
  obtain ⟨fs, dump, compaction⟩ := s
  obtain rfl : compaction = .listed name tmpc := hphase
  dsimp only at hlookup
  have hlive : (CompactionPhase.logged name tmpc true).live name { table with tmpc := some tmpc } =
      { table with tmpc := none } := if_pos rfl
  have hholds := h.shared.holds_table (lookup_live hlookup)
  have htidy := h.shared.tidy _ _ (lookup_live hlookup)
  obtain ⟨hshared, hviews⟩ := h.shared.writeTable dump.pending dump (.logged name tmpc true)
    { table with tmpc := some tmpc } (fun other hne => ⟨funext fun table => if_neg hne, rfl⟩)
    (hlive ▸ hholds) (Keeps.refl _ _) (hlive ▸ ⟨htidy.noGap, rfl⟩)
  have hsame : Background.view config
    ⟨Background.setTable ⟨fs, dump, .listed name tmpc⟩ fs.storage name
        { table with tmpc := some tmpc }, dump, .logged name tmpc true⟩ =
      Background.view config ⟨fs, dump, .listed name tmpc⟩ := by
    funext other
    rw [hviews]
    by_cases hother : other = name
    · subst hother
      rw [if_pos rfl, view_of_lookup hlookup, hlive]
      rfl
    · rw [if_neg hother]
  refine ⟨hshared, h.upper, h.texts, hsame ▸ h.views, h.pending,
    h.number_of_tmps rfl rfl fun other _ directory' hdirectory => ?_, rfl, fun table' hother => ?_⟩
  · exact Background.setTable_tmps hlookup hdirectory rfl
  · rw [Background.setTable, AList.lookup_insert, Option.some.injEq] at hother
    exact hother ▸ h.agrees table hlookup

/-- A1.tmpc and the partitions are decoded. -/
theorem Background.Kept.decodeTmpc {tmpDestroyFlag : Bool} (h : s.Kept config before)
    (hphase : s.compaction = .logged name tmpc tmpDestroyFlag)
    (hlookup : s.fs.tables.lookup name = some table)
    (hmerge : mergedPartitions config s.fs.storage table tmpc = some partitionTkvs) :
    Background.Kept config before
      { s with compaction := .merged name partitionTkvs tmpDestroyFlag } := by
  obtain ⟨fs, dump, compaction⟩ := s
  obtain rfl : compaction = .logged name tmpc tmpDestroyFlag := hphase
  obtain ⟨hflag, htmpc⟩ := h.agrees
  dsimp only at hlookup hmerge
  refine ⟨h.shared, h.upper, h.texts, h.views, h.pending, h.number, hflag, fun view hview => ?_⟩
  let table' : Table := { table with tmpc := none }
  have hlive : (CompactionPhase.logged name tmpc tmpDestroyFlag).live name table = table' :=
    if_pos rfl
  have hviewlog := h.views.partitions_ne name view hview
  rw [view_of_lookup hlookup, Option.some.injEq] at hview
  have hne : table.partitions ≠ [] := by
    rintro hnil
    refine hviewlog ?_
    rw [← hview]
    change ((CompactionPhase.logged name tmpc tmpDestroyFlag).live name table).partitions.map _ = []
    rw [hlive]
    exact List.map_eq_nil_iff.mpr hnil
  have hintact : ∀ blocks ∈ table'.owned, Intact config.tkvSize fs.storage blocks :=
    hlive ▸ h.shared.intact (lookup_live hlookup)
  have hmerged := mergedPartitions_eq hintact hne (memRecords fs.memTable name)
  have hsame : mergedPartitions config fs.storage table' (getAllBlocksFromAllTmps table') =
      some partitionTkvs := by
    rw [← hmerge, htmpc table hlookup]
    rfl
  rw [← hview]
  change partitionTkvs = (TableView.compact
    (((CompactionPhase.logged name tmpc tmpDestroyFlag).live name table).decoded _ _ _)).partitions
  rw [hlive]
  exact Option.some.inj (hsame.symm.trans hmerged)

/-- The blocks are freed and the temporary archives removed. -/
theorem Background.Kept.free {tmpDestroyFlag : Bool} {table₁ : Table} (h : s.Kept config before)
    (hphase : s.compaction = .merged name partitionTkvs tmpDestroyFlag)
    (hlookup : s.fs.tables.lookup name = some table)
    (hfree : freeArchives s.fs.storage table tmpDestroyFlag = some (storage, table₁))
    (hapart : name ∉ s.numbering) :
    Background.Kept config before
      { s with fs := s.setTable storage name table₁, compaction := .freed name partitionTkvs } := by
  obtain ⟨fs, dump, compaction⟩ := s
  obtain rfl : compaction = .merged name partitionTkvs tmpDestroyFlag := hphase
  -- A1.tmpc is in what was merged, so its blocks do not count any more
  obtain ⟨rfl, hmerged⟩ := h.agrees
  dsimp only at hlookup hfree
  have hlive : (CompactionPhase.merged name partitionTkvs true).live name table =
      { table with tmpc := none } := if_pos rfl
  have hholds : Holds config.tkvSize fs.storage (table.owned ++ (dump.pending ++
      ownedBy ((mapTables (CompactionPhase.merged name partitionTkvs true).live fs.tables).erase
        name))) := by
    have hholds := h.shared.holds_table (lookup_live hlookup)
    rw [hlive] at hholds
    exact hholds
  have hgap : NoGap table.tmps := by
    have htidy := h.shared.tidy _ _ (lookup_live hlookup)
    rw [hlive] at htidy
    exact htidy.noGap
  obtain ⟨hgap', htmps⟩ := hgap.destroyAllTmps
  obtain ⟨after, hfree', hholds', hkeeps⟩ := freeArchives_eq hholds
  obtain ⟨rfl, rfl⟩ := Prod.mk.inj (Option.some.inj (hfree.symm.trans hfree'))
  -- the blocks that the partitions still list are free already
  have hlive' : (CompactionPhase.freed name partitionTkvs).live name
      { table with tmps := destroyAllTmps table.tmps, tmpc := none } =
      { table with partitions := [], tmps := destroyAllTmps table.tmps, tmpc := none } := if_pos rfl
  have howned : ({ table with
      partitions := [], tmps := destroyAllTmps table.tmps, tmpc := none } : Table).owned = [] := by
    simp [Table.owned, htmps]
  obtain ⟨hshared, hviews⟩ := h.shared.writeTable dump.pending dump (.freed name partitionTkvs)
    { table with tmps := destroyAllTmps table.tmps, tmpc := none }
    (fun other hne => ⟨funext fun table => (if_neg hne).trans (if_neg hne).symm,
      funext fun view => if_neg hne⟩)
    (by
      rw [hlive', howned]
      exact hholds')
    (hkeeps.subset (List.subset_append_right _ _)) (hlive' ▸ ⟨hgap', rfl⟩)
  have hview := @view_of_lookup config ⟨fs, dump, .merged name partitionTkvs true⟩ name table
    hlookup
  rw [hlive] at hview
  -- what the compaction has merged is what the compacted view has
  have hcompact := hmerged _ hview
  refine ⟨hshared, h.upper, h.texts, ?_, fun blocks hblocks other hother => ?_,
    h.number_of_tmps rfl rfl fun other hnumbering directory' hdirectory => ?_,
    fun partition hpartition record hrecord => ?_⟩
  · refine h.views.compacted name fun other => ?_
    rw [hviews]
    by_cases hother : other = name
    · subst hother
      rw [if_pos rfl, hview, Option.map_some, if_pos rfl, hlive']
      congr 1
      change (if other = other then _ else _) = _
      rw [if_pos rfl]
      refine TableView.ext hcompact ?_ rfl
      simp [Table.decoded, htmps]
    · simp [hother]
  · have hdecode := h.pending blocks hblocks other hother
    rw [← hdecode]
    exact hkeeps.decode_eq (List.mem_append_left _ hblocks)
      (h.shared.holds.intact blocks (List.mem_append_left _ hblocks))
  · have hne : other ≠ name := by
      rintro rfl
      exact hapart hnumbering
    rw [Background.setTable, AList.lookup_insert_ne hne] at hdirectory
    exact ⟨directory', hdirectory, rfl⟩
  · rw [hcompact] at hpartition
    exact storable_compact (hlive ▸ h.shared.intact (lookup_live hlookup)) _ partition hpartition
      record hrecord

/-- The new partitions are written. -/
theorem Background.Kept.create {archives : List Archive} (h : s.Kept config before)
    (hphase : s.compaction = .freed name partitionTkvs)
    (hlookup : s.fs.tables.lookup name = some table)
    (hcreate : createNewPartitions s.fs.storage partitionTkvs = some (storage, archives))
    (hzero : ∀ archive ∈ archives, 0 ∉ archive.blocks) :
    Background.Kept config before { s with
      fs := s.setTable storage name { table with partitions := archives }
      compaction := .idle } := by
  obtain ⟨fs, dump, compaction⟩ := s
  obtain rfl : compaction = .freed name partitionTkvs := hphase
  dsimp only at hlookup hcreate
  let table' : Table := { table with partitions := [] }
  have hlive : (CompactionPhase.freed name partitionTkvs).live name table = table' := if_pos rfl
  have hholds := h.shared.holds_table (lookup_live hlookup)
  have htidy := h.shared.tidy _ _ (lookup_live hlookup)
  have hintact := h.shared.intact (lookup_live hlookup)
  have hview := @view_of_lookup config ⟨fs, dump, .freed name partitionTkvs⟩ name table hlookup
  rw [hlive] at hholds htidy hintact hview
  obtain ⟨hholds', hkeeps, hdecode⟩ := hholds.createNewPartitions hcreate hzero h.agrees
  have howned : ({ table with partitions := archives } : Table).owned =
      archives.map Archive.blocks ++ table'.owned := by
    simp [table', Table.owned]
  obtain ⟨hshared, hviews⟩ := h.shared.writeTable dump.pending dump .idle
    { table with partitions := archives }
    (fun other hne => ⟨funext fun table => (if_neg hne).symm, funext fun view => (if_neg hne).symm⟩)
    (by
      change Holds config.tkvSize storage
        (({ table with partitions := archives } : Table).owned ++ _)
      rw [howned, List.append_assoc]
      exact hholds')
    (hkeeps.subset (List.Subset.trans (List.subset_append_right _ _)
      (List.subset_append_right _ _)))
    ⟨htidy.noGap, htidy.noTmpc⟩
  have htmps : ∀ archive ∈ existingTmps table.tmps,
      decode config.tkvSize storage archive.blocks =
      decode config.tkvSize fs.storage archive.blocks := by
    intro archive hmem
    have howned : archive.blocks ∈ table'.owned := List.mem_map_of_mem hmem
    exact hkeeps.decode_eq (List.mem_append_left _ howned) (hintact _ howned)
  -- the records come from the compaction to the archives, and the view stays the same
  have hsame : Background.view config
    ⟨Background.setTable ⟨fs, dump, .freed name partitionTkvs⟩ storage
        name { table with partitions := archives }, dump, .idle⟩ =
      Background.view config ⟨fs, dump, .freed name partitionTkvs⟩ := by
    funext other
    rw [hviews]
    by_cases hother : other = name
    · subst hother
      rw [if_pos rfl, hview]
      congr 1
      change _ = if other = other then _ else _
      rw [if_pos rfl]
      exact TableView.ext hdecode (List.map_congr_left htmps) rfl
    · rw [if_neg hother]
  refine ⟨hshared, h.upper, h.texts, hsame ▸ h.views, fun blocks hblocks other hother => ?_,
    h.number_of_tmps rfl rfl fun other _ directory' hdirectory => ?_, trivial⟩
  · rw [← h.pending blocks hblocks other hother]
    exact hkeeps.decode_eq (List.mem_append_right _ (List.mem_append_left _ hblocks))
      (h.shared.holds.intact blocks (List.mem_append_left _ hblocks))
  · exact Background.setTable_tmps hlookup hdirectory rfl

end Compaction

/-! ## Runs -/

section Runs
variable {config : FsConfig} {before : Bytes → Option TableView} {s s' : Background}

/-- **One section keeps the invariant**, unless it ends a window while the other one is open. -/
theorem Background.Kept.step {action : Action} (h : s.Kept config before)
    (hstep : s.step config action = some s') (halloc : s'.Allocated) (hapart : s.Apart action) :
    s'.Kept config before := by
  cases action with
  | dumpStart =>
    obtain ⟨fs, dump, compaction⟩ := s
    rw [Background.step] at hstep
    split at hstep
    · rename_i hidle
      obtain rfl : dump = .idle := hidle
      obtain rfl := Option.some.inj hstep
      exact ⟨h.shared, h.upper, h.texts, h.views, by simp [DumpPhase.pending], by simp, h.agrees⟩
    · exact absurd hstep (by simp)
  | dumpWrite =>
    rw [Background.step] at hstep
    split at hstep
    · rename_i i hdump
      obtain ⟨table, htable, hstep⟩ := Option.bind_eq_some_iff.mp hstep
      obtain ⟨⟨storage, archive⟩, hwrite, hstep⟩ := Option.bind_eq_some_iff.mp hstep
      obtain rfl := Option.some.inj hstep
      exact h.dumpWrite hdump htable hwrite fun hzero =>
        halloc.2 (by simpa [DumpPhase.pending] using hzero)
    · exact absurd hstep (by simp)
  | dumpNumber =>
    rw [Background.step] at hstep
    split at hstep
    · rename_i i archive hdump
      obtain ⟨⟨table, directory⟩, hdumped, hstep⟩ := Option.bind_eq_some_iff.mp hstep
      obtain rfl := Option.some.inj hstep
      exact h.dumpNumber hdump hdumped
    · exact absurd hstep (by simp)
  | dumpCreate =>
    rw [Background.step] at hstep
    split at hstep
    · rename_i i archive number hdump
      obtain ⟨⟨table, directory⟩, hdumped, hstep⟩ := Option.bind_eq_some_iff.mp hstep
      obtain rfl := Option.some.inj hstep
      exact h.dumpCreate hdump hdumped (hapart (Or.inl rfl))
    · exact absurd hstep (by simp)
  | freeMemtable =>
    rw [Background.step] at hstep
    split at hstep
    · rename_i i hdump
      split at hstep
      · exact absurd hstep (by simp)
      · rename_i hlength
        obtain rfl := Option.some.inj hstep
        exact h.freeMemtable hdump (not_lt.mp hlength)
    · exact absurd hstep (by simp)
  | list name => exact h.list hstep
  | log =>
    rw [Background.step] at hstep
    split at hstep
    · rename_i name tmpc hphase
      obtain ⟨table, hlookup, hstep⟩ := Option.bind_eq_some_iff.mp hstep
      obtain rfl := Option.some.inj hstep
      exact h.log hphase hlookup
    · exact absurd hstep (by simp)
  | decode =>
    rw [Background.step] at hstep
    split at hstep
    · rename_i name tmpc tmpDestroyFlag hphase
      obtain ⟨table, hlookup, hstep⟩ := Option.bind_eq_some_iff.mp hstep
      obtain ⟨partitionTkvs, hmerge, hstep⟩ := Option.bind_eq_some_iff.mp hstep
      obtain rfl := Option.some.inj hstep
      exact h.decodeTmpc hphase hlookup hmerge
    · exact absurd hstep (by simp)
  | free =>
    rw [Background.step] at hstep
    split at hstep
    · rename_i name partitionTkvs tmpDestroyFlag hphase
      obtain ⟨table, hlookup, hstep⟩ := Option.bind_eq_some_iff.mp hstep
      obtain ⟨⟨storage, table₁⟩, hfree, hstep⟩ := Option.bind_eq_some_iff.mp hstep
      obtain rfl := Option.some.inj hstep
      exact h.free hphase hlookup hfree
        (hapart (Or.inr rfl) name (by simp [hphase, CompactionPhase.listing]))
    · exact absurd hstep (by simp)
  | create =>
    rw [Background.step] at hstep
    split at hstep
    · rename_i name partitionTkvs hphase
      obtain ⟨table, hlookup, hstep⟩ := Option.bind_eq_some_iff.mp hstep
      obtain ⟨⟨storage, archives⟩, hcreate, hstep⟩ := Option.bind_eq_some_iff.mp hstep
      obtain rfl := Option.some.inj hstep
      refine h.create hphase hlookup hcreate fun archive hmem hzero => halloc.1 ?_
      refine List.mem_flatten.mpr ⟨archive.blocks, ?_, hzero⟩
      change archive.blocks ∈ ownedBy
        (s.fs.tables.insert name { table with partitions := archives })
      rw [ownedBy_insert]
      exact List.mem_append_left _ (List.mem_map_of_mem (List.mem_append_left _ hmem))
    · exact absurd hstep (by simp)

theorem kept_idle {fs : Filesystem} (h : Valid config fs) :
    Background.Kept config (fs.view config) (Background.idle fs) := by
  have htables : mapTables CompactionPhase.idle.live fs.tables = fs.tables :=
    AList.ext (List.map_id' fs.tables.entries)
  have hlive : (Background.idle fs).live = fs := by
    rw [Background.live, Background.idle, htables]
  have hview : (Background.idle fs).view config = fs.view config := by
    funext name
    rw [Background.view, hlive]
    exact Option.map_id'
  refine ⟨⟨?_, ?_⟩, h.upper, h.texts, ⟨hview ▸ h.routed, hview ▸ h.partitions_ne, ?_, ?_⟩,
    by simp [Background.idle, DumpPhase.pending], by simp [Background.idle], trivial⟩
  · rw [hlive]
    exact h.holds
  · rw [hlive]
    exact h.tidy
  · rw [hview]
    exact fun name view hview => ⟨view, hview, TableView.Covers.refl view⟩
  · simp [Background.idle, DumpPhase.copied]

/-- **Compaction loses no dumped record whatever dump does meanwhile**, as long as the two
windows do not overlap on a table and there are enough free blocks: from any state of the
filesystem, in every interleaving, whenever no compaction is running the partitions, the
temporary archives that the loops reach and the memtable have, for every record that a
table had at the start, one of the same key that is at least as new. -/
theorem compaction_keeps_newest {blockSize blocks : Nat} {fs : Filesystem} (hsize : 2 ≤ blockSize)
    (hreach : Reachable config blockSize blocks (fun _ => True) fs)
    (hrun : Run (Background.step config) (fun s action s' => s'.Allocated ∧ s.Apart action)
      (Background.idle fs) s) (hfinished : s.compaction = .idle) :
    ∀ name view, fs.view config name = some view →
      ∃ view', s.fs.view config name = some view' ∧
        ∀ key, ∀ record ∈ ofKey key (view.records key),
          ∃ newer ∈ ofKey key (view'.records key), time record ≤ time newer := by
  have hkept : s.Kept config (fs.view config) := by
    refine hrun.invariant (P := fun s => s.Kept config (fs.view config))
      (kept_idle (valid_of_reachable hsize hreach)) fun s action s' h hstep hallowed =>
        h.step hstep hallowed.1 hallowed.2
  obtain ⟨fs', dump, compaction⟩ := s
  obtain rfl : compaction = .idle := hfinished
  have htables : mapTables CompactionPhase.idle.live fs'.tables = fs'.tables :=
    AList.ext (List.map_id' fs'.tables.entries)
  intro name view hview
  obtain ⟨view', hview', hcovers⟩ := hkept.views.covers name view hview
  refine ⟨view', ?_, hcovers⟩
  rw [Background.view, Background.live, htables] at hview'
  have hid : (fs'.view config name).map (CompactionPhase.idle.upcoming name) =
    fs'.view config name :=
    Option.map_id'
  exact hid.symm.trans hview'

end Runs

/-- The state after `dumpedOnce`. -/
def dumpedFs : Filesystem :=
  (runOps ⟨32, 8⟩ (Filesystem.formatted 8 32) dumpedOnce).get dumpedOnce_runs

theorem dumpedFs_reachable : Reachable ⟨32, 8⟩ 8 32 (fun _ => True) dumpedFs :=
  reachable_runOps .formatted (by decide +kernel) (Option.some_get dumpedOnce_runs).symm

/-- A dump that writes its blocks before a compaction and creates its file within it. -/
def windowsApart : List Background.Action :=
  [.dumpStart, .dumpWrite, .list [84], .log, .decode, .free, .dumpNumber, .dumpCreate, .create,
    .freeMemtable]

/-- A compaction that removes a file which was not there when it listed them. -/
def windowsOverlap : List Background.Action :=
  [.list [84], .dumpStart, .dumpWrite, .dumpNumber, .dumpCreate, .freeMemtable, .log, .decode,
    .free, .create]

theorem windowsApart_runs : (runSteps (Background.step ⟨32, 8⟩)
    (fun s action s' => s'.Allocated ∧ s.Apart action) (Background.idle dumpedFs)
      windowsApart).isSome := by
  decide +kernel

theorem compaction_keeps_newest_windowsApart :
    let s := (runSteps (Background.step ⟨32, 8⟩) (fun s action s' => s'.Allocated ∧ s.Apart action)
      (Background.idle dumpedFs) windowsApart).get windowsApart_runs
    ∀ name view, dumpedFs.view ⟨32, 8⟩ name = some view →
      ∃ view', s.fs.view ⟨32, 8⟩ name = some view' ∧
        ∀ key, ∀ record ∈ ofKey key (view.records key),
          ∃ newer ∈ ofKey key (view'.records key), time record ≤ time newer :=
  compaction_keeps_newest (by decide) dumpedFs_reachable
    (run_of_runSteps (Option.some_get windowsApart_runs).symm) (by decide +kernel)

/-- The record in memory is dumped to A2.tmp after the compaction has listed A1.tmp, and the
compaction removes both. -/
theorem compaction_loses_newest : ∃ s view view',
    Run (Background.step ⟨32, 8⟩) (fun _ _ s' => s'.Allocated) (Background.idle dumpedFs) s ∧
    s.compaction = .idle ∧ dumpedFs.view ⟨32, 8⟩ [84] = some view ∧
    s.fs.view ⟨32, 8⟩ [84] = some view' ∧ ∃ record ∈ ofKey 1 (view.records 1),
      ∀ newer ∈ ofKey 1 (view'.records 1), time newer < time record := by
  have hruns : ((runSteps (Background.step ⟨32, 8⟩) (fun _ _ s' => s'.Allocated)
      (Background.idle dumpedFs) windowsOverlap).map fun s =>
        (s.compaction, s.fs.view ⟨32, 8⟩ [84])) =
      some (.idle, some ⟨[[], [⟨10, 1, [97]⟩]], [], none⟩) := by decide +kernel
  obtain ⟨s, hrun, heq⟩ := Option.map_eq_some_iff.mp hruns
  obtain ⟨hidle, hview⟩ := Prod.mk.inj heq
  have hstart : dumpedFs.view ⟨32, 8⟩ [84] =
      some ⟨[[], []], [[⟨10, 1, [97]⟩]], some [⟨11, 1, [98]⟩]⟩ := by decide +kernel
  exact ⟨s, _, _, run_of_runSteps hrun, hidle, hstart, hview, ⟨11, 1, [98]⟩, by decide, by decide⟩

end Lissandra
