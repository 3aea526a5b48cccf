import Lissandra.TableView

/-! # Tables in the storage

What the files of the tables say about their records.  `Filesystem.view` decodes a table
to a `TableView`; the filesystem is `Sound` when the storage holds the archives of its
tables and no table has a gap in the numbers of its temporary archives or a leftover
A1.tmpc.  An operation on one table changes its view and no other one
(`Sound.setTable`).
-/
namespace Lissandra

/-! ## Temporary archives -/

/-- The files from A1.tmp on are there up to some number, and no others. -/
def NoGap (tmps : List (Option Archive)) : Prop :=
  ∃ k, tmps = (existingTmps tmps).map some ++ List.replicate k none

theorem existingTmps_append (archives : List Archive) (k : Nat) :
    existingTmps (archives.map some ++ List.replicate k none) = archives := by
  induction archives with
  | nil => cases k <;> rfl
  | cons archive archives ih => exact congrArg (archive :: ·) ih

theorem noGap_append (archives : List Archive) (k : Nat) :
    NoGap (archives.map some ++ List.replicate k none) :=
  ⟨k, by rw [existingTmps_append]⟩

theorem putTmp_append (archives : List Archive) (k : Nat) (archive : Archive) :
    putTmp archives.length archive (archives.map some ++ List.replicate k none) =
      (archives ++ [archive]).map some ++ List.replicate (k - 1) none := by
  have hlen : (archives.map some : List (Option Archive)).length ≤ archives.length := by simp
  rw [putTmp, List.length_append, List.length_map, List.length_replicate, List.append_assoc,
    List.replicate_append_replicate, List.set_append_right _ _ hlen, List.length_map,
    Nat.sub_self]
  have hcount : k + (archives.length + 1 - (archives.length + k)) = (k - 1) + 1 := by omega
  rw [hcount, List.replicate_succ, List.set_cons_zero]
  simp

/-- A new file behind the others. -/
theorem NoGap.addTmp {tmps : List (Option Archive)} (h : NoGap tmps) (archive : Archive) :
    NoGap (addTmp archive tmps) ∧
      existingTmps (addTmp archive tmps) = existingTmps tmps ++ [archive] := by
  obtain ⟨k, hk⟩ := h
  have hadd : Lissandra.addTmp archive tmps =
      (existingTmps tmps ++ [archive]).map some ++ List.replicate (k - 1) none := by
    rw [← putTmp_append, ← hk]
    rfl
  rw [hadd, existingTmps_append]
  exact ⟨noGap_append _ _, rfl⟩

theorem destroyAllTmps_append (archives : List Archive) (k : Nat) :
    destroyAllTmps (archives.map some ++ List.replicate k none) =
      List.replicate (archives.length + k) none := by
  induction archives with
  | nil => cases k <;> simp [destroyAllTmps, List.replicate_succ]
  | cons archive archives ih =>
    rw [List.map_cons, List.cons_append, destroyAllTmps, ih, List.length_cons,
      ← List.replicate_succ]
    congr 1
    omega

theorem NoGap.destroyAllTmps {tmps : List (Option Archive)} (h : NoGap tmps) :
    NoGap (destroyAllTmps tmps) ∧ existingTmps (destroyAllTmps tmps) = [] := by
  obtain ⟨k, hk⟩ := h
  have hdestroy : Lissandra.destroyAllTmps tmps =
      ([] : List Archive).map some ++ List.replicate ((existingTmps tmps).length + k) none := by
    rw [List.map_nil, List.nil_append, ← destroyAllTmps_append, ← hk]
  rw [hdestroy, existingTmps_append]
  exact ⟨noGap_append _ _, rfl⟩

theorem addTmp_cons (archive first : Archive) (tmps : List (Option Archive)) :
    addTmp archive (some first :: tmps) = some first :: addTmp archive tmps := by
  simp [addTmp, putTmp, freeTmpNumber, existingTmps]

/-- A new file hides none of those that were found before. -/
theorem existingTmps_subset_addTmp (archive : Archive) (tmps : List (Option Archive)) :
    existingTmps tmps ⊆ existingTmps (addTmp archive tmps) := by
  induction tmps with
  | nil => exact List.nil_subset _
  | cons tmp rest ih =>
    cases tmp with
    | none => exact List.nil_subset _
    | some first =>
      rw [addTmp_cons]
      exact List.cons_subset_cons first ih

theorem mem_existingTmps_addTmp (archive : Archive) (tmps : List (Option Archive)) :
    archive ∈ existingTmps (addTmp archive tmps) := by
  induction tmps with
  | nil => exact List.mem_cons_self
  | cons tmp rest ih =>
    cases tmp with
    | none => exact List.mem_cons_self
    | some first =>
      rw [addTmp_cons]
      exact List.mem_cons_of_mem first ih

/-! ## Tables and their archives -/

/-- The block lists of the archives of a table. -/
def Table.owned (table : Table) : List (List Nat) :=
  (table.partitions ++ existingTmps table.tmps).map Archive.blocks

/-- The block lists of all archives. -/
def ownedBy (tables : AList fun _ : Bytes => Table) : List (List Nat) :=
  tables.entries.flatMap fun entry => entry.2.owned

/-- No operation has run out of blocks: no archive lists block number 0. -/
def Filesystem.Allocated (fs : Filesystem) : Prop := 0 ∉ (ownedBy fs.tables).flatten

instance (fs : Filesystem) : Decidable fs.Allocated := inferInstanceAs (Decidable (¬ _))

section
variable {tables : AList fun _ : Bytes => Table} {name other : Bytes} {table table' : Table}

/-- After a table is put under a name, it is there and the others are as they were. -/
theorem lookup_insert_cases (h : (tables.insert name table').lookup other = some table) :
    other = name ∧ table' = table ∨ other ≠ name ∧ tables.lookup other = some table := by
  by_cases hname : other = name
  · subst hname
    rw [AList.lookup_insert] at h
    exact Or.inl ⟨rfl, Option.some.inj h⟩
  · rw [AList.lookup_insert_ne hname] at h
    exact Or.inr ⟨hname, h⟩

theorem ownedBy_insert (tables : AList fun _ : Bytes => Table) (name : Bytes) (table : Table) :
    ownedBy (tables.insert name table) = table.owned ++ ownedBy (tables.erase name) := rfl

theorem ownedBy_perm (h : tables.lookup name = some table) :
    (ownedBy tables).Perm (table.owned ++ ownedBy (tables.erase name)) := by
  obtain ⟨entries, hnodup⟩ := tables
  change entries.dlookup name = some table at h
  have hperm : entries.Perm (⟨name, table⟩ :: entries.kerase name) := by
    clear hnodup
    induction entries with
    | nil => simp at h
    | cons entry entries ih =>
      obtain ⟨key, first⟩ := entry
      by_cases hkey : name = key
      · subst hkey
        rw [List.dlookup_cons_eq, Option.some.injEq] at h
        have herase : List.kerase name
          (⟨name, table⟩ :: entries : List (Sigma fun _ : Bytes => Table)) =
            entries := List.kerase_cons_eq rfl
        rw [h, herase]
      · rw [List.dlookup_cons_ne _ _ hkey] at h
        rw [List.kerase_cons_ne hkey]
        exact ((ih h).cons _).trans (List.Perm.swap _ _ _)
  exact hperm.flatMap_right _

theorem owned_subset (h : tables.lookup name = some table) : table.owned ⊆ ownedBy tables :=
  fun _ hmem => (ownedBy_perm h).mem_iff.mpr (List.mem_append_left _ hmem)

theorem owned_subset_erase (h : tables.lookup other = some table) (hne : other ≠ name) :
    table.owned ⊆ ownedBy (tables.erase name) :=
  owned_subset (by rw [AList.lookup_erase_ne hne, h])

theorem ownedBy_erase_of_lookup_none (h : tables.lookup name = none) :
    ownedBy (tables.erase name) = ownedBy tables := by
  have hkeys : name ∉ tables.entries.keys := AList.lookup_eq_none.mp h
  rw [ownedBy, ownedBy]
  exact congrArg _ (List.kerase_of_notMem_keys hkeys)

theorem erase_subset (tables : AList fun _ : Bytes => Table) (name : Bytes) :
    ownedBy (tables.erase name) ⊆ ownedBy tables := by
  intro blocks hmem
  obtain ⟨entry, hentry, hblocks⟩ := List.mem_flatMap.mp hmem
  exact List.mem_flatMap.mpr ⟨entry, (List.kerase_sublist _ _).subset hentry, hblocks⟩

end

/-! ## Views -/

/-- The records of a table, given those in memory. -/
def Table.decoded (tkvSize : Nat) (storage : Storage) (mem : Option (List Record)) (table : Table) :
    TableView where
  partitions := table.partitions.map fun archive => decode tkvSize storage archive.blocks
  tmps := (existingTmps table.tmps).map fun archive => decode tkvSize storage archive.blocks
  mem := mem

/-- The records of an element of `mem_table`. -/
def MemTable.records (table : MemTable) : List Record := table.tkvs.filterMap convertRecord

/-- The records a table has in `mem_table`. -/
def memRecords (memTable : List MemTable) (name : Bytes) : Option (List Record) :=
  (memTable.find? fun table => table.name = name).map MemTable.records

/-- The records of a table. -/
def Filesystem.view (config : FsConfig) (fs : Filesystem) (name : Bytes) : Option TableView :=
  (fs.tables.lookup name).map fun table =>
    table.decoded config.tkvSize fs.storage (memRecords fs.memTable name)

/-- A table as it is when no compaction runs. -/
structure Table.Tidy (table : Table) : Prop where
  noGap : NoGap table.tmps
  noTmpc : table.tmpc = none

/-- The storage holds the archives of all tables, and the tables are tidy. -/
structure Sound (config : FsConfig) (fs : Filesystem) : Prop where
  holds : Holds config.tkvSize fs.storage (ownedBy fs.tables)
  tidy : ∀ name table, fs.tables.lookup name = some table → table.Tidy

section
variable {tkvSize : Nat} {storage after : Storage} {config : FsConfig} {fs : Filesystem}
  {name other : Bytes} {table table' : Table}

theorem Table.decoded_keeps (mem : Option (List Record)) (hkeeps : Keeps storage after table.owned)
    (hintact : ∀ blocks ∈ table.owned, Intact tkvSize storage blocks) :
    table.decoded tkvSize after mem = table.decoded tkvSize storage mem := by
  have hdecode : ∀ archive ∈ table.partitions ++ existingTmps table.tmps,
      decode tkvSize after archive.blocks = decode tkvSize storage archive.blocks := by
    intro archive hmem
    have howned : archive.blocks ∈ table.owned := List.mem_map_of_mem hmem
    exact hkeeps.decode_eq howned (hintact _ howned)
  rw [Table.decoded, Table.decoded]
  congr 1
  · exact List.map_congr_left fun archive hmem => hdecode archive (List.mem_append_left _ hmem)
  · exact List.map_congr_left fun archive hmem => hdecode archive (List.mem_append_right _ hmem)

theorem view_eq_none_iff : fs.view config name = none ↔ fs.tables.lookup name = none := by
  simp [Filesystem.view]

theorem view_some (h : fs.tables.lookup name = some table) : fs.view config name =
    some (table.decoded config.tkvSize fs.storage (memRecords fs.memTable name)) := by
  rw [Filesystem.view, h]
  rfl

/-- The views of tables whose archives were left alone. -/
theorem view_keeps {fs' : Filesystem} (h : Sound config fs)
    (hlookup : fs'.tables.lookup other = fs.tables.lookup other)
    (hmem : memRecords fs'.memTable other = memRecords fs.memTable other)
    (hkeeps : ∀ table, fs.tables.lookup other = some table →
      Keeps fs.storage fs'.storage table.owned) :
    fs'.view config other = fs.view config other := by
  rw [Filesystem.view, Filesystem.view, hlookup, hmem]
  cases htable : fs.tables.lookup other with
  | none => rfl
  | some table =>
    rw [Option.map_some, Option.map_some, Table.decoded_keeps _ (hkeeps table htable)]
    exact fun blocks hblocks => h.holds.intact blocks (owned_subset htable hblocks)

/-- **One table at a time.**  A table gets new archives and the others keep theirs. -/
theorem Sound.setTable (h : Sound config fs) (name : Bytes) (table' : Table)
    (hholds : Holds config.tkvSize after (table'.owned ++ ownedBy (fs.tables.erase name)))
    (hkeeps : Keeps fs.storage after (ownedBy (fs.tables.erase name))) (htidy : table'.Tidy) :
    Sound config { fs with storage := after, tables := fs.tables.insert name table' } ∧
      ∀ other, Filesystem.view config
          { fs with storage := after, tables := fs.tables.insert name table' } other =
        if other = name then
          some (table'.decoded config.tkvSize after (memRecords fs.memTable other))
        else fs.view config other := by
  refine ⟨⟨hholds, fun other table hlookup => ?_⟩, fun other => ?_⟩
  · rcases lookup_insert_cases hlookup with ⟨-, rfl⟩ | ⟨-, hold⟩
    · exact htidy
    · exact h.tidy other table hold
  · by_cases hname : other = name
    · subst hname
      rw [if_pos rfl]
      exact view_some (AList.lookup_insert fs.tables)
    · rw [if_neg hname]
      exact view_keeps h (AList.lookup_insert_ne hname) rfl fun table htable =>
        hkeeps.subset (owned_subset_erase htable hname)

end

end Lissandra
