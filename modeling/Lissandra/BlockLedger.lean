import Lissandra.Runs
import Lissandra.TablesDirectory
import Mathlib.Data.List.ReduceOption

/-! # The ledger of blocks

Whatever the archives hold, the blocks they list and the free ones are together all the
blocks that the bitmap knows, each once: the list is `Accounted` for.  A search for a free
block that failed leaves block number 0 in the list, which no bitmap knows and which is
left out.  Taking free blocks and freeing listed ones keep it so, and keep the free blocks
empty (`Stocked`), whether they are taken one by one by the writer of a dump or of a
partition, or several at a time by a CREATE.

So in every run of CREATEs, dumps of tables, compactions and DROPs in which no search
failed the archives own exactly the blocks whose bit is set (`ledger_of_run`), unless a CREATE
makes a directory that is no entry of the tables directory: nobody frees the blocks of its
archives (`ledger_not_of_path`).
-/
namespace Lissandra

/-! ## All blocks, each once -/

/-- The listed blocks and the free ones are the blocks from 1 to the number of bits. -/
def Accounted (bitmap : List Bool) (listed : List Nat) : Prop :=
  (listed.filter (· ≠ 0) ++ availableBlocks bitmap).Perm (List.range' 1 bitmap.length)

section Accounted
variable {bitmap after : List Bool} {listed taken : List Nat} {b : Nat}

theorem availableFrom_formatted (start count : Nat) :
    availableFrom start (List.replicate count false) = List.range' (start + 1) count := by
  induction count generalizing start with
  | zero => rfl
  | succ count ih =>
    rw [List.replicate_succ, availableFrom, if_neg (by decide), ih, List.range'_succ]

theorem accounted_formatted (count : Nat) : Accounted (List.replicate count false) [] := by
  rw [Accounted, List.filter_nil, List.nil_append, availableBlocks, availableFrom_formatted,
    List.length_replicate]

theorem filter_ne_zero (h : 0 ∉ listed) : listed.filter (· ≠ 0) = listed :=
  List.filter_eq_self.mpr fun _ hb => decide_eq_true (ne_of_mem_of_not_mem hb h)

theorem Accounted.nodup (h : Accounted bitmap listed) :
    (listed.filter (· ≠ 0) ++ availableBlocks bitmap).Nodup :=
  h.nodup_iff.mpr (List.nodup_range' (h := by decide))

theorem Accounted.not_free (h : Accounted bitmap listed) (hb : b ∈ listed) :
    b ∉ availableBlocks bitmap := by
  intro hfree
  have hzero : b ≠ 0 := ne_of_mem_of_not_mem hfree (zero_not_mem_availableBlocks bitmap)
  exact (List.nodup_append.mp h.nodup).2.2 b (List.mem_filter.mpr ⟨hb, decide_eq_true hzero⟩) b
    hfree rfl

theorem Accounted.range (h : Accounted bitmap listed) (hb : b ∈ listed) (hzero : b ≠ 0) :
    1 ≤ b ∧ b ≤ bitmap.length := by
  have hmem := h.mem_iff.mp
    (List.mem_append_left _ (List.mem_filter.mpr ⟨hb, decide_eq_true hzero⟩))
  rw [List.mem_range'_1] at hmem
  omega

/-- **The listed blocks are those whose bit is set.** -/
theorem Accounted.mem_iff_set (h : Accounted bitmap listed) (i : Nat) :
    i + 1 ∈ listed ↔ bitmap[i]? = some true := by
  constructor
  · intro hmem
    have hlt : i < bitmap.length := by
      have := h.range hmem (Nat.succ_ne_zero i)
      omega
    rw [List.getElem?_eq_getElem hlt, Option.some.injEq]
    by_contra hclear
    refine h.not_free hmem (mem_availableBlocks.mpr ⟨i, rfl, ?_⟩)
    rw [List.getElem?_eq_getElem hlt, eq_false_of_ne_true hclear]
  · intro hset
    obtain ⟨hlt, -⟩ := List.getElem?_eq_some_iff.mp hset
    have hall : i + 1 ∈ listed.filter (· ≠ 0) ++ availableBlocks bitmap :=
      h.mem_iff.mpr (List.mem_range'_1.mpr (by omega))
    rcases List.mem_append.mp hall with hmem | hmem
    · exact (List.mem_filter.mp hmem).1
    · obtain ⟨j, hj, hclear⟩ := mem_availableBlocks.mp hmem
      obtain rfl : i = j := by omega
      rw [hset] at hclear
      exact absurd hclear (by decide)

theorem Accounted.perm {other : List Nat} (h : Accounted bitmap listed)
    (hperm : listed.Perm other) : Accounted bitmap other :=
  ((hperm.symm.filter _).append_right _).trans h

/-- Two parts of the list have no block in common. -/
theorem Accounted.disjoint {other : List Nat} (h : Accounted bitmap (listed ++ other))
    (hb : b ∈ listed) (hzero : b ≠ 0) : b ∉ other := by
  intro hmem
  have hnodup := (List.nodup_append.mp h.nodup).1
  rw [List.filter_append] at hnodup
  exact (List.nodup_append.mp hnodup).2.2 b (List.mem_filter.mpr ⟨hb, decide_eq_true hzero⟩) b
    (List.mem_filter.mpr ⟨hmem, decide_eq_true hzero⟩) rfl

/-- Free blocks that are listed from now on. -/
theorem Accounted.take (h : Accounted bitmap listed)
    (hfree : availableBlocks bitmap = taken.filter (· ≠ 0) ++ availableBlocks after)
    (hlength : after.length = bitmap.length) : Accounted after (taken ++ listed) := by
  rw [Accounted, hlength]
  refine List.Perm.trans ?_ h
  rw [hfree, List.filter_append, ← List.append_assoc]
  exact List.perm_append_comm.append_right _

/-- A listed block that is free from now on. -/
theorem Accounted.clear {i : Nat} (h : Accounted bitmap ((i + 1) :: listed)) :
    Accounted (bitmap.set i false) listed := by
  have hlt : i < bitmap.length := by
    have := h.range List.mem_cons_self (Nat.succ_ne_zero i)
    omega
  have hfree : (availableBlocks (bitmap.set i false)).Perm ((i + 1) :: availableBlocks bitmap) := by
    refine (List.perm_ext_iff_of_nodup (availableBlocks_nodup _) ?_).mpr fun b => ?_
    · exact List.nodup_cons.mpr ⟨h.not_free List.mem_cons_self, availableBlocks_nodup _⟩
    · rw [List.mem_cons, mem_availableBlocks, mem_availableBlocks]
      constructor
      · rintro ⟨j, rfl, hj⟩
        by_cases heq : j = i
        · exact Or.inl (by rw [heq])
        · exact Or.inr ⟨j, rfl, by rwa [List.getElem?_set_ne (Ne.symm heq)] at hj⟩
      · rintro (rfl | ⟨j, rfl, hj⟩)
        · exact ⟨i, rfl, List.getElem?_set_self hlt⟩
        · refine ⟨j, rfl, ?_⟩
          by_cases heq : j = i
          · rw [heq, List.getElem?_set_self hlt]
          · rwa [List.getElem?_set_ne (Ne.symm heq)]
  have hcons : ((i + 1) :: listed).filter (· ≠ 0) = (i + 1) :: listed.filter (· ≠ 0) :=
    List.filter_cons_of_pos (by simp)
  rw [Accounted, hcons] at h
  rw [Accounted, List.length_set]
  exact ((hfree.append_left _).trans List.perm_middle).trans h

end Accounted

/-! ## The operations on the storage -/

/-- The list is accounted for, and what is free is empty. -/
structure Stocked (storage : Storage) (listed : List Nat) : Prop where
  accounted : Accounted storage.bitmap listed
  clean : ∀ b ∈ availableBlocks storage.bitmap, storage.block b = []

/-- The blocks of this list hold what they held, but for block number 0. -/
def Leaves (storage after : Storage) (listed : List Nat) : Prop :=
  ∀ b ∈ listed, b ≠ 0 → after.block b = storage.block b

section Storage
variable {storage after : Storage} {listed blocks : List Nat} {archive : Archive}
  {archives : List Archive} {tkvs : List Bytes} {b : Nat}

theorem Leaves.trans {last : Storage} (h : Leaves storage after listed)
    (h' : Leaves after last listed) : Leaves storage last listed :=
  fun b hb hzero => (h' b hb hzero).trans (h b hb hzero)

theorem Leaves.subset {more : List Nat} (h : Leaves storage after more) (hsub : listed ⊆ more) :
    Leaves storage after listed := fun b hb hzero => h b (hsub hb) hzero

theorem Stocked.perm {other : List Nat} (h : Stocked storage listed) (hperm : listed.Perm other) :
    Stocked storage other := ⟨h.accounted.perm hperm, h.clean⟩

theorem Stocked.freeBlock (h : Stocked storage (b :: listed))
    (hrun : Lissandra.freeBlock storage b = some after) :
    Stocked after listed ∧ Leaves storage after listed := by
  rw [Lissandra.freeBlock] at hrun
  split at hrun
  · exact absurd hrun (by simp)
  · obtain rfl := Option.some.inj hrun
    obtain ⟨i, rfl⟩ : ∃ i, b = i + 1 := ⟨b - 1, by omega⟩
    refine ⟨⟨h.accounted.clear, fun c hc => ?_⟩, fun c hc hzero => ?_⟩
    · by_cases heq : c = i + 1
      · rw [heq]
        exact Function.update_self ..
      · refine (Function.update_of_ne heq _ _).trans (h.clean c ?_)
        obtain ⟨j, rfl, hj⟩ := mem_availableBlocks.mp hc
        have hne : i ≠ j := fun hij => heq (by rw [hij])
        exact mem_availableBlocks.mpr ⟨j, rfl, by
          rwa [Nat.add_sub_cancel, List.getElem?_set_ne hne] at hj⟩
    · refine Function.update_of_ne (fun heq => ?_) _ _
      have hfirst : Accounted storage.bitmap ([i + 1] ++ listed) := h.accounted
      exact hfirst.disjoint List.mem_cons_self (Nat.succ_ne_zero i) (heq ▸ hc)

theorem Stocked.freeBlocks (h : Stocked storage (blocks ++ listed))
    (hrun : blocks.foldlM Lissandra.freeBlock storage = some after) :
    Stocked after listed ∧ Leaves storage after listed := by
  induction blocks generalizing storage with
  | nil =>
    obtain rfl := Option.some.inj hrun
    exact ⟨h, fun _ _ _ => rfl⟩
  | cons b rest ih =>
    rw [List.foldlM_cons] at hrun
    obtain ⟨middle, hone, hrest⟩ := Option.bind_eq_some_iff.mp hrun
    obtain ⟨hstocked, hleaves⟩ := h.freeBlock hone
    obtain ⟨hstocked', hleaves'⟩ := ih hstocked hrest
    exact ⟨hstocked', (hleaves.subset (List.subset_append_right _ _)).trans hleaves'⟩

theorem Stocked.freeArchives (h : Stocked storage (archives.flatMap Archive.blocks ++ listed))
    (hrun : archives.foldlM freeBlocksOfFsArchive storage = some after) :
    Stocked after listed ∧ Leaves storage after listed := by
  induction archives generalizing storage with
  | nil =>
    obtain rfl := Option.some.inj hrun
    exact ⟨h, fun _ _ _ => rfl⟩
  | cons archive archives ih =>
    rw [List.foldlM_cons] at hrun
    obtain ⟨middle, hone, hrest⟩ := Option.bind_eq_some_iff.mp hrun
    rw [List.flatMap_cons, List.append_assoc] at h
    obtain ⟨hstocked, hleaves⟩ := h.freeBlocks hone
    obtain ⟨hstocked', hleaves'⟩ := ih hstocked hrest
    exact ⟨hstocked', (hleaves.subset (List.subset_append_right _ _)).trans hleaves'⟩

theorem Stocked.dumpTable (h : Stocked storage listed)
    (hrun : Lissandra.dumpTable storage tkvs = some (after, archive)) :
    Stocked after (archive.blocks ++ listed) ∧ Leaves storage after listed := by
  obtain ⟨⟨after', blocks⟩, hwrite, heq⟩ := Option.bind_eq_some_iff.mp hrun
  obtain ⟨rfl, rfl⟩ := Prod.mk.inj (Option.some.inj heq)
  obtain ⟨hfree, hlength⟩ := took_of_writeTkvs hwrite
  have hframe := frame_of_writeTkvs hwrite
  have hacc := h.accounted.take hfree hlength
  refine ⟨⟨hacc, fun b hb => ?_⟩, fun b hb hzero => hframe b fun hmem => ?_⟩
  · rw [hframe b fun hmem => hacc.not_free (List.mem_append_left _ hmem) hb]
    exact h.clean b (hfree ▸ List.mem_append_right _ hb)
  · exact hacc.disjoint hmem hzero hb

theorem Stocked.createNewPartitions {partitionTkvs : List (List Record)}
    (h : Stocked storage listed) (hrun : Lissandra.createNewPartitions storage partitionTkvs =
      some (after, archives)) :
    Stocked after (archives.flatMap Archive.blocks ++ listed) ∧ Leaves storage after listed := by
  induction partitionTkvs generalizing storage archives listed with
  | nil =>
    obtain ⟨rfl, rfl⟩ := Prod.mk.inj (Option.some.inj hrun)
    exact ⟨h, fun _ _ _ => rfl⟩
  | cons partition rest ih =>
    obtain ⟨storage₁, archive, archives', hone, hrest, rfl⟩ := createNewPartitions_cons hrun
    obtain ⟨hstocked, hleaves⟩ := h.dumpTable hone
    obtain ⟨hstocked', hleaves'⟩ := ih hstocked hrest
    refine ⟨hstocked'.perm ?_, hleaves.trans (hleaves'.subset (List.subset_append_right _ _))⟩
    rw [List.flatMap_cons, ← List.append_assoc]
    exact List.perm_append_comm.append_right _

theorem Stocked.mark {taken : List Nat} {bitmap : List Bool} (h : Stocked storage listed)
    (hmarked : Marked storage taken bitmap) :
    Stocked { storage with bitmap } (taken ++ listed) := by
  have hzero : 0 ∉ taken := fun hmem => zero_not_mem_availableBlocks storage.bitmap
    (hmarked.free_eq ▸ List.mem_append_left _ hmem)
  refine ⟨h.accounted.take ?_ hmarked.length_eq, fun b hb => h.clean b ?_⟩
  · rw [filter_ne_zero hzero]
    exact hmarked.free_eq
  · rw [hmarked.free_eq]
    exact List.mem_append_right _ hb

end Storage

/-! ## The tables -/

/-- Every archive in the directory of a table, whether or not its number can be reached. -/
def Table.archives (table : Table) : List Archive :=
  table.partitions ++ table.tmps.reduceOption ++ table.tmpc.toList

/-- The blocks that the archives of the tables list. -/
def Filesystem.listedBlocks (fs : Filesystem) : List Nat :=
  fs.tables.entries.flatMap fun entry => entry.2.archives.flatMap Archive.blocks

/-- The blocks are accounted for, and every archive can be reached by its number. -/
structure Ledger (fs : Filesystem) : Prop where
  stocked : Stocked fs.storage (ownedBy fs.tables).flatten
  tidy : ∀ name table, fs.tables.lookup name = some table → table.Tidy

section Tables
variable {config : FsConfig} {fs fs' : Filesystem} {name : Bytes} {table table' : Table}

theorem Table.owned_flatten (table : Table) :
    table.owned.flatten = (table.partitions ++ existingTmps table.tmps).flatMap Archive.blocks := by
  rw [Table.owned, List.flatMap_def]

theorem Table.Tidy.archives_eq (h : table.Tidy) :
    table.archives = table.partitions ++ existingTmps table.tmps := by
  obtain ⟨k, hk⟩ := h.noGap
  have htmps : table.tmps.reduceOption = existingTmps table.tmps := by
    conv_lhs => rw [hk]
    rw [List.reduceOption_append, List.reduceOption_replicate_none, List.append_nil,
      List.reduceOption, List.filterMap_map, Function.id_comp, List.filterMap_some]
  rw [Table.archives, h.noTmpc, htmps, Option.toList_none, List.append_nil]

theorem Ledger.listedBlocks_eq (h : Ledger fs) : fs.listedBlocks = (ownedBy fs.tables).flatten := by
  rw [Filesystem.listedBlocks, ownedBy, List.flatten_eq_flatMap, List.flatMap_assoc]
  refine List.flatMap_congr fun entry hentry => ?_
  have hlookup : fs.tables.lookup entry.1 = some entry.2 := AList.mem_lookup_iff.mpr hentry
  rw [(h.tidy _ _ hlookup).archives_eq, ← Table.owned_flatten, List.flatten_eq_flatMap]

theorem ownedBy_flatten_perm (h : fs.tables.lookup name = some table) :
    (ownedBy fs.tables).flatten.Perm
      ((table.partitions ++ existingTmps table.tmps).flatMap Archive.blocks ++
        (ownedBy (fs.tables.erase name)).flatten) := by
  rw [← Table.owned_flatten, ← List.flatten_append]
  exact (ownedBy_perm h).flatten

/-- One table gets other archives. -/
theorem Ledger.setTable {storage : Storage} (h : Ledger fs) (htidy : table'.Tidy)
    (hstocked : Stocked storage (table'.owned.flatten ++
      (ownedBy (fs.tables.erase name)).flatten)) :
    Ledger { fs with storage, tables := fs.tables.insert name table' } := by
  refine ⟨?_, fun other table hlookup => ?_⟩
  · change Stocked storage (ownedBy (fs.tables.insert name table')).flatten
    rwa [ownedBy_insert, List.flatten_append]
  · rcases lookup_insert_cases hlookup with ⟨-, rfl⟩ | ⟨-, hold⟩
    · exact htidy
    · exact h.tidy other table hold

theorem ledger_formatted (blockSize blocks : Nat) :
    Ledger (Filesystem.formatted blockSize blocks) where
  stocked := ⟨accounted_formatted blocks, fun _ _ => rfl⟩
  tidy _ _ h := absurd h (by simp [Filesystem.formatted])

/-- The tables other than this one are as they were, and so are their blocks. -/
structure Spares (name : Bytes) (fs fs' : Filesystem) : Prop where
  lookup : ∀ other, other ≠ name → fs'.tables.lookup other = fs.tables.lookup other
  leaves : Leaves fs.storage fs'.storage (ownedBy (fs.tables.erase name)).flatten

theorem Spares.refl (name : Bytes) (fs : Filesystem) : Spares name fs fs :=
  ⟨fun _ _ => rfl, fun _ _ _ => rfl⟩

/-- A CREATE keeps the blocks it took only if it makes the table. -/
theorem Ledger.create {input : CreateInput} {status : Int32} (h : Ledger fs)
    (hrun : processCreate input fs = some (status, fs')) :
    Ledger fs' ∧ Spares (toUppercase input.tableName.bytes) fs fs' := by
  rcases processCreate_cases hrun with ⟨-, rfl⟩ | ⟨-, hnew, taken, bitmap, hmarked, -, rfl⟩
  · exact ⟨h, .refl _ _⟩
  refine ⟨@Ledger.setTable _ _ _ { fs.storage with bitmap } h ⟨⟨0, rfl⟩, rfl⟩ ?_,
    fun other hne => AList.lookup_insert_ne hne, fun _ _ _ => rfl⟩
  have hstocked := h.stocked.mark hmarked
  rw [ownedBy_erase_of_lookup_none hnew, Table.owned_flatten]
  simpa [existingTmps, List.flatMap_map] using hstocked

theorem Ledger.dumpOne {memTable : MemTable} (h : Ledger fs)
    (hrun : Lissandra.dumpOne fs memTable = some fs') :
    Ledger fs' ∧ Spares (toUppercase memTable.name) fs fs' := by
  obtain ⟨storage, archive, directory, hdump, hlookup, rfl⟩ := dumpOne_cases hrun
  have htidy := h.tidy _ _ hlookup
  obtain ⟨hgap, htmps⟩ := htidy.noGap.addTmp archive
  let directory' : Table := { directory with tmps := addTmp archive directory.tmps }
  have howned : directory'.owned.flatten =
      (directory.partitions ++ existingTmps directory.tmps).flatMap Archive.blocks ++
      archive.blocks := by
    rw [Table.owned_flatten, htmps, ← List.append_assoc, List.flatMap_append,
      List.flatMap_singleton]
  have hperm := ownedBy_flatten_perm hlookup
  obtain ⟨hstocked, hleaves⟩ := (h.stocked.perm hperm).dumpTable hdump
  refine ⟨h.setTable ⟨hgap, htidy.noTmpc⟩ (howned ▸ hstocked.perm ?_),
    fun other hne => AList.lookup_insert_ne hne, hleaves.subset (List.subset_append_right _ _)⟩
  exact (List.perm_append_comm_assoc _ _ _).trans (List.append_assoc _ _ _ ▸ List.Perm.refl _)

theorem Ledger.drop {input : DropInput} {status : Int32} (h : Ledger fs)
    (hrun : processDrop input fs = some (status, fs')) :
    Ledger fs' ∧ Spares (toUppercase input.tableName.bytes) fs fs' := by
  rcases processDrop_eq_some hrun with
    ⟨-, rfl, -⟩ | ⟨table, storage₁, storage₂, -, hlookup, hpartitions, htmps, rfl⟩
  · exact ⟨h, .refl _ _⟩
  · have hstocked := h.stocked.perm (ownedBy_flatten_perm hlookup)
    rw [List.flatMap_append, List.append_assoc] at hstocked
    obtain ⟨hstocked₁, hleaves₁⟩ := hstocked.freeArchives hpartitions
    obtain ⟨hstocked₂, hleaves₂⟩ := hstocked₁.freeArchives htmps
    refine ⟨⟨hstocked₂, fun name other hother => ?_⟩, fun other hne => AList.lookup_erase_ne hne,
      (hleaves₁.subset (List.subset_append_right _ _)).trans hleaves₂⟩
    by_cases hname : name = toUppercase input.tableName.bytes
    · rw [hname, AList.lookup_erase] at hother
      exact absurd hother (by simp)
    · rw [AList.lookup_erase_ne hname] at hother
      exact h.tidy name other hother

theorem Ledger.compaction (h : Ledger fs) (hrun : Lissandra.compaction config name fs = some fs') :
    Ledger fs' ∧ Spares name fs fs' := by
  rcases compaction_of_noTmpc hrun fun table hlookup => (h.tidy _ _ hlookup).noTmpc with
    ⟨rfl, -⟩ | ⟨table, hlookup, -, hstart⟩
  · exact ⟨h, .refl _ _⟩
  · have htidy := h.tidy _ _ hlookup
    obtain ⟨partitionTkvs, freed, table₁, after, archives, -, hfree, hcreate, rfl⟩ :=
      startCompaction_eq_some hstart
    obtain ⟨storage₁, hpartitions, hfree⟩ := Option.bind_eq_some_iff.mp hfree
    rw [if_pos rfl] at hfree
    obtain ⟨storage₂, htmps, hfree⟩ := Option.bind_eq_some_iff.mp hfree
    obtain ⟨rfl, rfl⟩ := Prod.mk.inj (Option.some.inj hfree)
    obtain ⟨hgap, hnone⟩ := htidy.noGap.destroyAllTmps
    have howned : ∀ c t, (Table.mk c t archives (destroyAllTmps table.tmps) none).owned.flatten =
        archives.flatMap Archive.blocks := by
      intro c t
      rw [Table.owned_flatten, hnone, List.append_nil]
    have hstocked := h.stocked.perm (ownedBy_flatten_perm hlookup)
    rw [List.flatMap_append, List.append_assoc] at hstocked
    obtain ⟨hstocked₁, hleaves₁⟩ := hstocked.freeArchives hpartitions
    obtain ⟨hstocked₂, hleaves₂⟩ := hstocked₁.freeArchives htmps
    obtain ⟨hstocked₃, hleaves₃⟩ := hstocked₂.createNewPartitions hcreate
    refine ⟨h.setTable ⟨hgap, rfl⟩ ((howned _ _).symm ▸ hstocked₃),
      fun other hne => AList.lookup_insert_ne hne, ?_⟩
    exact ((hleaves₁.subset (List.subset_append_right _ _)).trans hleaves₂).trans hleaves₃

end Tables

/-! ## Runs -/

/-- An operation that takes or frees blocks.  A dump is taken table by table, with whatever
texts the memtable has, and each table is one that exists. -/
inductive BlockOp where
  | create (path : Mkdir) (input : CreateInput)
  | dumpTable (table : MemTable)
  | compaction (name : Bytes)
  | drop (input : DropInput)

/-- The operation, executed alone. -/
def BlockOp.step (config : FsConfig) (directory : TablesDirectory) :
    BlockOp → Option TablesDirectory
  | .create path input => (directory.processCreate path input).map Prod.snd
  | .dumpTable table => (dumpOne directory.toFilesystem table).map fun fs =>
      { directory with toFilesystem := fs }
  | .compaction name => directory.compaction config name
  | .drop input => (directory.processDrop input).map Prod.snd

/-- If a CREATE makes a directory it is an entry of the tables directory. -/
def BlockOp.InTables (directory : TablesDirectory) : BlockOp → Prop
  | .create path input => directory.mkdir input.tableName path ≠ .elsewhere
  | _ => True

instance (directory : TablesDirectory) : DecidablePred (BlockOp.InTables directory)
  | .create path input => inferInstanceAs (Decidable (directory.mkdir input.tableName path ≠ _))
  | .dumpTable _ | .compaction _ | .drop _ => isTrue trivial

section Runs
variable {config : FsConfig} {blockSize blocks : Nat} {directory directory' : TablesDirectory}

theorem Ledger.step {op : BlockOp} (h : Ledger directory.toFilesystem) (hin : op.InTables directory)
    (hrun : op.step config directory = some directory') : Ledger directory'.toFilesystem := by
  cases op with
  | create path input =>
    obtain ⟨⟨status, directory₁⟩, hcreate, rfl⟩ := Option.map_eq_some_iff.mp hrun
    rcases TablesDirectory.processCreate_cases hcreate with
      ⟨-, rfl⟩ | ⟨-, name, fs, -, hcreated, rfl⟩ | ⟨-, helsewhere, -⟩
    · exact h
    · exact (h.create hcreated).1
    · exact absurd helsewhere hin
  | dumpTable table =>
    obtain ⟨fs, hdump, rfl⟩ := Option.map_eq_some_iff.mp hrun
    exact (h.dumpOne hdump).1
  | compaction name =>
    obtain ⟨fs, hcompaction, rfl⟩ := Option.map_eq_some_iff.mp hrun
    exact (h.compaction hcompaction).1
  | drop input =>
    obtain ⟨⟨status, directory₁⟩, hprocess, rfl⟩ := Option.map_eq_some_iff.mp hrun
    obtain ⟨-, hmap⟩ := Option.ite_none_left_eq_some.mp hprocess
    obtain ⟨⟨status', fs⟩, hdrop, heq⟩ := Option.map_eq_some_iff.mp hmap
    obtain ⟨rfl, rfl⟩ := Prod.mk.inj heq
    exact (h.drop hdrop).1

/-- No block is listed twice, the listed blocks have bits, and they are exactly those whose bit
is set. -/
structure OwnsMarked (fs : Filesystem) : Prop where
  nodup : fs.listedBlocks.Nodup
  range : ∀ b ∈ fs.listedBlocks, 1 ≤ b ∧ b ≤ fs.storage.bitmap.length
  marked : ∀ i, fs.storage.bitmap[i]? = some true ↔ i + 1 ∈ fs.listedBlocks

/-- **The archives own what the bitmap says**, in every state of a run whose CREATEs make
directories in the tables directory only, and in which no search for a free block failed, so that
no archive lists block number 0. -/
theorem ledger_of_run
    (h : Run (fun directory (op : BlockOp) => op.step config directory)
      (fun directory op directory' => op.InTables directory ∧ directory'.Allocated)
      (Filesystem.formatted blockSize blocks).mounted directory) :
    OwnsMarked directory.toFilesystem := by
  have halloc : directory.Allocated :=
    h.invariant (P := fun directory : TablesDirectory => directory.Allocated) List.not_mem_nil
      fun _ _ _ _ _ hallowed => hallowed.2
  have hledger : Ledger directory.toFilesystem :=
    h.invariant (P := fun directory : TablesDirectory => Ledger directory.toFilesystem)
      (ledger_formatted blockSize blocks)
      fun _ _ _ hledger hrun hallowed => hledger.step hallowed.1 hrun
  have hacc := hledger.stocked.accounted
  have hlisted := hledger.listedBlocks_eq
  refine ⟨?_, fun b hb => ?_, fun i => ?_⟩
  · have hnodup := (List.nodup_append.mp hacc.nodup).1
    rwa [filter_ne_zero halloc, ← hlisted] at hnodup
  · rw [hlisted] at hb
    exact hacc.range hb (ne_of_mem_of_not_mem hb halloc)
  · rw [hlisted]
    exact (hacc.mem_iff_set i).symm

end Runs

/-- A table is dumped twice, created once more in vain, compacted, and another one dropped. -/
def compactedOnce : List BlockOp :=
  [.create (.entry (.ofBytes [84])) ⟨.ofBytes [84], .strongConsistency, 2, 1000⟩,
    .create (.entry (.ofBytes [85])) ⟨.ofBytes [85], .strongConsistency, 1, 1000⟩,
    .dumpTable ⟨[84], [[49, 48, 59, 49, 59, 97], [49, 49, 59, 50, 59, 98]]⟩,
    .dumpTable ⟨[84], [[49, 50, 59, 49, 59, 99]]⟩,
    .create (.entry (.ofBytes [116])) ⟨.ofBytes [116], .strongConsistency, 3, 1000⟩,
    .dumpTable ⟨[85], [[49, 51, 59, 55, 59, 100]]⟩,
    .compaction [84],
    .drop ⟨.ofBytes [85]⟩]

/-- Runs whose CREATEs stay in the tables directory. -/
def runBlockOps (ops : List BlockOp) : Option TablesDirectory :=
  runSteps (fun directory (op : BlockOp) => op.step ⟨32, 8⟩ directory)
    (fun directory op directory' => op.InTables directory ∧ directory'.Allocated)
    (Filesystem.formatted 8 16).mounted ops

theorem compactedOnce_runs : (runBlockOps compactedOnce).isSome := by
  decide +kernel

theorem ledger_of_run_compactedOnce :
    OwnsMarked ((runBlockOps compactedOnce).get compactedOnce_runs).toFilesystem :=
  ledger_of_run (run_of_runSteps (Option.some_get compactedOnce_runs).symm)

/-- `CREATE T SC 1 1000`, `CREATE T/Y SC 1 1000`, whose directory is made inside that of T, and
`DROP T`. -/
def droppedPath : List BlockOp :=
  [.create (.entry (.ofBytes [84])) ⟨.ofBytes [84], .strongConsistency, 1, 1000⟩,
    .create .elsewhere ⟨.ofBytes [84, 47, 89], .strongConsistency, 1, 1000⟩,
    .drop ⟨.ofBytes [84]⟩]

theorem droppedPath_runs : (runSteps (fun directory (op : BlockOp) => op.step ⟨32, 8⟩ directory)
    (fun _ _ directory' => directory'.Allocated) (Filesystem.formatted 8 16).mounted
    droppedPath).isSome := by
  decide +kernel

/-- No table is left, and the block of T/Y is still marked. -/
theorem ledger_not_of_path :
    ¬ ∀ (config : FsConfig) (blockSize blocks : Nat) (directory : TablesDirectory),
      Run (fun directory (op : BlockOp) => op.step config directory)
        (fun _ _ directory' => directory'.Allocated)
        (Filesystem.formatted blockSize blocks).mounted directory →
      OwnsMarked directory.toFilesystem := by
  intro hclaim
  have howns := hclaim ⟨32, 8⟩ 8 16 _
    (run_of_runSteps (Option.some_get droppedPath_runs).symm)
  have hmarked := (howns.marked 1).mp (by decide +kernel)
  exact absurd hmarked (by decide +kernel)

end Lissandra
