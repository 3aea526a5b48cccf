import Lissandra.CompactionFiles
import Lissandra.DropLeftovers

/-! # A compaction that is interrupted

The process can exit between any two file operations of a compaction.  A restart finds the
files as they were left, and the next compaction of the table reads A1.tmpc if it is there.

That repairs the table as long as nothing was freed.  But `start_compaction` empties the
blocks of every partition, and then those of the temporary archives, before it writes the
first new partition, and until then the merged records are in memory only.  So after the
first partition was emptied its records survive only where the temporary archives have
newer ones (`interrupted_recovers`); `interrupted_loses` is a table where they do not.
-/
namespace Lissandra

/-! ## The view with partitions emptied -/

namespace TableView

/-- The first `i` partitions have no records. -/
def wiped (view : TableView) (i : Nat) : TableView :=
  { view with partitions := view.partitions.mapIdx fun j p => if j < i then [] else p }

/-- Every record of the first `i` partitions has one in the temporary archives of the same
key that is at least as new. -/
def Outlived (view : TableView) (i : Nat) : Prop :=
  ∀ record ∈ (view.partitions.take i).flatten,
    ∃ newer ∈ ofKey record.key view.tmps.flatten, time record ≤ time newer

/-- The greatest timestamp stored for a key. -/
def greatest (view : TableView) (key : UInt16) : Option Int := (view.stored key).map time

variable {view : TableView} {i : Nat}

@[simp] theorem length_wiped : (view.wiped i).partitions.length = view.partitions.length :=
  List.length_mapIdx

theorem Routed.wiped (h : view.Routed) : (view.wiped i).Routed := by
  intro j p hp
  simp only [TableView.wiped, List.getElem?_mapIdx] at hp
  obtain ⟨old, hold, rfl⟩ := Option.map_eq_some_iff.mp hp
  rw [length_wiped]
  split
  · exact ⟨List.nodup_nil, fun _ hmem => absurd hmem List.not_mem_nil⟩
  · exact h j old hold

theorem partitionOf_wiped (key : UInt16) : (view.wiped i).partitionOf key =
    if route view.partitions.length key < i then [] else view.partitionOf key := by
  rw [partitionOf, length_wiped, partitionOf]
  simp only [wiped, List.getElem?_mapIdx]
  cases view.partitions[route view.partitions.length key]? with
  | none => simp
  | some p => split <;> rfl

/-- The temporary archives stay: compacting them twice is compacting them once. -/
theorem later_later_right {α β : Type} [LinearOrder β] (f : α → β) (a b : Option α) :
    later f (later f a b) b = later f a b := by
  refine later_of_le fun y hy => ?_
  obtain rfl := hy
  cases a with
  | none => exact ⟨y, by simp, le_rfl⟩
  | some x =>
    rw [later_some_some]
    split
    · exact ⟨y, rfl, le_rfl⟩
    · exact ⟨x, rfl, not_lt.mp ‹_›⟩

theorem stored_compact_keeping_tmps (h : view.Routed) (hne : view.partitions ≠ []) (key : UInt16) :
    ({ view.compact with tmps := view.tmps } : TableView).stored key = view.stored key := by
  have hpartition := latest_partitionOf_compact h hne key
  simp only [stored, records, latest_append] at hpartition ⊢
  rw [show ({ view.compact with tmps := view.tmps } : TableView).partitionOf key =
    view.compact.partitionOf key from rfl, hpartition, later_later_right]
  rfl

/-- A key of a partition that is still there. -/
theorem stored_wiped_of_le {key : UInt16} (h : i ≤ route view.partitions.length key) :
    (view.wiped i).stored key = view.stored key := by
  rw [stored, records, partitionOf_wiped, if_neg (Nat.not_lt.mpr h)]
  rfl

theorem mem_take_of_route_lt {key : UInt16} (hlt : route view.partitions.length key < i)
    {record : Record} (hmem : record ∈ view.partitionOf key) :
    record ∈ (view.partitions.take i).flatten := by
  rw [partitionOf] at hmem
  cases hp : view.partitions[route view.partitions.length key]? with
  | none =>
    rw [hp] at hmem
    exact absurd hmem List.not_mem_nil
  | some p =>
    rw [hp] at hmem
    refine List.mem_flatten.mpr ⟨p, List.mem_of_getElem? (i := route view.partitions.length key) ?_,
      hmem⟩
    rw [List.getElem?_take_of_lt hlt, hp]

/-- **What the emptied partitions cost.** -/
theorem greatest_wiped_iff (h : view.Routed) (hmem : view.mem = none) :
    (∀ key, (view.wiped i).greatest key = view.greatest key) ↔ view.Outlived i := by
  constructor
  · -- what is now greatest for the key of a lost record can only be in a temporary archive
    intro hgreatest record hrecord
    obtain ⟨p, hp, hrecord⟩ := List.mem_flatten.mp hrecord
    obtain ⟨j, hj, rfl⟩ := List.mem_iff_getElem.mp hp
    rw [List.getElem_take] at hrecord
    have hj' : j < view.partitions.length := by
      rw [List.length_take] at hj
      omega
    have hroute : route view.partitions.length record.key = j :=
      (h j _ (List.getElem?_eq_getElem hj')).2 record hrecord
    have hlt : route view.partitions.length record.key < i := by
      rw [List.length_take] at hj
      omega
    have hentry : record ∈ ofKey record.key (view.records record.key) := by
      refine List.mem_filter.mpr ⟨?_, decide_eq_true rfl⟩
      refine List.mem_append_left _ (List.mem_append_left _ ?_)
      rw [partitionOf, hroute, List.getElem?_eq_getElem hj']
      exact hrecord
    obtain ⟨top, -, htop, hmax⟩ := exists_argmax time (List.ne_nil_of_mem hentry)
    have hkey := hgreatest record.key
    have hstored : view.stored record.key = some top := htop
    rw [greatest, greatest, hstored, Option.map_some] at hkey
    obtain ⟨newer, hnewer, htime⟩ := Option.map_eq_some_iff.mp hkey
    have hmemNewer : newer ∈ ofKey record.key ((view.wiped i).records record.key) :=
      List.argmax_mem hnewer
    rw [records, partitionOf_wiped, if_pos hlt] at hmemNewer
    refine ⟨newer, ?_, (hmax record hentry).trans htime.ge⟩
    simpa [wiped, hmem] using hmemNewer
  · intro houtlived key
    by_cases hlt : route view.partitions.length key < i
    · -- the partition of the key was emptied, and the temporary archives answer alone
      have hwiped : (view.wiped i).stored key = latest Record.key time key view.tmps.flatten := by
        rw [stored, records, partitionOf_wiped, if_pos hlt]
        simp [wiped, hmem]
      have hview : view.stored key = later time (latest Record.key time key (view.partitionOf key))
          (latest Record.key time key view.tmps.flatten) := by
        rw [stored, records, hmem, Option.getD_none, List.append_nil, latest_append]
      rw [greatest, greatest, hwiped, hview]
      cases hfirst : latest Record.key time key (view.partitionOf key) with
      | none => rw [later_none_left]
      | some record =>
        have hrecord := List.mem_filter.mp (List.argmax_mem hfirst)
        obtain rfl : record.key = key := of_decide_eq_true hrecord.2
        obtain ⟨newer, hnewer, hle⟩ := houtlived record (mem_take_of_route_lt hlt hrecord.1)
        obtain ⟨top, -, htop, hmax⟩ := exists_argmax time (List.ne_nil_of_mem hnewer)
        have hlatest : latest Record.key time record.key view.tmps.flatten = some top := htop
        rw [hlatest, later_some_some]
        split
        · rfl
        · have hge := hle.trans (hmax newer hnewer)
          exact congrArg some (le_antisymm (not_lt.mp ‹_›) hge)
    · rw [greatest, greatest, stored_wiped_of_le (Nat.not_lt.mp hlt)]

end TableView

/-! ## The restart -/

/-- The state after a restart: the files, and no memtable. -/
def Filesystem.restarted (fs : Filesystem) (name : Bytes) (disk : Disk) : Filesystem :=
  ⟨disk.storage, fs.tables.insert name disk.table, []⟩

/-- The compaction of the table after a restart.  It reads every block of every archive
and of A1.tmpc, and cannot read one that is missing. -/
def recovery (config : FsConfig) (fs : Filesystem) (name : Bytes)
    (disk : Disk) : Option Filesystem :=
  if disk.missing = [] then compaction config name (fs.restarted name disk) else none

/-- The greatest timestamp stored for a key. -/
def greatestTimestamp (config : FsConfig) (fs : Filesystem) (name : Bytes) (key : UInt16) :
    Option (Option Int) := (storedRecord config fs name key).map (Option.map time)

/-- The process exits after `k` file operations of the compaction of a table.  The
compaction after the restart leaves, for every key, a stored record of the same greatest
timestamp as the files had before. -/
def Recovers (config : FsConfig) (fs : Filesystem) (name : Bytes) (table : Table)
    (k : Nat) : Prop :=
  ∃ ops recovered, compactionOps config fs.storage table = some ops ∧
    recovery config fs name (applyOps (ops.take k) ⟨fs.storage, table, []⟩) = some recovered ∧
    ∀ key, greatestTimestamp config recovered name key =
      greatestTimestamp config { fs with memTable := [] } name key

/-- Some blocks are empty. -/
def Storage.emptied (storage : Storage) (blocks : List Nat) : Storage :=
  { storage with block := fun b => if b ∈ blocks then [] else storage.block b }

/-- The blocks of the first `i` partitions. -/
def Table.firstBlocks (table : Table) (i : Nat) : List Nat :=
  (table.partitions.take i).flatMap Archive.blocks

/-- The files with A1.tmpc written and the first `i` partitions emptied. -/
def Filesystem.emptiedAt (fs : Filesystem) (name : Bytes) (table : Table) (i : Nat) : Filesystem :=
  fs.restarted name ⟨fs.storage.emptied (table.firstBlocks i),
    { table with tmpc := some (getAllBlocksFromAllTmps table) }, []⟩

/-- The file operations up to there. -/
def Table.opsUntil (table : Table) (i : Nat) : Nat := 1 + 2 * (table.firstBlocks i).length

section Restart
variable {config : FsConfig} {fs fs' : Filesystem} {storage after : Storage} {name : Bytes}
  {table : Table} {view : TableView} {i : Nat}

theorem view_forget (hlookup : fs.tables.lookup name = some table) :
    ({ fs with memTable := [] } : Filesystem).view config name =
      some (table.decoded config.tkvSize fs.storage none) :=
  view_some hlookup

theorem Valid.forget (h : Valid config fs) : Valid config { fs with memTable := [] } :=
  h.setMemTable (fun _ hmem => absurd hmem List.not_mem_nil) List.nodup_nil
    fun _ hmem => absurd hmem List.not_mem_nil

/-- One table of a valid filesystem gets other archives. -/
theorem Valid.setTable (h : Valid config fs) (table' : Table)
    (hholds : Holds config.tkvSize after (table'.owned ++ ownedBy (fs.tables.erase name)))
    (hkeeps : Keeps fs.storage after (ownedBy (fs.tables.erase name))) (htidy : table'.Tidy)
    (hview : table'.decoded config.tkvSize after (memRecords fs.memTable name) = view)
    (hrouted : view.Routed) (hne : view.partitions ≠ []) (hname : toUppercase name = name) :
    Valid config { fs with storage := after, tables := fs.tables.insert name table' } ∧
      Filesystem.view config { fs with storage := after, tables := fs.tables.insert name table' }
      name =
        some view := by
  obtain ⟨hsound, hviews⟩ := h.toSound.setTable name table' hholds hkeeps htidy
  have hcases : ∀ other v, Filesystem.view config
      { fs with storage := after, tables := fs.tables.insert name table' } other = some v →
      other = name ∧ v = view ∨ fs.view config other = some v := by
    intro other v hv
    rw [hviews] at hv
    by_cases hother : other = name
    · subst hother
      rw [if_pos rfl, hview] at hv
      exact Or.inl ⟨rfl, (Option.some.inj hv).symm⟩
    · rw [if_neg hother] at hv
      exact Or.inr hv
  refine ⟨⟨hsound, h.upper, h.nodup, h.texts, fun other v hv => ?_, fun other v hv => ?_,
    fun other v hv => ?_⟩, by rw [hviews, if_pos rfl, hview]⟩
  all_goals rcases hcases other v hv with ⟨rfl, rfl⟩ | hold
  · exact hrouted
  · exact h.routed other v hold
  · exact hne
  · exact h.partitions_ne other v hold
  · exact hname
  · exact h.names other v hold

theorem greatestTimestamp_eq (h : Valid config fs) (hview : fs.view config name = some view)
    (key : UInt16) : greatestTimestamp config fs name key = some (view.greatest key) := by
  rw [greatestTimestamp, storedRecord_eq h hview]
  rfl

end Restart

/-! ## Enough blocks -/

section Enough
variable {config : FsConfig} {fs fs' : Filesystem} {storage after base : Storage} {name : Bytes}
  {table : Table}

theorem createPartition_listsReal {partition : List Record} {archive : Archive}
    (hsize : 2 ≤ storage.blockSize) (hbase : base.blockSize = storage.blockSize)
    (hrun : createPartition storage partition = some (after, archive))
    (henough : blocksFor base (partition.map convertToTkv) ≤
      (availableBlocks storage.bitmap).length) :
    0 ∉ archive.blocks := by
  obtain ⟨⟨after', blocks⟩, hwrite, heq⟩ := Option.bind_eq_some_iff.mp hrun
  obtain ⟨rfl, rfl⟩ := Prod.mk.inj (Option.some.inj heq)
  obtain ⟨after₁, blocks₁, hwrite₁, -, hlen, -⟩ := writeTkvs_total hsize partition
  obtain ⟨rfl, rfl⟩ := Prod.mk.inj (Option.some.inj (hwrite₁.symm.trans hwrite))
  rw [writeTkvs_length hwrite hbase, hlen] at henough
  obtain ⟨after₂, blocks₂, hwrite₂, hwritten⟩ := writeTkvs_spec hsize partition henough
  obtain ⟨rfl, rfl⟩ := Prod.mk.inj (Option.some.inj (hwrite₂.symm.trans hwrite))
  intro hzero
  refine zero_not_mem_availableBlocks storage.bitmap ?_
  rw [hwritten.free_eq]
  exact List.mem_append_left _ hzero

/-- A rewrite that asks for no more blocks than are free lists no block number 0. -/
theorem createNewPartitions_listsReal {partitionTkvs : List (List Record)} {archives : List Archive}
    (hsize : 2 ≤ storage.blockSize) (hbase : base.blockSize = storage.blockSize)
    (hrun : createNewPartitions storage partitionTkvs = some (after, archives))
    (henough : blocksForAll base (partitionTkvs.map fun partition => partition.map convertToTkv) ≤
      (availableBlocks storage.bitmap).length) : ∀ archive ∈ archives, 0 ∉ archive.blocks := by
  induction partitionTkvs generalizing storage archives with
  | nil =>
    obtain ⟨-, rfl⟩ := Prod.mk.inj (Option.some.inj hrun)
    exact fun _ hmem => absurd hmem List.not_mem_nil
  | cons partition rest ih =>
    obtain ⟨storage₁, archive, archives', hone, hrest, rfl⟩ := createNewPartitions_cons hrun
    simp only [blocksForAll, List.map_cons, List.sum_cons] at henough ih
    have hzero := createPartition_listsReal hsize hbase hone (by omega)
    obtain ⟨hblock, hasks⟩ := dumpTable_asks hone hzero hbase
    rintro other (_ | ⟨_, hmem⟩)
    · exact hzero
    · exact ih (hblock ▸ hsize) (hbase.trans hblock.symm) hrest (by omega) other hmem

/-- What a rewrite with enough blocks leaves. -/
theorem listsReal_of_not_exhausts {partitionTkvs : List (List Record)} {archives : List Archive}
    (henough : ¬ RewriteExhausts config fs name)
    (hrewrite : partitionRewrite config fs name = some (storage, partitionTkvs))
    (hsize : 2 ≤ storage.blockSize)
    (hcreate : createNewPartitions storage partitionTkvs = some (after, archives)) :
    ∀ archive ∈ archives, 0 ∉ archive.blocks :=
  createNewPartitions_listsReal hsize rfl hcreate
    (Nat.not_lt.mp fun hfew => henough ⟨(storage, partitionTkvs), hrewrite, hfew⟩)

theorem Valid.allocated (h : Valid config fs) : fs.Allocated := by
  intro hzero
  obtain ⟨i, hi, -⟩ := h.holds.used 0 hzero
  omega

/-- A compaction with enough blocks does not run out of them. -/
theorem Valid.compaction_allocated (h : Valid config fs)
    (henough : ¬ RewriteExhausts config fs name)
    (hrun : Lissandra.compaction config name fs = some fs') : fs'.Allocated := by
  rcases compaction_of_noTmpc hrun fun table hlookup => (h.tidy _ _ hlookup).noTmpc with
    ⟨rfl, -⟩ | ⟨table, hlookup, htmps, hstart⟩
  · exact h.allocated
  · obtain ⟨hgap, htmpc⟩ := h.tidy _ _ hlookup
    obtain ⟨partitionTkvs, _, _, after, archives, hmerged, hfree, hcreate, rfl⟩ :=
      startCompaction_eq_some hstart
    obtain ⟨freed, hfreed, hholds, -⟩ := freeArchives_eq (h.holds.perm (ownedBy_perm hlookup))
    obtain ⟨rfl, rfl⟩ := Prod.mk.inj (Option.some.inj (hfreed.symm.trans hfree))
    have hrewrite : partitionRewrite config fs name = some (freed, partitionTkvs) := by
      simp only [partitionRewrite, hlookup, compactionSource, htmpc, if_neg htmps, hmerged, hfree,
        Option.bind_eq_bind, Option.bind_some]
    have hreal := listsReal_of_not_exhausts henough hrewrite hholds.size hcreate
    rw [Filesystem.Allocated, ownedBy_insert, List.flatten_append, List.mem_append, Table.owned,
      hgap.destroyAllTmps.2, List.append_nil]
    rintro (hzero | hzero)
    · obtain ⟨blocks, hmem, hzero⟩ := List.mem_flatten.mp hzero
      obtain ⟨archive, harchive, rfl⟩ := List.mem_map.mp hmem
      exact hreal archive harchive hzero
    · obtain ⟨i, hi, -⟩ := hholds.used 0 hzero
      omega

end Enough

/-! ## Before the first and after the last operation -/

section Ends
variable {config : FsConfig} {fs : Filesystem} {name : Bytes} {table : Table} {view : TableView}
  {disk : Disk}

/-- A restart that finds a valid filesystem. -/
theorem recovery_of_valid (h : Valid config (fs.restarted name disk)) (hmissing : disk.missing = [])
    (hview : (fs.restarted name disk).view config name = some view)
    (henough : ¬ RewriteExhausts config (fs.restarted name disk) name) :
    ∃ recovered, recovery config fs name disk = some recovered ∧
      ∀ key, greatestTimestamp config recovered name key = some (view.greatest key) := by
  obtain ⟨recovered, hrun⟩ := Option.isSome_iff_exists.mp (h.compaction_isSome name)
  obtain ⟨hvalid, -, -, hviews⟩ := h.compaction hrun (h.compaction_allocated henough hrun)
  refine ⟨recovered, by rw [recovery, if_pos hmissing, hrun], fun key => ?_⟩
  have hcompacted := hviews name
  rw [hview, Option.map_some, if_pos rfl] at hcompacted
  rw [greatestTimestamp_eq hvalid hcompacted, TableView.greatest,
    TableView.stored_compact (h.routed name view hview) (h.partitions_ne name view hview)]
  rfl

theorem partitionRewrite_restarted (hlookup : fs.tables.lookup name = some table) :
    partitionRewrite config (fs.restarted name ⟨fs.storage, table, []⟩) name =
      partitionRewrite config fs name := by
  rw [partitionRewrite, partitionRewrite, hlookup, Filesystem.restarted, AList.lookup_insert]

/-- The files as they are between two compactions. -/
theorem Valid.recovery_untouched (h : Valid config fs)
    (hlookup : fs.tables.lookup name = some table) (henough : ¬ RewriteExhausts config fs name) :
    ∃ recovered, recovery config fs name ⟨fs.storage, table, []⟩ = some recovered ∧
      ∀ key, greatestTimestamp config recovered name key =
        some ((table.decoded config.tkvSize fs.storage none).greatest key) := by
  have hview := @view_forget config fs name table hlookup
  obtain ⟨hvalid, hrestarted⟩ := h.forget.setTable table (h.holds.perm (ownedBy_perm hlookup))
    (Keeps.refl _ _) (h.tidy _ _ hlookup) rfl (h.forget.routed name _ hview)
    (h.forget.partitions_ne name _ hview) (h.forget.names name _ hview)
  have hdisk : Valid config (fs.restarted name ⟨fs.storage, table, []⟩) := hvalid
  refine recovery_of_valid hdisk rfl hrestarted ?_
  rw [RewriteExhausts, partitionRewrite_restarted hlookup]
  exact henough

/-- A table without temporary archives is not rewritten. -/
theorem not_exhausts_of_no_tmps (hlookup : fs.tables.lookup name = some table)
    (htmps : existingTmps table.tmps = []) (htmpc : table.tmpc = none) :
    ¬ RewriteExhausts config fs name := by
  rintro ⟨rewrite, hrewrite, -⟩
  simp [partitionRewrite, hlookup, compactionSource, htmpc, htmps] at hrewrite

/-- The files after all operations. -/
theorem Valid.recovery_finished (h : Valid config fs) (hlookup : fs.tables.lookup name = some table)
    (henough : ¬ RewriteExhausts config fs name) :
    ∃ ops recovered, compactionOps config fs.storage table = some ops ∧
      recovery config fs name (applyOps ops ⟨fs.storage, table, []⟩) = some recovered ∧
      ∀ key, greatestTimestamp config recovered name key =
        some ((table.decoded config.tkvSize fs.storage none).greatest key) := by
  obtain ⟨fs₁, hrun⟩ := Option.isSome_iff_exists.mp (h.compaction_isSome name)
  obtain ⟨hvalid, -, -, hviews⟩ := h.compaction hrun (h.compaction_allocated henough hrun)
  obtain ⟨ops, table₁, hops, happly, hlookup₁⟩ := applyOps_compaction hlookup hrun
  have hview := hviews name
  rw [view_some hlookup, view_some hlookup₁, Option.map_some,
    if_pos rfl, Option.some.injEq] at hview
  have htmps : existingTmps table₁.tmps = [] := List.map_eq_nil_iff.mp
    (congrArg TableView.tmps hview)
  obtain ⟨recovered, hrecovery, hgreatest⟩ := hvalid.recovery_untouched hlookup₁
    (not_exhausts_of_no_tmps hlookup₁ htmps (hvalid.tidy _ _ hlookup₁).noTmpc)
  have hrestarted : fs₁.restarted name ⟨fs₁.storage, table₁, []⟩ =
      fs.restarted name ⟨fs₁.storage, table₁, []⟩ := by
    rcases compaction_cases hrun with rfl | ⟨storage, table', rfl⟩
    · rfl
    · simp only [Filesystem.restarted, AList.insert_insert]
  refine ⟨ops, recovered, hops, ?_, fun key => ?_⟩
  · rw [happly, recovery, ← hrestarted]
    exact hrecovery
  · have hforget : table₁.decoded config.tkvSize fs₁.storage none =
        (table.decoded config.tkvSize fs.storage none).compact := by
      have hpartitions := congrArg TableView.partitions hview
      have htmpsView := congrArg TableView.tmps hview
      exact TableView.ext hpartitions htmpsView rfl
    have hview₀ := @view_forget config fs name table hlookup
    rw [hgreatest, hforget, TableView.greatest,
      TableView.stored_compact (h.forget.routed name _ hview₀)
      (h.forget.partitions_ne name _ hview₀)]
    rfl

end Ends

/-! ## Between two partitions -/

theorem emptied_nil (storage : Storage) : storage.emptied [] = storage := by simp [Storage.emptied]

theorem applyOps_freeBlocks_eq (blocks : List Nat) (storage : Storage) (table : Table) :
    applyOps (freeBlocksOps blocks) ⟨storage, table, []⟩ = ⟨storage.emptied blocks, table, []⟩ := by
  induction blocks generalizing storage with
  | nil => rw [emptied_nil]; rfl
  | cons block rest ih =>
    have hblock : (storage.setBlock block []).emptied rest = storage.emptied (block :: rest) := by
      simp only [Storage.emptied, Storage.setBlock, Storage.mk.injEq, true_and]
      funext b
      by_cases hb : b = block
      · simp [hb]
      · simp [hb, Function.update_of_ne]
    rw [← hblock, ← ih]
    simp [freeBlocksOps, FileOp.apply, Storage.setBlock]

theorem freeArchivesOps_eq (archives : List Archive) :
    freeArchivesOps archives = freeBlocksOps (archives.flatMap Archive.blocks) :=
  List.flatMap_assoc.symm

theorem freeBlocksOps_append (blocks more : List Nat) :
    freeBlocksOps (blocks ++ more) = freeBlocksOps blocks ++ freeBlocksOps more :=
  List.flatMap_append

theorem length_freeBlocksOps (blocks : List Nat) :
    (freeBlocksOps blocks).length = 2 * blocks.length := by
  induction blocks with
  | nil => rfl
  | cons block rest ih =>
    rw [freeBlocksOps, List.flatMap_cons, List.length_append, ← freeBlocksOps, ih, List.length_cons]
    simp only [List.length_cons, List.length_nil]
    omega

section Boundary
variable {config : FsConfig} {fs : Filesystem} {storage after : Storage} {name : Bytes}
  {table : Table} {i : Nat}

/-- A compaction of temporary archives writes A1.tmpc and empties all blocks of the table
before it does anything else. -/
theorem compactionOps_cases {ops : List FileOp} (htmpc : table.tmpc = none)
    (htmps : existingTmps table.tmps ≠ []) (hops : compactionOps config storage table = some ops) :
    ∃ more, ops = .writeTmpc (getAllBlocksFromAllTmps table) ::
      (freeBlocksOps ((table.partitions ++ existingTmps table.tmps).flatMap Archive.blocks) ++
        more) := by
  simp only [compactionOps, htmpc, if_neg htmps] at hops
  obtain ⟨started, hstart, rfl⟩ := Option.map_eq_some_iff.mp hops
  obtain ⟨partitionTkvs, -, hstart⟩ := Option.bind_eq_some_iff.mp hstart
  obtain ⟨⟨freed, table'⟩, -, hstart⟩ := Option.bind_eq_some_iff.mp hstart
  obtain rfl := Option.some.inj hstart
  refine ⟨destroyAllTmpsOps 0 table.tmps ++
    .writeBitmap freed.bitmap :: .removeTmpc :: createNewPartitionsOps freed 0 partitionTkvs, ?_⟩
  rw [← freeArchivesOps_eq, freeArchivesOps, List.flatMap_append, rewriteOps, if_pos rfl]
  simp only [freeArchivesOps, List.append_assoc]

/-- The files at the boundary. -/
theorem applyOps_opsUntil {ops : List FileOp} (htmpc : table.tmpc = none)
    (htmps : existingTmps table.tmps ≠ []) (hops : compactionOps config storage table = some ops) :
    applyOps (ops.take (table.opsUntil i)) ⟨storage, table, []⟩ =
      ⟨storage.emptied (table.firstBlocks i),
        { table with tmpc := some (getAllBlocksFromAllTmps table) }, []⟩ := by
  obtain ⟨more, rfl⟩ := compactionOps_cases htmpc htmps hops
  have hsplit : (table.partitions ++ existingTmps table.tmps).flatMap Archive.blocks =
      table.firstBlocks i ++
        (table.partitions.drop i ++ existingTmps table.tmps).flatMap Archive.blocks := by
    rw [Table.firstBlocks, ← List.flatMap_append, ← List.append_assoc, List.take_append_drop]
  rw [Table.opsUntil, Nat.add_comm 1, List.take_succ_cons, hsplit, freeBlocksOps_append,
    List.append_assoc, List.take_left' (length_freeBlocksOps _), applyOps_cons]
  exact applyOps_freeBlocks_eq _ _ _

theorem createTkvList_empty {tkvSize : Nat} {blocks : List Nat}
    (h : ∀ b ∈ blocks, storage.block b = []) :
    createTkvList tkvSize storage.block blocks = some [] := by
  have hgroups : blocks.map storage.block =
      (blocks.map fun _ => ([] : List Record)).flatMap (layoutBytes storage.blockSize) := by
    rw [List.flatMap_map, List.map_eq_flatMap]
    exact List.flatMap_congr fun b hb => congrArg ([·]) (h b hb)
  have hnil : (blocks.map fun _ => ([] : List Record)).flatten = [] := by simp
  rw [createTkvList_layout hgroups (by simp), hnil]

/-- Only the blocks of the first partitions were emptied. -/
theorem keeps_emptied {owned : List (List Nat)} {blocks : List Nat}
    (h : ∀ b ∈ owned.flatten, b ∉ blocks) : Keeps storage (storage.emptied blocks) owned :=
  ⟨rfl, fun b hb => if_neg (h b hb)⟩

/-- The other archives of all tables. -/
theorem Valid.keeps_firstBlocks (h : Valid config fs) (hlookup : fs.tables.lookup name = some table)
    (i : Nat) : Keeps fs.storage (fs.storage.emptied (table.firstBlocks i))
      ((table.partitions.drop i ++ existingTmps table.tmps).map Archive.blocks ++
        ownedBy (fs.tables.erase name)) := by
  have hnodup := (h.holds.perm (ownedBy_perm hlookup)).nodup
  rw [Table.owned, ← List.take_append_drop i table.partitions, List.append_assoc, List.map_append,
    List.append_assoc, List.flatten_append, ← List.flatMap_def] at hnodup
  exact keeps_emptied fun b hb hmem => (List.nodup_append.mp hnodup).2.2 b hmem b hb rfl

/-- What can still be read. -/
theorem Valid.createTkvList_emptied (h : Valid config fs)
    (hlookup : fs.tables.lookup name = some table) {j : Nat} {archive : Archive}
    (hmem : table.partitions[j]? = some archive) :
    createTkvList config.tkvSize (fs.storage.emptied (table.firstBlocks i)).block archive.blocks =
      some (if j < i then [] else decode config.tkvSize fs.storage archive.blocks) := by
  split
  · refine createTkvList_empty fun b hb => if_pos (List.mem_flatMap.mpr ⟨archive, ?_, hb⟩)
    refine List.mem_of_getElem? (i := j) ?_
    rw [List.getElem?_take_of_lt ‹_›, hmem]
  · have hdrop : archive ∈ table.partitions.drop i := by
      refine List.mem_of_getElem? (i := j - i) ?_
      rw [List.getElem?_drop, Nat.add_sub_cancel' (Nat.not_lt.mp ‹_›), hmem]
    have hintact := h.holds.intact archive.blocks
      (owned_subset hlookup (List.mem_map_of_mem
        (List.mem_append_left _ (List.mem_of_getElem? hmem))))
    have howned : archive.blocks ∈ (table.partitions.drop i ++ existingTmps table.tmps).map
        Archive.blocks ++ ownedBy (fs.tables.erase name) :=
      List.mem_append_left _ (List.mem_map_of_mem (List.mem_append_left _ hdrop))
    have hkeeps := h.keeps_firstBlocks hlookup i
    have hemptied : Intact config.tkvSize _ archive.blocks := hkeeps.intact howned hintact
    rw [hemptied.decode_eq.1,
      hkeeps.decode_eq howned hintact]

/-- Reading the partitions one by one. -/
theorem mapM_eq_mapIdx {α β : Type} {f : α → Option β} {g : Nat → α → β} {l : List α}
    (h : ∀ j a, l[j]? = some a → f a = some (g j a)) : l.mapM f = some (l.mapIdx g) := by
  induction l generalizing g with
  | nil => rfl
  | cons a l ih =>
    rw [List.mapM_cons, h 0 a rfl, ih (g := fun j => g (j + 1)) fun j b hb => h (j + 1) b hb,
      List.mapIdx_cons]
    rfl

/-- The records that the recovery puts into the new partitions. -/
theorem Valid.mergedPartitions_emptied (h : Valid config fs)
    (hlookup : fs.tables.lookup name = some table) :
    mergedPartitions config (fs.storage.emptied (table.firstBlocks i))
        { table with tmpc := some (getAllBlocksFromAllTmps table) }
        (getAllBlocksFromAllTmps table) =
      some (((table.decoded config.tkvSize fs.storage none).wiped i).compact).partitions := by
  have hkeeps : Keeps fs.storage (fs.storage.emptied (table.firstBlocks i))
      ((existingTmps table.tmps).map Archive.blocks) := by
    refine (h.keeps_firstBlocks hlookup i).subset fun blocks hmem => ?_
    rw [List.map_append, List.append_assoc]
    exact List.mem_append_right _ (List.mem_append_left _ hmem)
  have hintact : ∀ blocks ∈ (existingTmps table.tmps).map Archive.blocks,
      Intact config.tkvSize fs.storage blocks := fun blocks hmem =>
    h.holds.intact blocks
      (owned_subset hlookup (List.map_subset _ (List.subset_append_right _ _) hmem))
  have htmpc : createTkvList config.tkvSize (fs.storage.emptied (table.firstBlocks i)).block
      (getAllBlocksFromAllTmps table).blocks =
      some (table.decoded config.tkvSize fs.storage none).tmps.flatten := by
    rw [getAllBlocksFromAllTmps, List.flatMap_def,
      createTkvList_flatten fun blocks hmem => hkeeps.intact hmem (hintact blocks hmem),
      List.flatMap_map, Table.decoded, List.flatMap_def]
    congr 2
    exact List.map_congr_left fun archive hmem =>
      hkeeps.decode_eq (List.mem_map_of_mem hmem) (hintact _ (List.mem_map_of_mem hmem))
  have hpartitions : createPartitionTkvList config (fs.storage.emptied (table.firstBlocks i))
      { table with tmpc := some (getAllBlocksFromAllTmps table) } =
      some ((table.decoded config.tkvSize fs.storage none).wiped i).partitions := by
    rw [createPartitionTkvList, mapM_eq_mapIdx fun j archive hmem =>
      h.createTkvList_emptied hlookup hmem, TableView.wiped, Table.decoded]
    refine congrArg some (List.ext_getElem? fun j => ?_)
    simp only [List.getElem?_mapIdx, List.getElem?_map, Option.map_map]
    rfl
  have hne : ((table.decoded config.tkvSize fs.storage none).wiped i).partitions ≠ [] := by
    rw [← List.length_pos_iff, TableView.length_wiped, List.length_pos_iff]
    exact h.forget.partitions_ne name _ (view_forget hlookup)
  rw [mergedPartitions, htmpc, hpartitions]
  simp only [Option.bind_eq_bind, Option.bind_some]
  rw [getTkvsToInsert_eq _ hne]
  rfl

theorem storable_wiped (h : Valid config fs) (hlookup : fs.tables.lookup name = some table) :
    ∀ partition ∈ (((table.decoded config.tkvSize fs.storage none).wiped i).compact).partitions,
      ∀ record ∈ partition, Storable config.tkvSize record := by
  have harchives : ∀ archive ∈ table.partitions ++ existingTmps table.tmps,
      ∀ record ∈ decode config.tkvSize fs.storage archive.blocks, Storable config.tkvSize record :=
    fun archive hmem =>
      (h.holds.intact _ (owned_subset hlookup (List.mem_map_of_mem hmem))).decode_eq.2.2
  intro partition hpartition record hrecord
  rcases mem_distribute hpartition hrecord with ⟨old, hold, hmem⟩ | hmem
  · obtain ⟨j, p, hp, rfl⟩ := List.mem_mapIdx.mp hold
    split at hmem
    · exact absurd hmem List.not_mem_nil
    · obtain ⟨archive, harchive, heq⟩ := List.mem_map.mp (List.getElem_mem p)
      rw [← heq] at hmem
      exact harchives archive (List.mem_append_left _ harchive) record hmem
  · obtain ⟨tmp, htmp, hmem⟩ := List.mem_flatten.mp hmem
    obtain ⟨archive, harchive, rfl⟩ := List.mem_map.mp htmp
    exact harchives archive (List.mem_append_right _ harchive) record hmem

theorem foldlM_freeBlocksOfFsArchive (archives : List Archive) (storage : Storage) :
    archives.foldlM freeBlocksOfFsArchive storage =
      (archives.flatMap Archive.blocks).foldlM freeBlock storage := by
  induction archives generalizing storage with
  | nil => rfl
  | cons archive rest ih =>
    rw [List.foldlM_cons, List.flatMap_cons, List.foldlM_append, freeBlocksOfFsArchive]
    exact congrArg _ (funext ih)

/-- What the blocks held that are freed does not matter. -/
theorem foldlM_freeBlock_congr {blocks : List Nat} {block : Nat → Bytes}
    (h : ∀ b ∉ blocks, block b = storage.block b) :
    blocks.foldlM freeBlock { storage with block } = blocks.foldlM freeBlock storage := by
  induction blocks generalizing storage block with
  | nil =>
    obtain rfl : block = storage.block := funext fun b => h b List.not_mem_nil
    rfl
  | cons c rest ih =>
    rw [List.foldlM_cons, List.foldlM_cons, freeBlock, freeBlock]
    dsimp only
    split
    · rfl
    · refine @ih { storage with
        bitmap := storage.bitmap.set (c - 1) false
        block := Function.update storage.block c [] } _ fun b hb => ?_
      change Function.update block c [] b = Function.update storage.block c [] b
      by_cases hc : b = c
      · rw [hc, Function.update_self, Function.update_self]
      · rw [Function.update_of_ne hc, Function.update_of_ne hc]
        exact h b fun hmem => (List.mem_cons.mp hmem).elim hc hb

/-- The partitions are freed as if they had not been emptied before. -/
theorem Valid.freeArchives_emptied (h : Valid config fs)
    (hlookup : fs.tables.lookup name = some table) :
    ∃ freed, freeArchives (fs.storage.emptied (table.firstBlocks i))
        { table with tmpc := some (getAllBlocksFromAllTmps table) } false =
          some (freed, { table with tmpc := none }) ∧
      Holds config.tkvSize freed ((existingTmps table.tmps).map Archive.blocks ++
        ownedBy (fs.tables.erase name)) ∧
      Keeps fs.storage freed ((existingTmps table.tmps).map Archive.blocks ++
        ownedBy (fs.tables.erase name)) := by
  have hholds := h.holds.perm (ownedBy_perm hlookup)
  rw [Table.owned, List.map_append, List.append_assoc] at hholds
  obtain ⟨freed, hfree, hholds, hkeeps⟩ := hholds.freeAll
  refine ⟨freed, ?_, hholds, hkeeps⟩
  have hsame : table.partitions.foldlM freeBlocksOfFsArchive
      (fs.storage.emptied (table.firstBlocks i)) = some freed := by
    rw [foldlM_freeBlocksOfFsArchive] at hfree ⊢
    refine (@foldlM_freeBlock_congr fs.storage _ _ fun b hb => if_neg fun hmem => ?_).trans hfree
    obtain ⟨archive, harchive, hb'⟩ := List.mem_flatMap.mp hmem
    exact hb (List.mem_flatMap.mpr ⟨archive, List.mem_of_mem_take harchive, hb'⟩)
  rw [freeArchives, freePartitions, hsame]
  rfl

/-- **A compaction that exits between two partitions.**  The next one leaves what the
partitions that were not emptied and the temporary archives say. -/
theorem Valid.recovery_emptied (h : Valid config fs) (hlookup : fs.tables.lookup name = some table)
    (henough : ¬ RewriteExhausts config (fs.emptiedAt name table i) name) :
    ∃ recovered, recovery config fs name ⟨fs.storage.emptied (table.firstBlocks i),
        { table with tmpc := some (getAllBlocksFromAllTmps table) }, []⟩ = some recovered ∧
      ∀ key, greatestTimestamp config recovered name key =
        some (((table.decoded config.tkvSize fs.storage none).wiped i).greatest key) := by
  obtain ⟨hgap, -⟩ := h.tidy _ _ hlookup
  have hview := @view_forget config fs name table hlookup
  have hrouted := (h.forget.routed name _ hview).wiped (i := i)
  have hne : ((table.decoded config.tkvSize fs.storage none).wiped i).partitions ≠ [] := by
    rw [← List.length_pos_iff, TableView.length_wiped, List.length_pos_iff]
    exact h.forget.partitions_ne name _ hview
  -- the next compaction finds A1.tmpc, and merges it with what is left of the partitions
  have hmerged := h.mergedPartitions_emptied (i := i) hlookup
  obtain ⟨freed, hfree, hholds, hkeeps⟩ := h.freeArchives_emptied (i := i) hlookup
  obtain ⟨after, archives, hcreate⟩ := createNewPartitions_total hholds.size
    (((table.decoded config.tkvSize fs.storage none).wiped i).compact).partitions
  have hrewrite : partitionRewrite config (fs.emptiedAt name table i) name =
      some (freed, (((table.decoded config.tkvSize fs.storage none).wiped
        i).compact).partitions) := by
    simp only [partitionRewrite, Filesystem.emptiedAt, Filesystem.restarted, AList.lookup_insert,
      Option.bind_eq_bind, Option.bind_some, compactionSource, hmerged, hfree]
  obtain ⟨hholds', hkeeps', hdecode⟩ := hholds.createNewPartitions hcreate
    (listsReal_of_not_exhausts henough hrewrite hholds.size hcreate) (storable_wiped h hlookup)
  -- the temporary archives stay: a leftover A1.tmpc is compacted in their place
  let table' : Table := { table with partitions := archives, tmpc := none }
  have howned : table'.owned ++ ownedBy (fs.tables.erase name) = archives.map Archive.blocks ++
      ((existingTmps table.tmps).map Archive.blocks ++ ownedBy (fs.tables.erase name)) := by
    simp only [table', Table.owned, List.map_append, List.append_assoc]
  have htmps : (existingTmps table.tmps).map
    (fun archive => decode config.tkvSize after archive.blocks) =
      (existingTmps table.tmps).map fun archive =>
      decode config.tkvSize fs.storage archive.blocks :=
    List.map_congr_left fun archive hmem =>
      (hkeeps.trans hkeeps').decode_eq (List.mem_append_left _ (List.mem_map_of_mem hmem))
        (h.holds.intact _
          (owned_subset hlookup (List.mem_map_of_mem (List.mem_append_right _ hmem))))
  have hdecoded : table'.decoded config.tkvSize after none =
      { ((table.decoded config.tkvSize fs.storage none).wiped i).compact with
        tmps := (table.decoded config.tkvSize fs.storage none).tmps } :=
    TableView.ext hdecode htmps rfl
  obtain ⟨hvalid, hviews⟩ := h.forget.setTable table' (howned ▸ hholds')
    ((hkeeps.trans hkeeps').subset (List.subset_append_right _ _)) ⟨hgap, rfl⟩ hdecoded
    hrouted.compact (by
      rw [← List.length_pos_iff]
      change 0 < (((table.decoded config.tkvSize fs.storage none).wiped
        i).compact).partitions.length
      rw [TableView.length_compact, List.length_pos_iff]
      exact hne)
    (h.forget.names name _ hview)
  refine ⟨_, ?_, fun key => (greatestTimestamp_eq hvalid hviews key).trans ?_⟩
  · rw [recovery, if_pos rfl, Lissandra.compaction, Filesystem.restarted]
    simp only [AList.lookup_insert]
    rw [startCompaction, hmerged]
    simp only [Option.bind_eq_bind, Option.bind_some, hfree, hcreate, AList.insert_insert]
    rfl
  · rw [TableView.greatest, TableView.greatest]
    exact congrArg (fun stored => some (Option.map time stored))
      (TableView.stored_compact_keeping_tmps hrouted hne key)

end Boundary

/-! ## Where a compaction can be interrupted -/

/-- The points at which nothing is lost: before the first operation, after the last one,
and between two partitions when the temporary archives outlive what was emptied.  The
compaction after the restart has enough blocks. -/
inductive SafePoint (config : FsConfig) (fs : Filesystem) (name : Bytes)
    (table : Table) : Nat → Prop
  | untouched (enough : ¬ RewriteExhausts config fs name) : SafePoint config fs name table 0
  | emptied (i : Nat) (rewrites : existingTmps table.tmps ≠ [])
      (outlived : (table.decoded config.tkvSize fs.storage none).Outlived i)
      (enough : ¬ RewriteExhausts config (fs.emptiedAt name table i) name) :
      SafePoint config fs name table (table.opsUntil i)
  | finished {ops : List FileOp} {k : Nat} (all : compactionOps config fs.storage table = some ops)
      (last : ops.length ≤ k) (enough : ¬ RewriteExhausts config fs name) :
      SafePoint config fs name table k

section Points
variable {config : FsConfig} {blockSize blocks : Nat} {allowed : Op → Prop} {fs : Filesystem}
  {name : Bytes} {table : Table} {i : Nat}

theorem Valid.greatestTimestamp_forget (h : Valid config fs)
    (hlookup : fs.tables.lookup name = some table) (key : UInt16) :
    greatestTimestamp config { fs with memTable := [] } name key =
      some ((table.decoded config.tkvSize fs.storage none).greatest key) :=
  greatestTimestamp_eq h.forget (view_forget hlookup) key

theorem Valid.compactionOps_isSome (h : Valid config fs)
    (hlookup : fs.tables.lookup name = some table) :
    ∃ ops, compactionOps config fs.storage table = some ops := by
  obtain ⟨fs', hrun⟩ := Option.isSome_iff_exists.mp (h.compaction_isSome name)
  obtain ⟨ops, -, hops, -⟩ := applyOps_compaction hlookup hrun
  exact ⟨ops, hops⟩

theorem Valid.recovers_opsUntil_iff (h : Valid config fs)
    (hlookup : fs.tables.lookup name = some table) (htmps : existingTmps table.tmps ≠ [])
    (henough : ¬ RewriteExhausts config (fs.emptiedAt name table i) name) :
    Recovers config fs name table (table.opsUntil i) ↔
      (table.decoded config.tkvSize fs.storage none).Outlived i := by
  have hview := @view_forget config fs name table hlookup
  obtain ⟨recovered, hrecovery, hgreatest⟩ := h.recovery_emptied hlookup henough
  rw [← TableView.greatest_wiped_iff (h.forget.routed name _ hview) rfl]
  constructor
  · rintro ⟨ops, recovered', hops, hrecovery', hsame⟩ key
    rw [applyOps_opsUntil (h.tidy _ _ hlookup).noTmpc htmps hops, hrecovery] at hrecovery'
    obtain rfl := Option.some.inj hrecovery'
    have hkey := hsame key
    rw [hgreatest, h.greatestTimestamp_forget hlookup] at hkey
    exact Option.some.inj hkey
  · intro hsame
    obtain ⟨ops, hops⟩ := h.compactionOps_isSome hlookup
    refine ⟨ops, recovered, hops, ?_, fun key => ?_⟩
    · rw [applyOps_opsUntil (h.tidy _ _ hlookup).noTmpc htmps hops, hrecovery]
    · rw [hgreatest, h.greatestTimestamp_forget hlookup, hsame key]

/-- After every second operation a block file is missing. -/
theorem not_recovers_of_missing (htmpc : table.tmpc = none) (htmps : existingTmps table.tmps ≠ [])
    {j : Nat} (hj : j < ((table.partitions ++ existingTmps table.tmps).flatMap
      Archive.blocks).length) :
    ¬ Recovers config fs name table (2 + 2 * j) := by
  rintro ⟨ops, recovered, hops, hrecovery, -⟩
  obtain ⟨more, rfl⟩ := compactionOps_cases htmpc htmps hops
  generalize (table.partitions ++ existingTmps table.tmps).flatMap Archive.blocks =
    all at hj hrecovery
  have hsplit : freeBlocksOps all = freeBlocksOps (all.take j) ++
      .removeBlock all[j] :: .createBlock all[j] :: freeBlocksOps (all.drop (j + 1)) := by
    conv_lhs => rw [← List.take_append_drop j all, List.drop_eq_getElem_cons hj,
      freeBlocksOps_append]
    rfl
  have hcount : 2 + 2 * j = (freeBlocksOps (all.take j)).length + 1 + 1 := by
    rw [length_freeBlocksOps, List.length_take, Nat.min_eq_left hj.le]
    omega
  rw [hcount, List.take_succ_cons, hsplit, List.append_assoc, List.take_length_add_append,
    applyOps_cons, applyOps_append] at hrecovery
  simp only [FileOp.apply, applyOps_freeBlocks_eq] at hrecovery
  rw [recovery, if_neg (by simp [applyOps, FileOp.apply])] at hrecovery
  exact absurd hrecovery (by simp)

/-- **Where an interrupted compaction is recovered.**  In every state of a run, at every
safe point nothing is lost.  Between two partitions the point is safe only if the
temporary archives outlive what was emptied, and at every second operation of the
emptying the restart cannot even read the table. -/
theorem interrupted_recovers (hsize : 2 ≤ blockSize)
    (hreach : Reachable config blockSize blocks allowed fs)
    (hlookup : fs.tables.lookup name = some table) :
    (∀ k, SafePoint config fs name table k → Recovers config fs name table k) ∧
    (∀ i, existingTmps table.tmps ≠ [] → ¬ RewriteExhausts config (fs.emptiedAt name table i) name →
      (Recovers config fs name table (table.opsUntil i) ↔
        (table.decoded config.tkvSize fs.storage none).Outlived i)) ∧
    ∀ j < ((table.partitions ++ existingTmps table.tmps).flatMap Archive.blocks).length,
      existingTmps table.tmps ≠ [] → ¬ Recovers config fs name table (2 + 2 * j) := by
  have hvalid := valid_of_reachable hsize hreach
  refine ⟨fun k hk => ?_, fun i htmps henough => hvalid.recovers_opsUntil_iff hlookup htmps henough,
    fun j hj htmps => not_recovers_of_missing (hvalid.tidy _ _ hlookup).noTmpc htmps hj⟩
  cases hk with
  | untouched henough =>
    obtain ⟨ops, hops⟩ := hvalid.compactionOps_isSome hlookup
    obtain ⟨recovered, hrecovery, hgreatest⟩ := hvalid.recovery_untouched hlookup henough
    refine ⟨ops, recovered, hops, hrecovery, fun key => ?_⟩
    rw [hgreatest, hvalid.greatestTimestamp_forget hlookup]
  | emptied i htmps houtlived henough =>
    exact (hvalid.recovers_opsUntil_iff hlookup htmps henough).mpr houtlived
  | finished hall hlast henough =>
    obtain ⟨ops, recovered, hops, hrecovery, hgreatest⟩ := hvalid.recovery_finished hlookup henough
    obtain rfl := Option.some.inj (hops.symm.trans hall)
    refine ⟨ops, recovered, hops, by rwa [List.take_of_length_le hlast], fun key => ?_⟩
    rw [hgreatest, hvalid.greatestTimestamp_forget hlookup]

end Points

/-- A record of key 1 in the only partition and one of key 2 in A1.tmp. -/
def apart : List Op :=
  [.create ⟨.ofBytes [84], .strongConsistency, 1, 1000⟩,
    .insert 0 ⟨.ofBytes [84], 1, .ofBytes [97], 10⟩, .dump, .compaction [84],
    .insert 0 ⟨.ofBytes [84], 2, .ofBytes [98], 11⟩, .dump]

theorem apart_runs : (runOps ⟨32, 8⟩ (Filesystem.formatted 32 8) apart).isSome := by decide +kernel

/-- The state after them. -/
def apartFs : Filesystem := (runOps ⟨32, 8⟩ (Filesystem.formatted 32 8) apart).get apart_runs

theorem apartFs_hasTable : (apartFs.tables.lookup [84]).isSome := by decide +kernel

/-- Its table. -/
def apartTable : Table := (apartFs.tables.lookup [84]).get apartFs_hasTable

/-- Exit with A1.tmpc written and nothing emptied. -/
theorem interrupted_recovers_apart : Recovers ⟨32, 8⟩ apartFs [84] apartTable 1 := by
  have hreach : Reachable ⟨32, 8⟩ 32 8 (fun _ => True) apartFs :=
    reachable_runOps .formatted (by decide +kernel) (Option.some_get apart_runs).symm
  refine (interrupted_recovers (by decide) hreach (Option.some_get apartFs_hasTable).symm).1 1 ?_
  refine SafePoint.emptied 0 (by decide +kernel) (fun record hmem => ?_) (by decide +kernel)
  exact absurd hmem List.not_mem_nil

/-- Exit with the partition emptied: the record of key 1 is gone. -/
theorem interrupted_loses :
    (((compactionOps ⟨32, 8⟩ apartFs.storage apartTable).bind fun ops =>
        recovery ⟨32, 8⟩ apartFs [84] (applyOps (ops.take 3) ⟨apartFs.storage, apartTable, []⟩)).map
      fun recovered => greatestTimestamp ⟨32, 8⟩ recovered [84] 1) = some (some none) ∧
    greatestTimestamp ⟨32, 8⟩ { apartFs with memTable := [] } [84] 1 = some (some 10) := by
  constructor <;> decide +kernel

end Lissandra
