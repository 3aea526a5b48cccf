import Lissandra.BlockLedger
import Lissandra.FilesystemRuns

/-! # Running out of blocks

`dump_table` and `create_partition` ask `find_free_block` for one block after the other and
never look at its answer: where it is -1 they list block number 0 and write to it.
`process_create` does look.

How many blocks a writer asks for depends on its texts and on the block size alone
(`writeTkvs_length`).  If a dump, or the rewrite of the partitions in a compaction, asks
for more than are free, some archive lists block number 0 in the end, which is no block of
the bitmap (`exhausted_not_losesNothing`); two such searches and records are gone.
-/
namespace Lissandra

/-! ## How many blocks are asked for -/

/-- The blocks that the writer lists for some texts. -/
def blocksFor (storage : Storage) (tkvs : List Bytes) : Nat :=
  ((writeTkvs storage tkvs).map fun written => written.2.length).getD 0

/-- The blocks for several archives. -/
def blocksForAll (storage : Storage) (archives : List (List Bytes)) : Nat :=
  (archives.map (blocksFor storage)).sum

section Writer
variable {storage after base : Storage} {tkvs : List Bytes} {archive : Archive}

/-- What is free does not change how many blocks are listed. -/
theorem writeTkvs_length {blocks : List Nat} (hrun : writeTkvs storage tkvs = some (after, blocks))
    (hsize : base.blockSize = storage.blockSize) : blocksFor base tkvs = blocks.length := by
  obtain ⟨v, hv, heq⟩ := Option.bind_eq_some_iff.mp hrun
  obtain ⟨rfl, rfl⟩ := Prod.mk.inj (Option.some.inj heq)
  have hshape : BlockWriter.SameShape (BlockWriter.start base) (BlockWriter.start storage) :=
    BlockWriter.SameShape.nextBlock ⟨rfl, hsize, rfl⟩
  obtain ⟨w, hw, hsame⟩ := hshape.writeRecords hv
  rw [blocksFor, writeTkvs, hw]
  exact hsame.length

/-- What one archive does to the free blocks, unless it lists block number 0. -/
theorem dumpTable_asks (hrun : dumpTable storage tkvs = some (after, archive))
    (hzero : 0 ∉ archive.blocks) (hsize : base.blockSize = storage.blockSize) :
    after.blockSize = storage.blockSize ∧
      blocksFor base tkvs + (availableBlocks after.bitmap).length =
        (availableBlocks storage.bitmap).length := by
  obtain ⟨⟨after', blocks⟩, hwrite, heq⟩ := Option.bind_eq_some_iff.mp hrun
  obtain ⟨rfl, rfl⟩ := Prod.mk.inj (Option.some.inj heq)
  have hfree := (took_of_writeTkvs hwrite).1
  rw [filter_ne_zero hzero] at hfree
  rw [writeTkvs_length hwrite hsize, hfree, List.length_append]
  exact ⟨blockSize_of_writeTkvs hwrite, rfl⟩

end Writer

/-! ## What should survive -/

/-- The archives of all tables. -/
def Filesystem.archives (fs : Filesystem) : List Archive :=
  fs.tables.entries.flatMap fun entry => entry.2.archives

/-- A record of a table that can be read from an archive or from the memtable. -/
def Held (config : FsConfig) (fs : Filesystem) (name : Bytes) (record : Record) : Prop :=
  (∃ table archive records, fs.tables.lookup name = some table ∧ archive ∈ table.archives ∧
    createTkvList config.tkvSize fs.storage.block archive.blocks = some records ∧
    record ∈ records) ∨
  ∃ table ∈ fs.memTable, table.name = name ∧ ∃ tkv ∈ table.tkvs, convertRecord tkv = some record

/-- Nothing is lost between two states: for every record held before one that is as new is
held for its key, every block listed is one of the bitmap, and no two archives share one. -/
structure LosesNothing (config : FsConfig) (fs fs' : Filesystem) : Prop where
  held : ∀ name record, Held config fs name record →
    ∃ newer, Held config fs' name newer ∧ newer.key = record.key ∧ time record ≤ time newer
  real : ∀ b ∈ fs'.listedBlocks, 1 ≤ b ∧ b ≤ fs'.storage.bitmap.length
  disjoint : fs'.archives.Pairwise fun archive other => archive.blocks.Disjoint other.blocks

/-- A dump of this state asks for more blocks than are free. -/
def DumpExhausts (fs : Filesystem) : Prop :=
  (availableBlocks fs.storage.bitmap).length <
    blocksForAll fs.storage (fs.memTable.map MemTable.tkvs)

/-- What `compaction` reads as A1.tmpc, and its `tmp_destroy_flag`. -/
def compactionSource (table : Table) : Option (Archive × Bool) :=
  match table.tmpc with
  | some tmpc => some (tmpc, false)
  | none =>
    if existingTmps table.tmps = [] then none else some (getAllBlocksFromAllTmps table, true)

/-- The state in which a compaction starts to rewrite the partitions, and their records. -/
def partitionRewrite (config : FsConfig) (fs : Filesystem) (name : Bytes) :
    Option (Storage × List (List Record)) := do
  let table ← fs.tables.lookup name
  let (tmpc, tmpDestroyFlag) ← compactionSource table
  let partitionTkvs ← mergedPartitions config fs.storage table tmpc
  let (storage, _) ← freeArchives fs.storage table tmpDestroyFlag
  some (storage, partitionTkvs)

/-- A compaction of this table asks for more blocks than it has freed and found free. -/
def RewriteExhausts (config : FsConfig) (fs : Filesystem) (name : Bytes) : Prop :=
  ∃ rewrite ∈ partitionRewrite config fs name, (availableBlocks rewrite.1.bitmap).length <
    blocksForAll rewrite.1 (rewrite.2.map fun partition => partition.map convertToTkv)

instance (fs : Filesystem) : Decidable (DumpExhausts fs) := inferInstanceAs (Decidable (_ < _))

instance (config : FsConfig) (fs : Filesystem) (name : Bytes) :
    Decidable (RewriteExhausts config fs name) := inferInstanceAs (Decidable (∃ _ ∈ _, _))

/-! ## Block number zero -/

section Zero
variable {config : FsConfig} {fs fs' : Filesystem} {base : Storage} {name : Bytes}
  {rest : List MemTable}

theorem existingTmps_subset_reduceOption (tmps : List (Option Archive)) :
    existingTmps tmps ⊆ tmps.reduceOption := by
  induction tmps with
  | nil => exact List.nil_subset _
  | cons tmp rest ih =>
    cases tmp with
    | none => exact List.nil_subset _
    | some archive =>
      rw [existingTmps, List.reduceOption_cons_of_some]
      exact List.cons_subset_cons archive ih

theorem ownedBy_subset_listedBlocks (fs : Filesystem) :
    (ownedBy fs.tables).flatten ⊆ fs.listedBlocks := by
  intro b hb
  obtain ⟨blocks, hblocks, hb⟩ := List.mem_flatten.mp hb
  obtain ⟨entry, hentry, hblocks⟩ := List.mem_flatMap.mp hblocks
  obtain ⟨archive, harchive, rfl⟩ := List.mem_map.mp hblocks
  refine List.mem_flatMap.mpr ⟨entry, hentry, List.mem_flatMap.mpr ⟨archive, ?_, hb⟩⟩
  rw [Table.archives, List.mem_append, List.mem_append]
  rcases List.mem_append.mp harchive with hmem | hmem
  · exact Or.inl (Or.inl hmem)
  · exact Or.inl (Or.inr (existingTmps_subset_reduceOption _ hmem))

/-- An archive with block number 0 breaks what should survive. -/
theorem not_losesNothing_of_zero (h : ¬ fs'.Allocated) : ¬ LosesNothing config fs fs' := by
  intro hnothing
  have hzero : 0 ∈ (ownedBy fs'.tables).flatten := not_not.mp h
  have hreal := hnothing.real 0 (ownedBy_subset_listedBlocks fs' hzero)
  omega

/-- The loop of a dump that never lists block number 0 finds all the blocks it asks for. -/
theorem blocksForAll_le_of_dump (hrun : rest.foldlM dumpOne fs = some fs') (halloc : fs'.Allocated)
    (hsize : base.blockSize = fs.storage.blockSize) :
    blocksForAll base (rest.map MemTable.tkvs) ≤ (availableBlocks fs.storage.bitmap).length := by
  induction rest generalizing fs with
  | nil => exact Nat.zero_le _
  | cons table rest ih =>
    rw [List.foldlM_cons] at hrun
    obtain ⟨fs₁, hone, hrest⟩ := Option.bind_eq_some_iff.mp hrun
    have halloc₁ := halloc.of_subset (foldlM_dumpOne_owned hrest)
    obtain ⟨storage, archive, directory, hdump, hlookup, rfl⟩ := dumpOne_cases hone
    have hzero : 0 ∉ archive.blocks := by
      intro hmem
      refine halloc₁ (List.mem_flatten.mpr ⟨archive.blocks, ?_, hmem⟩)
      refine List.mem_append_left _ (List.mem_map_of_mem (List.mem_append_right _ ?_))
      exact mem_existingTmps_addTmp archive directory.tmps
    obtain ⟨hblock, hasks⟩ := dumpTable_asks hdump hzero hsize
    have hrest := ih hrest (hsize.trans hblock.symm)
    simp only [blocksForAll, List.map_cons, List.sum_cons] at hrest ⊢
    omega

theorem blocksForAll_le_of_createNewPartitions {storage after : Storage} {archives : List Archive}
    {partitionTkvs : List (List Record)}
    (hrun : createNewPartitions storage partitionTkvs = some (after, archives))
    (hzero : ∀ archive ∈ archives, 0 ∉ archive.blocks)
    (hsize : base.blockSize = storage.blockSize) :
    blocksForAll base (partitionTkvs.map fun partition => partition.map convertToTkv) ≤
      (availableBlocks storage.bitmap).length := by
  induction partitionTkvs generalizing storage archives with
  | nil => exact Nat.zero_le _
  | cons partition rest ih =>
    obtain ⟨storage₁, archive, archives', hone, hrest, rfl⟩ := createNewPartitions_cons hrun
    obtain ⟨hblock, hasks⟩ := dumpTable_asks hone (hzero archive List.mem_cons_self) hsize
    have hrest := ih hrest (fun a ha => hzero a (List.mem_cons_of_mem _ ha))
      (hsize.trans hblock.symm)
    simp only [blocksForAll, List.map_cons, List.sum_cons] at hrest ⊢
    omega

/-- What a compaction that rewrites partitions leaves. -/
theorem compaction_of_partitionRewrite {storage : Storage} {partitionTkvs : List (List Record)}
    (hrewrite : partitionRewrite config fs name = some (storage, partitionTkvs))
    (hrun : compaction config name fs = some fs') :
    ∃ after archives table, createNewPartitions storage partitionTkvs = some (after, archives) ∧
      fs'.tables.lookup name = some table ∧ table.partitions = archives := by
  obtain ⟨table, hlookup, hrewrite⟩ := Option.bind_eq_some_iff.mp hrewrite
  obtain ⟨⟨tmpc, tmpDestroyFlag⟩, htmpc, hrewrite⟩ := Option.bind_eq_some_iff.mp hrewrite
  obtain ⟨merged, hmerged, hrewrite⟩ := Option.bind_eq_some_iff.mp hrewrite
  obtain ⟨⟨freed, table'⟩, hfree, hrewrite⟩ := Option.bind_eq_some_iff.mp hrewrite
  obtain ⟨rfl, rfl⟩ := Prod.mk.inj (Option.some.inj hrewrite)
  have hstart : startCompaction config fs name table tmpc tmpDestroyFlag = some fs' := by
    rw [compaction, hlookup] at hrun
    rw [compactionSource] at htmpc
    cases hleft : table.tmpc with
    | some left =>
      simp only [hleft] at htmpc hrun
      obtain ⟨rfl, rfl⟩ := Prod.mk.inj (Option.some.inj htmpc)
      exact hrun
    | none =>
      simp only [hleft] at htmpc hrun
      split at htmpc
      · exact absurd htmpc (by simp)
      · obtain ⟨rfl, rfl⟩ := Prod.mk.inj (Option.some.inj htmpc)
        rw [if_neg ‹_›] at hrun
        exact hrun
  obtain ⟨merged', freed', table'', after, archives, hmerged', hfree', hcreate, rfl⟩ :=
    startCompaction_eq_some hstart
  obtain rfl := Option.some.inj (hmerged.symm.trans hmerged')
  obtain ⟨rfl, rfl⟩ := Prod.mk.inj (Option.some.inj (hfree.symm.trans hfree'))
  exact ⟨after, archives, _, hcreate, AList.lookup_insert _, rfl⟩

/-- **Running out of blocks is never survived.**  A dump that asks for more blocks than are
free, and a compaction whose rewrite does, leave an archive that lists block number 0. -/
theorem exhausted_not_losesNothing (config : FsConfig) (fs : Filesystem) :
    (∀ fs', dump fs = some fs' → DumpExhausts fs → ¬ LosesNothing config fs fs') ∧
    ∀ name fs', compaction config name fs = some fs' → RewriteExhausts config fs name →
      ¬ LosesNothing config fs fs' := by
  constructor
  · intro fs' hrun hfew
    obtain ⟨fs₁, hfold, rfl⟩ := Option.map_eq_some_iff.mp hrun
    refine not_losesNothing_of_zero fun halloc => ?_
    have halloc₁ : fs₁.Allocated := halloc
    have henough := blocksForAll_le_of_dump hfold halloc₁ rfl
    exact absurd hfew (Nat.not_lt.mpr henough)
  · rintro name fs' hrun ⟨⟨storage, partitionTkvs⟩, hrewrite, hfew⟩
    obtain ⟨after, archives, table, hcreate, hlookup, rfl⟩ :=
      compaction_of_partitionRewrite hrewrite hrun
    refine not_losesNothing_of_zero fun halloc => ?_
    have hzero : ∀ archive ∈ table.partitions, 0 ∉ archive.blocks := by
      intro archive hmem hz
      refine halloc (List.mem_flatten.mpr ⟨archive.blocks, owned_subset hlookup ?_, hz⟩)
      exact List.mem_map_of_mem (List.mem_append_left _ hmem)
    have henough := blocksForAll_le_of_createNewPartitions hcreate hzero rfl
    exact absurd hfew (Nat.not_lt.mpr henough)

end Zero

/-- Two tables of four partitions each take the eight blocks there are; both have a record in
memory. -/
def filledFs : Filesystem :=
  (runOps ⟨32, 8⟩ (Filesystem.formatted 32 8)
    [.create ⟨.ofBytes [84], .strongConsistency, 4, 1000⟩,
      .create ⟨.ofBytes [85], .strongConsistency, 4, 1000⟩,
      .insert 0 ⟨.ofBytes [84], 1, .ofBytes [97], 10⟩,
      .insert 0 ⟨.ofBytes [85], 1, .ofBytes [98], 11⟩]).getD (Filesystem.formatted 32 8)

theorem filledFs_dumps : (dump filledFs).isSome := by decide +kernel

/-- The same after a dump. -/
def spilledFs : Filesystem := (dump filledFs).get filledFs_dumps

/-- Both partitions of a table have a block that is nearly full, the dump has a small record
for each, and another table has the five blocks left. -/
def crowdedFs : Filesystem :=
  (runOps ⟨32, 8⟩ (Filesystem.formatted 16 8)
    [.create ⟨.ofBytes [84], .strongConsistency, 2, 1000⟩,
      .insert 0 ⟨.ofBytes [84], 2, .ofBytes [97, 97, 97, 97, 97, 97, 97, 97], 10⟩,
      .insert 0 ⟨.ofBytes [84], 1, .ofBytes [98, 98, 98, 98, 98, 98, 98, 98], 10⟩,
      .dump, .compaction [84],
      .insert 0 ⟨.ofBytes [84], 4, .ofBytes [97], 11⟩,
      .insert 0 ⟨.ofBytes [84], 3, .ofBytes [98], 11⟩,
      .dump,
      .create ⟨.ofBytes [85], .strongConsistency, 5, 1000⟩]).getD (Filesystem.formatted 16 8)

theorem crowdedFs_compacts : (compaction ⟨32, 8⟩ [84] crowdedFs).isSome := by decide +kernel

/-- The same after a compaction. -/
def rewrittenFs : Filesystem := (compaction ⟨32, 8⟩ [84] crowdedFs).get crowdedFs_compacts

theorem exhausted_not_losesNothing_full :
    ¬ LosesNothing ⟨32, 8⟩ filledFs spilledFs ∧ ¬ LosesNothing ⟨32, 8⟩ crowdedFs rewrittenFs :=
  ⟨(exhausted_not_losesNothing ⟨32, 8⟩ filledFs).1 spilledFs (Option.some_get filledFs_dumps).symm
      (by decide +kernel),
    (exhausted_not_losesNothing ⟨32, 8⟩ crowdedFs).2 [84] rewrittenFs
      (Option.some_get crowdedFs_compacts).symm (by decide +kernel)⟩

/-- The dump writes both records to block number 0, one over the other, and lists it in
both archives: T then answers with the record of U. -/
theorem spilledFs_losesRecord :
    DumpExhausts filledFs ∧ ¬ LosesNothing ⟨32, 8⟩ filledFs spilledFs ∧
      storedRecord ⟨32, 8⟩ filledFs [84] 1 = some (some ⟨10, 1, [97]⟩) ∧
      storedRecord ⟨32, 8⟩ spilledFs [84] 1 = some (some ⟨11, 1, [98]⟩) := by
  refine ⟨by decide +kernel, fun h => ?_, by decide +kernel, by decide +kernel⟩
  exact absurd (h.real 0 (by decide +kernel)) (by decide)

end Lissandra
