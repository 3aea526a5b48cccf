import Lissandra.FilesystemRuns
import Lissandra.SelectView

/-! # SELECT while dumps run

`dump` takes the semaphore of `search_key` for the memtable only, so dumps may run between
the lookups.  A record that is in memory at the lookup of the temporary archives and in an
archive at the lookup of the memtable is seen by neither.  `searchKeyAcross_dumps_iff` says
exactly when SELECT is as new as every INSERT that was answered before it.
-/
namespace Lissandra

/-! ## Acknowledged inserts -/

/-- The records whose INSERT was answered with 0, with the names of their tables, after an
operation.  DROP takes back those of its table. -/
def Op.ackedAfter (config : FsConfig) (fs : Filesystem) (acked : List (Bytes × Record)) :
    Op → List (Bytes × Record)
  | .insert now input =>
    if (processInsert config now input fs).1 = 0 then
      acked ++ [(toUppercase input.tableName.bytes, insertedRecord now input)]
    else acked
  | .drop input => acked.filter fun entry => entry.1 ≠ toUppercase input.tableName.bytes
  | _ => acked

/-- A run with the records it has acknowledged. -/
inductive AckedRun (config : FsConfig) (blockSize blocks : Nat) :
    List (Bytes × Record) → Filesystem → Prop
  | formatted : AckedRun config blockSize blocks [] (Filesystem.formatted blockSize blocks)
  | step {acked : List (Bytes × Record)} {fs fs' : Filesystem} (op : Op)
      (before : AckedRun config blockSize blocks acked fs) (sane : op.Sane config)
      (run : op.run config fs = some fs') (allocated : fs'.Allocated) :
      AckedRun config blockSize blocks (op.ackedAfter config fs acked) fs'

/-- What the filesystem keeps of the acknowledged records: for each of them it stores one
of the same key that is at least as new. -/
structure Remembers (config : FsConfig) (acked : List (Bytes × Record))
    (fs : Filesystem) : Prop where
  kept : ∀ entry ∈ acked, ∃ view, fs.view config entry.1 = some view ∧
    ∃ record, view.stored entry.2.key = some record ∧ time entry.2 ≤ time record
  storable : ∀ entry ∈ acked, Storable config.tkvSize entry.2

section Remembers
variable {config : FsConfig} {blockSize blocks : Nat} {acked : List (Bytes × Record)}
  {fs fs' : Filesystem} {view : TableView}

theorem AckedRun.reachable (h : AckedRun config blockSize blocks acked fs) :
    Reachable config blockSize blocks (fun _ => True) fs := by
  induction h with
  | formatted => exact .formatted
  | step op _ hsane hrun halloc ih => exact ih.step op trivial hsane hrun halloc

/-- An insert never makes the stored record older. -/
theorem TableView.stored_insert_ge (view : TableView) (record : Record) {key : UInt16}
    {old : Record} (hold : view.stored key = some old) :
    ∃ new, (view.insert record).stored key = some new ∧ time old ≤ time new := by
  rw [stored_insert, hold]
  cases latest Record.key time key [record] with
  | none => exact ⟨old, by simp, le_rfl⟩
  | some r =>
    rw [later_some_some]
    split
    · rename_i hlt
      exact ⟨r, rfl, hlt.le⟩
    · exact ⟨old, rfl, le_rfl⟩

theorem TableView.stored_insert_self (view : TableView) (record : Record) :
    ∃ new, (view.insert record).stored record.key = some new ∧ time record ≤ time new := by
  have hself : latest Record.key time record.key [record] = some record := by
    simp [latest, entriesOf]
  rw [stored_insert, hself]
  cases view.stored record.key with
  | none => exact ⟨record, by simp, le_rfl⟩
  | some old =>
    rw [later_some_some]
    split
    · exact ⟨record, rfl, le_rfl⟩
    · rename_i hge
      exact ⟨old, rfl, not_lt.mp hge⟩

/-- Changes of the views that keep the stored records. -/
theorem Remembers.map {f : Bytes → TableView → TableView} (h : Remembers config acked fs)
    (hviews : ∀ name, fs'.view config name = (fs.view config name).map (f name))
    (hstored : ∀ name view, fs.view config name = some view →
      ∀ key, (f name view).stored key = view.stored key) :
    Remembers config acked fs' := by
  refine ⟨fun entry hentry => ?_, h.storable⟩
  obtain ⟨view, hview, record, hrecord, hle⟩ := h.kept entry hentry
  exact ⟨f entry.1 view, by rw [hviews, hview]; rfl, record,
    by rw [hstored _ _ hview, hrecord], hle⟩

/-- **One operation forgets no acknowledged record.** -/
theorem Remembers.step {op : Op} (h : Remembers config acked fs) (hvalid : Valid config fs)
    (hsane : op.Sane config) (hrun : op.run config fs = some fs') (halloc : fs'.Allocated) :
    Remembers config (op.ackedAfter config fs acked) fs' := by
  cases op with
  | insert now input =>
    obtain rfl := Option.some.inj hrun
    rcases processInsert_cases config now input fs with ⟨status, hne, heq⟩ | ⟨hexist, heq⟩
    · have hacked : (Op.insert now input).ackedAfter config fs acked = acked := by
        simp [Op.ackedAfter, heq, hne]
      rw [hacked, heq]
      exact h
    · obtain ⟨-, hviews⟩ := hvalid.insert hsane (congrArg Prod.fst heq)
      have hacked : (Op.insert now input).ackedAfter config fs acked =
          acked ++ [(toUppercase input.tableName.bytes, insertedRecord now input)] := by
        simp [Op.ackedAfter, heq]
      rw [hacked]
      refine ⟨fun entry hentry => ?_, fun entry hentry => ?_⟩
      · rcases List.mem_append.mp hentry with hentry | hentry
        · obtain ⟨view, hview, record, hrecord, hle⟩ := h.kept entry hentry
          rw [hviews, hview, Option.map_some]
          refine ⟨_, rfl, ?_⟩
          split
          · obtain ⟨new, hnew, hge⟩ := view.stored_insert_ge (insertedRecord now input) hrecord
            exact ⟨new, hnew, hle.trans hge⟩
          · exact ⟨record, hrecord, hle⟩
        · obtain rfl := List.mem_singleton.mp hentry
          obtain ⟨directory, hdirectory⟩ := Option.isSome_iff_exists.mp hexist
          rw [hviews, view_some hdirectory, Option.map_some, if_pos rfl]
          exact ⟨_, rfl, TableView.stored_insert_self _ _⟩
      · rcases List.mem_append.mp hentry with hentry | hentry
        · exact h.storable entry hentry
        · obtain rfl := List.mem_singleton.mp hentry
          exact hsane
  | create input =>
    obtain ⟨⟨status, fs₁⟩, hcreate, rfl⟩ := Option.map_eq_some_iff.mp hrun
    rcases processCreate_cases hcreate with ⟨-, rfl⟩ | ⟨rfl, hnew, -⟩
    · exact h
    · obtain ⟨-, -, -, hviews⟩ := hvalid.create hcreate (partitions_ne_of_create hcreate hsane)
      refine ⟨fun entry hentry => ?_, h.storable⟩
      obtain ⟨view, hview, hrest⟩ := h.kept entry hentry
      refine ⟨view, ?_, hrest⟩
      rw [hviews, if_neg, hview]
      -- The new table had no view, so no record of it is acknowledged.
      intro hname
      rw [hname, view_eq_none_iff.mpr hnew] at hview
      exact absurd hview (by simp)
  | drop input =>
    obtain ⟨⟨status, fs₁⟩, hdrop, rfl⟩ := Option.map_eq_some_iff.mp hrun
    obtain ⟨-, -, -, hviews⟩ := hvalid.drop hdrop
    refine ⟨fun entry hentry => ?_, fun entry hentry =>
      h.storable entry (List.mem_of_mem_filter hentry)⟩
    obtain ⟨hentry, hname⟩ := List.mem_filter.mp hentry
    rw [hviews, if_neg (of_decide_eq_true hname)]
    exact h.kept entry hentry
  | dump =>
    obtain ⟨-, -, -, hviews⟩ := hvalid.dump hrun halloc
    exact h.map hviews fun _ view _ key => view.stored_dump key
  | compaction table =>
    obtain ⟨-, -, -, hviews⟩ := hvalid.compaction hrun halloc
    refine h.map (f := fun name view => if name = table then view.compact else view) hviews
      fun name view hview key => ?_
    split
    · exact TableView.stored_compact (hvalid.routed name view hview)
        (hvalid.partitions_ne name view hview) key
    · rfl

/-- **A run forgets no acknowledged record.** -/
theorem AckedRun.remembers (hsize : 2 ≤ blockSize) (h : AckedRun config blockSize blocks acked fs) :
    Remembers config acked fs := by
  induction h with
  | formatted =>
    exact ⟨fun _ hentry => absurd hentry List.not_mem_nil, fun _ hentry =>
      absurd hentry List.not_mem_nil⟩
  | step op hbefore hsane hrun halloc ih =>
    exact ih.step (valid_of_reachable hsize hbefore.reachable) hsane hrun halloc

end Remembers

/-! ## Dumps between the lookups -/

/-- Dumps in a row, each with enough free blocks. -/
inductive Dumps : Nat → Filesystem → Filesystem → Prop
  | zero (fs : Filesystem) : Dumps 0 fs fs
  | succ {count : Nat} {fs fs₁ fs₂ : Filesystem} (dumps : Dumps count fs fs₁)
      (run : dump fs₁ = some fs₂) (allocated : fs₂.Allocated) : Dumps (count + 1) fs fs₂

/-- The view after some dumps: the first one moves the memtable, the others find it empty. -/
def TableView.dumped (count : Nat) (view : TableView) : TableView :=
  if count = 0 then view else view.dump

theorem TableView.dumped_dumped (m n : Nat) (view : TableView) :
    (view.dumped m).dumped n = view.dumped (m + n) := by
  have htwice : view.dump.dump = view.dump := by
    simp [TableView.dump]
  unfold dumped
  by_cases hm : m = 0 <;> by_cases hn : n = 0 <;> simp [hm, hn, htwice]

theorem Dumps.view_eq {config : FsConfig} {count : Nat} {fs fs' : Filesystem} (h : Valid config fs)
    (hdumps : Dumps count fs fs') :
    Valid config fs' ∧ fs'.storage.blockSize = fs.storage.blockSize ∧
      ∀ name, fs'.view config name = (fs.view config name).map (TableView.dumped count) := by
  induction hdumps with
  | zero => exact ⟨h, rfl, fun name => Option.map_id'.symm⟩
  | succ hdumps hrun halloc ih =>
    rename_i count _ _ _
    obtain ⟨hvalid, hsize, hviews⟩ := ih h
    obtain ⟨hvalid', -, hsize', hviews'⟩ := hvalid.dump hrun halloc
    refine ⟨hvalid', hsize'.trans hsize, fun name => ?_⟩
    rw [hviews', hviews, Option.map_map]
    refine Option.map_congr fun view _ => ?_
    exact TableView.dumped_dumped count 1 view

/-! ## Answers that are new enough -/

/-- The record is as new as all those of a list. -/
def AsNew (bound : List Record) (record : Record) : Prop :=
  ∀ other ∈ bound, time other ≤ time record

/-- The answer is such a record. -/
def Top (bound : List Record) (answer : Option Record) : Prop :=
  ∃ record ∈ answer, AsNew bound record

/-- The search of an archive takes its answer from these records of the key: from the last
word of the last block that overwrites the held text, from all of them if there is none. -/
def Shown (key : UInt16) (ss : List (Segment convertToTkv)) (record : Record) : Prop :=
  ((∀ s ∈ ss, ¬ Stray key s) ∧ record ∈ ofKey key (ss.flatMap Segment.items)) ∨
  ∃ before segment after, ss = before ++ segment :: after ∧ Stray key segment ∧
    (∀ s ∈ after, ¬ Stray key s) ∧ record ∈ lastWord key before segment after

section Top
variable {key : UInt16} {bound records : List Record} {a b : Option Record}

theorem AsNew.mono {old new : Record} (h : AsNew bound old) (hle : time old ≤ time new) :
    AsNew bound new := fun other hother => (h other hother).trans hle

theorem not_top_none : ¬ Top bound none := fun ⟨_, hnone, _⟩ => absurd hnone (by simp)

theorem top_some {record : Record} : Top bound (some record) ↔ AsNew bound record :=
  ⟨fun ⟨_, hrecord, hnew⟩ => Option.some.inj hrecord ▸ hnew, fun hnew => ⟨record, rfl, hnew⟩⟩

/-- The later of two answers is as good as the better one. -/
theorem top_later : Top bound (later time a b) ↔ Top bound a ∨ Top bound b := by
  cases b with
  | none => simp [not_top_none]
  | some new =>
    cases a with
    | none => simp [not_top_none]
    | some old =>
      rw [later_some_some, top_some, top_some]
      by_cases hlt : time old < time new
      · rw [if_pos hlt, top_some]
        exact ⟨Or.inr, fun h => h.elim (fun hold => hold.mono hlt.le) id⟩
      · rw [if_neg hlt, top_some]
        exact ⟨Or.inl, fun h => h.elim id fun hnew => hnew.mono (not_lt.mp hlt)⟩

theorem top_newest : Top bound (newest records) ↔ ∃ record ∈ records, AsNew bound record := by
  constructor
  · rintro ⟨record, hrecord, htop⟩
    exact ⟨record, List.argmax_mem hrecord, htop⟩
  · rintro ⟨record, hrecord, htop⟩
    obtain ⟨best, -, hbest, hmax⟩ := exists_argmax time (List.ne_nil_of_mem hrecord)
    exact ⟨best, hbest, htop.mono (hmax record hrecord)⟩

theorem top_archiveAnswer {blockSize : Nat} : Top bound (archiveAnswer blockSize key records) ↔
    ∃ record, Shown key (layout convertToTkv blockSize records) record ∧ AsNew bound record := by
  rw [archiveAnswer]
  constructor
  · intro htop
    by_cases hany : ∃ segment ∈ layout convertToTkv blockSize records, Stray key segment
    · obtain ⟨before, segment, after, hsplit, hstray, hafter⟩ := exists_last_of_exists hany
      rw [hsplit, searchSegments_of_stray hstray hafter] at htop
      obtain ⟨record, hrecord, hnew⟩ := top_newest.mp htop
      exact ⟨record, Or.inr ⟨before, segment, after, hsplit, hstray, hafter, hrecord⟩, hnew⟩
    · have hnone : ∀ s ∈ layout convertToTkv blockSize records, ¬ Stray key s :=
        fun s hs hstray => hany ⟨s, hs, hstray⟩
      rw [searchSegments_of_not_stray hnone] at htop
      obtain ⟨record, hrecord, hnew⟩ := top_newest.mp htop
      exact ⟨record, Or.inl ⟨hnone, hrecord⟩, hnew⟩
  · rintro ⟨record, ⟨hnone, hrecord⟩ | ⟨before, segment, after, hsplit, hstray, hafter, hrecord⟩,
      hnew⟩
    · rw [searchSegments_of_not_stray hnone]
      exact top_newest.mpr ⟨record, hrecord, hnew⟩
    · rw [hsplit, searchSegments_of_stray hstray hafter]
      exact top_newest.mpr ⟨record, hrecord, hnew⟩

theorem top_tmpsAnswer {blockSize : Nat} {tmps : List (List Record)} :
    Top bound (tmpsAnswer blockSize key tmps) ↔
      ∃ tmp ∈ tmps, ∃ record, Shown key (layout convertToTkv blockSize tmp) record ∧
        AsNew bound record := by
  have hfold : ∀ best : Option Record,
      (Top bound (tmps.foldl (fun best tmp => later time best (archiveAnswer blockSize key tmp))
        best) ↔ Top bound best ∨ ∃ tmp ∈ tmps, Top bound (archiveAnswer blockSize key tmp)) := by
    induction tmps with
    | nil => exact fun best => by simp
    | cons tmp tmps ih =>
      intro best
      rw [List.foldl_cons, ih, top_later, or_assoc]
      simp only [List.mem_cons, exists_eq_or_imp]
  rw [tmpsAnswer, hfold none, or_iff_right not_top_none]
  exact exists_congr fun tmp => and_congr_right fun _ => top_archiveAnswer

end Top

/-! ## What SELECT sees -/

/-- The records of a key that one of the lookups sees, in terms of the view before the
first one: `beforeTmps` dumps run before the lookup of the temporary archives, `total`
before that of the memtable. -/
def Seen (blockSize : Nat) (key : UInt16) (view : TableView) (beforeTmps total : Nat)
    (record : Record) : Prop :=
  record ∈ ofKey key (view.partitionOf key) ∨
  (∃ tmp ∈ view.tmps, Shown key (layout convertToTkv blockSize tmp) record) ∨
  ∃ mem ∈ view.mem, (total = 0 ∧ record ∈ ofKey key mem) ∨
    (beforeTmps ≠ 0 ∧ Shown key (layout convertToTkv blockSize mem) record)

/-- The records of a key among the acknowledged ones. -/
def ackedOf (acked : List (Bytes × Record)) (name : Bytes) (key : UInt16) : List Record :=
  (acked.filter fun entry => entry.1 = name ∧ entry.2.key = key).map Prod.snd

theorem mem_ackedOf {acked : List (Bytes × Record)} {name : Bytes} {key : UInt16}
    {record : Record} :
    record ∈ ackedOf acked name key ↔ (name, record) ∈ acked ∧ record.key = key := by
  simp [ackedOf]

section Seen
variable {blockSize beforeTmps total : Nat} {key : UInt16} {view : TableView} {bound : List Record}

theorem partitionOf_dumped (count : Nat) (view : TableView) (key : UInt16) :
    (view.dumped count).partitionOf key = view.partitionOf key := by
  rw [TableView.dumped]
  split
  · rfl
  · rfl

theorem mem_tmps_dumped {count : Nat} {tmp : List Record} : tmp ∈ (view.dumped count).tmps ↔
    tmp ∈ view.tmps ∨ (count ≠ 0 ∧ tmp ∈ view.mem) := by
  rw [TableView.dumped]
  split
  · rename_i hcount
    simp [hcount]
  · rename_i hcount
    simp [hcount, TableView.dump]

theorem mem_dumped (count : Nat) (view : TableView) :
    (view.dumped count).mem.getD [] = if count = 0 then view.mem.getD [] else [] := by
  rw [TableView.dumped]
  split
  · rfl
  · rfl

/-- The best of the three answers is new enough exactly when some record that is new
enough is seen. -/
theorem top_lookups : Top bound
    (later time (later time (latest Record.key time key (view.partitionOf key))
      (latest Record.key time key ((view.dumped total).mem.getD [])))
      (tmpsAnswer blockSize key (view.dumped beforeTmps).tmps)) ↔
    ∃ record, Seen blockSize key view beforeTmps total record ∧ AsNew bound record := by
  have hmemory : Top bound (latest Record.key time key ((view.dumped total).mem.getD [])) ↔
      ∃ mem ∈ view.mem, ∃ record ∈ ofKey key mem, total = 0 ∧ AsNew bound record := by
    have htop : ∀ records, Top bound (latest Record.key time key records) ↔
        ∃ record ∈ ofKey key records, AsNew bound record := fun _ => top_newest
    rw [htop, mem_dumped]
    by_cases htotal : total = 0
    · cases hmem : view.mem with
      | none => simp [htotal, ofKey]
      | some mem => simp [htotal]
    · simp [htotal, ofKey]
  have hpartition : Top bound (latest Record.key time key (view.partitionOf key)) ↔
      ∃ record ∈ ofKey key (view.partitionOf key), AsNew bound record := top_newest
  rw [top_later, top_later, hmemory, hpartition, top_tmpsAnswer]
  constructor
  · rintro ((⟨record, hrecord, hnew⟩ | ⟨mem, hmem, record, hrecord, htotal, hnew⟩) |
      ⟨tmp, htmp, record, hshown, hnew⟩)
    · exact ⟨record, Or.inl hrecord, hnew⟩
    · exact ⟨record, Or.inr (Or.inr ⟨mem, hmem, Or.inl ⟨htotal, hrecord⟩⟩), hnew⟩
    · rcases mem_tmps_dumped.mp htmp with htmp | ⟨hbefore, hmem⟩
      · exact ⟨record, Or.inr (Or.inl ⟨tmp, htmp, hshown⟩), hnew⟩
      · exact ⟨record, Or.inr (Or.inr ⟨tmp, hmem, Or.inr ⟨hbefore, hshown⟩⟩), hnew⟩
  · rintro ⟨record, hrecord | ⟨tmp, htmp, hshown⟩ |
      ⟨mem, hmem, ⟨htotal, hrecord⟩ | ⟨hbefore, hshown⟩⟩, hnew⟩
    · exact Or.inl (Or.inl ⟨record, hrecord, hnew⟩)
    · exact Or.inr ⟨tmp, mem_tmps_dumped.mpr (Or.inl htmp), record, hshown, hnew⟩
    · exact Or.inl (Or.inr ⟨mem, hmem, record, hrecord, htotal, hnew⟩)
    · exact Or.inr ⟨mem, mem_tmps_dumped.mpr (Or.inr ⟨hbefore, hmem⟩), record, hshown, hnew⟩

end Seen

/-- **How old the answer of SELECT can be.**  The filesystem keeps a record as new as each
acknowledged one.  With dumps placed between the lookups in any way, SELECT answers with a
record as new as every acknowledged one of the key exactly when there is none, or one of
the lookups sees a record of the key that is as new. -/
theorem searchKeyAcross_dumps_iff {config : FsConfig} {blockSize blocks : Nat}
    {acked : List (Bytes × Record)} {fs atTmpc atTmp atPartition atMemtable : Filesystem}
    {name : Bytes} {view : TableView} {n₀ n₁ n₂ n₃ : Nat} (hsize : 2 ≤ blockSize)
    (hacked : AckedRun config blockSize blocks acked fs) (hview : fs.view config name = some view)
    (hTmpc : Dumps n₀ fs atTmpc) (hTmp : Dumps n₁ atTmpc atTmp)
    (hPartition : Dumps n₂ atTmp atPartition) (hMemtable : Dumps n₃ atPartition atMemtable)
    (key : UInt16) :
    (∀ record ∈ ackedOf acked name key,
      ∃ stored ∈ view.stored key, time record ≤ time stored) ∧
    ((∃ found, searchKeyAcross config atTmpc atTmp atPartition atMemtable name key = some found ∧
        ∀ record ∈ ackedOf acked name key, time record ≤ found.timestamp.toInt) ↔
      ackedOf acked name key = [] ∨
      ∃ record, Seen blockSize key view (n₀ + n₁) (n₀ + n₁ + n₂ + n₃) record ∧
        AsNew (ackedOf acked name key) record) := by
  have hremembers := hacked.remembers hsize
  have hvalid := valid_of_reachable hsize hacked.reachable
  -- each lookup sees the view after the dumps that came before it
  obtain ⟨hvalid₀, hsize₀, hviews₀⟩ := hTmpc.view_eq hvalid
  obtain ⟨hvalid₁, hsize₁, hviews₁⟩ := hTmp.view_eq hvalid₀
  obtain ⟨hvalid₂, -, hviews₂⟩ := hPartition.view_eq hvalid₁
  obtain ⟨hvalid₃, -, hviews₃⟩ := hMemtable.view_eq hvalid₂
  have hview₀ := hviews₀ name
  rw [hview, Option.map_some] at hview₀
  have hview₁ := hviews₁ name
  rw [hview₀, Option.map_some, TableView.dumped_dumped] at hview₁
  have hview₂ := hviews₂ name
  rw [hview₁, Option.map_some, TableView.dumped_dumped] at hview₂
  have hview₃ := hviews₃ name
  rw [hview₂, Option.map_some, TableView.dumped_dumped] at hview₃
  refine ⟨fun record hrecord => ?_, ?_⟩
  · obtain ⟨hmem, rfl⟩ := mem_ackedOf.mp hrecord
    obtain ⟨_, hsome, hstored⟩ := hremembers.kept _ hmem
    obtain rfl := Option.some.inj (hview.symm.trans hsome)
    exact hstored
  · rw [searchKeyAcross_eq hvalid₀ hvalid₁ hvalid₂ hvalid₃ hview₀ hview₁ hview₂ hview₃,
      partitionOf_dumped, hsize₁, hsize₀, blockSize_of_reachable hsize hacked.reachable,
      ← top_lookups]
    generalize later time _ _ = answer
    constructor
    · rintro ⟨found, hfound, hnew⟩
      obtain rfl := Option.some.inj hfound
      by_cases hnone : ackedOf acked name key = []
      · exact Or.inl hnone
      · obtain ⟨record, hrecord⟩ := List.exists_mem_of_ne_nil _ hnone
        have hnonneg : 0 ≤ time record :=
          (hremembers.storable _ (mem_ackedOf.mp hrecord).1).timestamp_nonneg
        cases answer with
        | none =>
          -- no record is answered with -1, and no timestamp is negative
          have hminus : time record ≤ (-1 : Int64).toInt := hnew record hrecord
          exact absurd (hnonneg.trans hminus) (by decide)
        | some best => exact Or.inr (top_some.mpr hnew)
    · rintro (hnone | ⟨best, hbest, hnew⟩)
      · exact ⟨_, rfl, fun record hrecord => absurd hrecord (by simp [hnone])⟩
      · obtain rfl : answer = some best := hbest
        exact ⟨_, rfl, hnew⟩

/-- Several operations with the records they acknowledge. -/
def runAcked (config : FsConfig) (ops : List Op) (before : List (Bytes × Record) × Filesystem) :
    Option (List (Bytes × Record) × Filesystem) :=
  ops.foldlM (fun (acked, fs) op => ((op.run config fs).filter fun fs => fs.Allocated).map
    fun fs' =>
    (op.ackedAfter config fs acked, fs')) before

theorem ackedRun_runAcked {config : FsConfig} {blockSize blocks : Nat} {ops : List Op}
    {before after : List (Bytes × Record) × Filesystem}
    (h : AckedRun config blockSize blocks before.1 before.2) (hsane : ∀ op ∈ ops, op.Sane config)
    (hrun : runAcked config ops before = some after) :
    AckedRun config blockSize blocks after.1 after.2 := by
  induction ops generalizing before with
  | nil =>
    obtain rfl := Option.some.inj hrun
    exact h
  | cons op ops ih =>
    rw [runAcked, List.foldlM_cons] at hrun
    obtain ⟨middle, hone, hrest⟩ := Option.bind_eq_some_iff.mp hrun
    obtain ⟨fs₁, hfilter, rfl⟩ := Option.map_eq_some_iff.mp hone
    obtain ⟨hone, halloc⟩ := Option.filter_eq_some_iff.mp hfilter
    exact ih (h.step op (hsane op List.mem_cons_self) hone (of_decide_eq_true halloc))
      (fun o ho => hsane o (List.mem_cons_of_mem _ ho)) hrest

/-- A table with one record, in memory. -/
def insertedOnce : List Op :=
  [.create ⟨.ofBytes [84], .strongConsistency, 1, 1000⟩,
    .insert 0 ⟨.ofBytes [84], 1, .ofBytes [97], 9⟩]

theorem insertedOnce_runs :
    (runAcked ⟨32, 8⟩ insertedOnce ([], Filesystem.formatted 8 32)).isSome := by decide +kernel

theorem insertedOnce_dumps : ((runAcked ⟨32, 8⟩ insertedOnce ([], Filesystem.formatted 8 32)).bind
    fun (_, fs) => dump fs).isSome := by decide +kernel

theorem searchKeyAcross_dumps_iff_insertedOnce :
    let start := (runAcked ⟨32, 8⟩ insertedOnce ([], Filesystem.formatted 8 32)).get
      insertedOnce_runs
    let dumped := ((runAcked ⟨32, 8⟩ insertedOnce ([], Filesystem.formatted 8 32)).bind
      fun (_, fs) => dump fs).get insertedOnce_dumps
    let view : TableView := ⟨[[]], [], some [⟨9, 1, [97]⟩]⟩
    (∀ record ∈ ackedOf start.1 [84] 1, ∃ stored ∈ view.stored 1, time record ≤ time stored) ∧
    ((∃ found, searchKeyAcross ⟨32, 8⟩ start.2 dumped dumped dumped [84] 1 = some found ∧
        ∀ record ∈ ackedOf start.1 [84] 1, time record ≤ found.timestamp.toInt) ↔
      ackedOf start.1 [84] 1 = [] ∨
      ∃ record, Seen 8 1 view 1 1 record ∧ AsNew (ackedOf start.1 [84] 1) record) := by
  intro start dumped view
  have hstart : runAcked ⟨32, 8⟩ insertedOnce ([], Filesystem.formatted 8 32) = some start :=
    (Option.some_get insertedOnce_runs).symm
  have hdump : dump start.2 = some dumped := by
    have hbind : (runAcked ⟨32, 8⟩ insertedOnce ([], Filesystem.formatted 8 32)).bind
        (fun (_, fs) => dump fs) = some dumped := (Option.some_get insertedOnce_dumps).symm
    rwa [hstart] at hbind
  exact searchKeyAcross_dumps_iff (by decide)
    (ackedRun_runAcked .formatted (by decide +kernel) hstart) (by decide +kernel)
    (.zero _) (.succ (.zero _) hdump (by decide +kernel)) (.zero _) (.zero _) 1

/-- A dump between the lookup of the temporary archives and that of the memtable takes the
only record of a key away from SELECT. -/
theorem searchKeyAcross_not_asNew : ∃ acked fs fs',
    AckedRun ⟨32, 8⟩ 8 32 acked fs ∧ Dumps 1 fs fs' ∧ ([84], ⟨9, 1, [97]⟩) ∈ acked ∧
    searchKeyAcross ⟨32, 8⟩ fs fs fs' fs' [84] 1 = some Found.missing := by
  have hruns : ((runAcked ⟨32, 8⟩ insertedOnce ([], Filesystem.formatted 8 32)).bind
    fun (acked, fs) =>
      ((dump fs).filter fun fs' => fs'.Allocated).map fun fs' =>
        (decide (([84], ⟨9, 1, [97]⟩) ∈ acked), searchKeyAcross ⟨32, 8⟩ fs fs fs' fs' [84] 1)) =
      some (true, some Found.missing) := by decide +kernel
  obtain ⟨⟨acked, fs⟩, hstart, hruns⟩ := Option.bind_eq_some_iff.mp hruns
  obtain ⟨fs', hfilter, hruns⟩ := Option.map_eq_some_iff.mp hruns
  obtain ⟨hdump, halloc⟩ := Option.filter_eq_some_iff.mp hfilter
  obtain ⟨hmem, hmissing⟩ := Prod.mk.inj hruns
  exact ⟨acked, fs, fs', ackedRun_runAcked .formatted (by decide +kernel) hstart,
    .succ (.zero _) hdump (of_decide_eq_true halloc), of_decide_eq_true hmem, hmissing⟩

end Lissandra
