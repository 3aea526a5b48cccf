import Lissandra.DropLeftovers
import Lissandra.DurableLogs
import Lissandra.JournalRetries
import Lissandra.InterruptedCompaction
import Lissandra.SelectPlacement
import Lissandra.Traces

/-! # The filesystem process as a store of logs

What clients see of the filesystem process over its whole life: requests for names that tables can
have, dumps, compactions, its end by SIGINT, which dumps first, and its death between two of these,
perhaps in a dump between two of its file writes.  A table is a log of records; those in `mem_table`
are recent, those in archives durable.  Compactions do nothing to the logs.

Neither end comes inside a compaction (`interrupted_recovers` is about that) or between the `fopen`
and the `fclose` of a file, which would leave the file cut off.

Every history of the process is one of the `LogStore` (`Represents.simulation`), with the same
answers, and what is stored for a key is the newest record of the log.
-/
namespace Lissandra

/-! ## What happens to the process -/

/-- A request, a whole turn of a background thread, or an end of the process and its next start. -/
inductive FsEvent where
  | insert (now : Int64) (input : InsertInput)
  | multiinsert (clock : Nat → Int64) (inputs : List InsertInput)
  | create (input : CreateInput)
  | drop (input : DropInput)
  | dump
  | compaction (name : Bytes)
  | shutdown
  | kill (archives tkvs : Nat)

/-- `handle_sigint`. -/
def handleSigint (fs : Filesystem) : Option Filesystem := dump fs

/-- `main`, on the files of a process that is gone. -/
def Filesystem.restart (fs : Filesystem) : Filesystem := { fs with memTable := [] }

/-- `dump_table` up to `create_fs_archive`: blocks that no archive lists.  A process that is out of
blocks is left out. -/
def Filesystem.tear (fs : Filesystem) (tkvs : List Bytes) : Option Filesystem := do
  let (storage, archive) ← dumpTable fs.storage tkvs
  if 0 ∈ archive.blocks then none else some { fs with storage }

/-- What the client is answered, and the process after it.  A process that is killed has written
the first `archives` archives of a dump, and the blocks of the first `tkvs` texts of the next one;
each of these files is whole, and no compaction is under way. -/
def FsEvent.run (config : FsConfig) (fs : Filesystem) :
    FsEvent → Option (Option Int32 × Filesystem)
  | .insert now input =>
    let (status, fs) := processInsert config now input fs
    some (some status, fs)
  | .multiinsert clock inputs =>
    let (status, fs) := processMultiinsert config clock inputs fs
    some (some status, fs)
  | .create input => (processCreate input fs).map fun (status, fs) => (some status, fs)
  | .drop input => (processDrop input fs).map fun (status, fs) => (some status, fs)
  | .dump => (Lissandra.dump fs).map fun fs => (none, fs)
  | .compaction name => (Lissandra.compaction config name fs).map fun fs => (none, fs)
  | .shutdown => (handleSigint fs).map fun fs => (none, fs.restart)
  | .kill archives tkvs => do
    let written ← (fs.memTable.take archives).foldlM dumpOne fs
    let torn ← written.tear (((fs.memTable[archives]?).map MemTable.tkvs).getD [] |>.take tkvs)
    some (none, torn.restart)

/-- No request is for `.` or `..`, inserted records are storable and tables have partitions. -/
def FsEvent.Sane (config : FsConfig) : FsEvent → Prop
  | .insert now input =>
    ¬ IsDots input.tableName.bytes ∧ Storable config.tkvSize (insertedRecord now input)
  | .multiinsert clock inputs => ∀ entry ∈ inputs.zipIdx,
    ¬ IsDots entry.1.tableName.bytes ∧
      Storable config.tkvSize (insertedRecord (clock entry.2) entry.1)
  | .create input => input.partitions ≠ 0
  | .drop input => ¬ IsDots input.tableName.bytes
  | _ => True

instance (config : FsConfig) : DecidablePred (FsEvent.Sane config)
  | .insert now input => inferInstanceAs (Decidable (¬ IsDots input.tableName.bytes ∧
      Storable config.tkvSize (insertedRecord now input)))
  | .multiinsert clock inputs => inferInstanceAs (Decidable (∀ entry ∈ inputs.zipIdx,
      ¬ IsDots entry.1.tableName.bytes ∧
        Storable config.tkvSize (insertedRecord (clock entry.2) entry.1)))
  | .create input => inferInstanceAs (Decidable (input.partitions ≠ 0))
  | .drop input => inferInstanceAs (Decidable (¬ IsDots input.tableName.bytes))
  | .dump | .compaction _ | .shutdown | .kill _ _ => isTrue trivial

/-- One event and its answer, as long as there are enough blocks. -/
def FsStep (config : FsConfig) (fs : Filesystem) (event : FsEvent × Option Int32)
    (fs' : Filesystem) : Prop :=
  event.1.Sane config ∧ event.1.run config fs = some (event.2, fs') ∧ fs'.Allocated

/-- The tables as logs. -/
abbrev FsStore := LogStore Bytes Record

/-- The answer to an INSERT. -/
def insertStatus (config : FsConfig) (store : FsStore) (input : InsertInput) : Int32 :=
  if (store.durable (toUppercase input.tableName.bytes)).isNone then -2
  else if config.maxValueSize < input.value.bytes.length then -1
  else 0

/-- The records of a batch that are accepted. -/
def appends (config : FsConfig) (store : FsStore) (clock : Nat → Int64)
    (inputs : List (InsertInput × Nat)) : List (LogOp Bytes Record) :=
  (inputs.filter fun entry => insertStatus config store entry.1 = 0).map fun (input, i) =>
    .append (toUppercase input.tableName.bytes) (insertedRecord (clock i) input)

/-- What an event is to the logs, and how it is answered. -/
inductive FsEvent.Means (config : FsConfig) (store : FsStore) :
    FsEvent → Option Int32 → List (LogOp Bytes Record) → Prop
  | insert (now : Int64) (input : InsertInput) :
      Means config store (.insert now input) (some (insertStatus config store input))
        (appends config store (fun _ => now) [(input, 0)])
  | multiinsert (clock : Nat → Int64) (inputs : List InsertInput) :
      Means config store (.multiinsert clock inputs)
        (some (if ∀ input ∈ inputs, insertStatus config store input = 0 then 0 else -1))
        (appends config store clock inputs.zipIdx)
  | create (input : CreateInput)
      (new : store.durable (toUppercase input.tableName.bytes) = none) :
      Means config store (.create input) (some 0) [.create (toUppercase input.tableName.bytes)]
  | createOld (input : CreateInput)
      (old : (store.durable (toUppercase input.tableName.bytes)).isSome) :
      Means config store (.create input) (some (-1)) []
  | createFull (input : CreateInput) : Means config store (.create input) (some (-2)) []
  | drop (input : DropInput) (old : (store.durable (toUppercase input.tableName.bytes)).isSome) :
      Means config store (.drop input) (some 0) [.remove (toUppercase input.tableName.bytes)]
  | dropNone (input : DropInput)
      (new : store.durable (toUppercase input.tableName.bytes) = none) :
      Means config store (.drop input) (some (-1)) []
  | dump : Means config store .dump none [.flush fun _ => true, .restart]
  | compaction (name : Bytes) : Means config store (.compaction name) none []
  | shutdown : Means config store .shutdown none [.flush fun _ => true, .restart]
  | kill (archives tkvs : Nat) (written : Bytes → Bool) :
      Means config store (.kill archives tkvs) none [.flush written, .restart]

/-- One event of the store. -/
def StoreStep (config : FsConfig) (store : FsStore) (event : FsEvent × Option Int32)
    (store' : FsStore) : Prop :=
  ∃ ops, event.1.Means config store event.2 ops ∧ store' = store.run ops

/-! ## The logs of a state -/

/-- The record for a key in the archives. -/
def TableView.onDisk (view : TableView) (key : UInt16) : Option Record :=
  latest Record.key time key (view.partitionOf key ++ view.tmps.flatten)

/-- The records of a log for a key come down to the newest one. -/
def newestFor (log : List Record) (key : UInt16) : Option Record := latest Record.key time key log

/-- The memtable is what is recent, and the archives say for every key what is durable. -/
structure Represents (config : FsConfig) (fs : Filesystem) (store : FsStore) : Prop where
  valid : Valid config fs
  recent : ∀ name, store.recent name = (memRecords fs.memTable name).getD []
  durable : ∀ name, (fs.view config name).map TableView.onDisk = (store.durable name).map newestFor

section Represents
variable {config : FsConfig} {fs fs' : Filesystem} {store : FsStore} {name : Bytes}

theorem newestFor_append (log later : List Record) (key : UInt16) :
    newestFor (log ++ later) key = Lissandra.later time (newestFor log key) (newestFor later key) :=
  latest_append key log later

theorem represents_formatted {blockSize blocks : Nat} (hsize : 2 ≤ blockSize) :
    Represents config (Filesystem.formatted blockSize blocks) LogStore.empty where
  valid := valid_formatted hsize
  recent _ := rfl
  durable _ := by simp [Filesystem.view, Filesystem.formatted, LogStore.empty]

theorem Represents.isSome_durable (h : Represents config fs store) (name : Bytes) :
    (store.durable name).isSome = (fs.tables.lookup name).isSome := by
  have hname := congrArg Option.isSome (h.durable name)
  rw [Option.isSome_map, Option.isSome_map] at hname
  rw [← hname, Filesystem.view, Option.isSome_map]

/-- **What is stored is the newest record of the log.** -/
theorem Represents.stored (h : Represents config fs store) (name : Bytes) (key : UInt16) :
    storedRecord config fs name key = (store.entries name).map fun log => newestFor log key := by
  have hdurable := h.durable name
  cases hview : fs.view config name with
  | none =>
    rw [hview] at hdurable
    rw [storedRecord_of_view_none hview, LogStore.entries, Option.map_eq_none_iff.mp hdurable.symm]
    rfl
  | some view =>
    rw [hview] at hdurable
    obtain ⟨log, hlog, hdisk⟩ := Option.map_eq_some_iff.mp hdurable.symm
    obtain ⟨table, hlookup, hdecoded⟩ := Option.map_eq_some_iff.mp hview
    have hmem : view.mem.getD [] = store.recent name := by
      rw [h.recent, ← hdecoded]
      rfl
    rw [storedRecord_eq h.valid hview, LogStore.entries, hlog, TableView.stored, TableView.records,
      hmem]
    simp only [Option.map_some]
    rw [newestFor_append, hdisk, latest_append]
    rfl

/-! ## INSERT -/

theorem appends_one (store : FsStore) (clock : Nat → Int64) (input : InsertInput) (i : Nat)
    (rest : List (InsertInput × Nat)) :
    appends config store clock ((input, i) :: rest) =
      appends config store clock [(input, i)] ++ appends config store clock rest := by
  rw [appends, appends, appends, ← List.map_append, ← List.filter_append, List.singleton_append]

/-- What an INSERT adds does not change what is accepted. -/
theorem insertStatus_run (store : FsStore) (clock : Nat → Int64)
    (added : List (InsertInput × Nat)) (input : InsertInput) :
    insertStatus config (store.run (appends config store clock added)) input =
      insertStatus config store input := by
  have hdurable : ∀ (xs : List (InsertInput × Nat)) (middle : FsStore),
      (middle.run (xs.map fun (input, i) => .append (toUppercase input.tableName.bytes)
        (insertedRecord (clock i) input))).durable = middle.durable := by
    intro xs
    induction xs with
    | nil => exact fun _ => rfl
    | cons entry xs ih => exact fun middle => ih _
  rw [insertStatus, insertStatus, appends, hdurable]

theorem appends_run (store : FsStore) (clock later : Nat → Int64)
    (added entries : List (InsertInput × Nat)) :
    appends config (store.run (appends config store clock added)) later entries =
      appends config store later entries := by
  unfold appends
  congr 2
  funext entry
  rw [← appends, insertStatus_run]

/-- **An INSERT.** -/
theorem Represents.insert (h : Represents config fs store) (now : Int64) (input : InsertInput)
    (hsane : Storable config.tkvSize (insertedRecord now input)) :
    (processInsert config now input fs).1 = insertStatus config store input ∧
      Represents config (processInsert config now input fs).2
        (store.run (appends config store (fun _ => now) [(input, 0)])) := by
  have hisSome := h.isSome_durable (toUppercase input.tableName.bytes)
  have hstatus : (processInsert config now input fs).1 = insertStatus config store input := by
    rw [processInsert, insertStatus, existInDirectory, ← hisSome, ← Option.not_isNone]
    cases (store.durable (toUppercase input.tableName.bytes)).isNone with
    | true => rfl
    | false =>
      by_cases hsize : config.maxValueSize < input.value.bytes.length
      · simp [hsize]
      · simp [hsize]
  refine ⟨hstatus, ?_⟩
  rcases processInsert_cases config now input fs with ⟨status, hne, heq⟩ | ⟨-, heq⟩
  · have hrefused : insertStatus config store input ≠ 0 := by
      rw [← hstatus, heq]
      exact hne
    rw [heq, appends, List.filter_cons_of_neg (by simpa using hrefused)]
    exact h
  · have haccepted : insertStatus config store input = 0 := by rw [← hstatus, heq]
    obtain ⟨hvalid, hviews⟩ := h.valid.insert hsane (congrArg Prod.fst heq)
    rw [appends, List.filter_cons_of_pos (by simpa using haccepted)]
    refine ⟨hvalid, fun other => ?_, fun other => ?_⟩
    · rw [heq, memRecords_insert (convertRecord_text hsane)]
      change Function.update store.recent _ _ other = _
      rw [Function.update_apply]
      split
      · rw [h.recent]
        rfl
      · exact h.recent other
    · refine Eq.trans ?_ (h.durable other)
      rw [hviews, Option.map_map]
      refine Option.map_congr fun view _ => ?_
      dsimp only [Function.comp_apply]
      split
      · rfl
      · rfl

/-- **A batch**, INSERT by INSERT. -/
theorem Represents.multiinsert (h : Represents config fs store) (clock : Nat → Int64)
    (inputs : List InsertInput)
    (hsane : ∀ entry ∈ inputs.zipIdx,
      Storable config.tkvSize (insertedRecord (clock entry.2) entry.1)) :
    (processMultiinsert config clock inputs fs).1 =
        (if ∀ input ∈ inputs, insertStatus config store input = 0 then 0 else -1) ∧
      Represents config (processMultiinsert config clock inputs fs).2
        (store.run (appends config store clock inputs.zipIdx)) := by
  have hloop : ∀ (inputs : List InsertInput) (i : Nat) (result : Int32) (fs : Filesystem)
      (store : FsStore), Represents config fs store →
      (∀ entry ∈ inputs.zipIdx i,
        Storable config.tkvSize (insertedRecord (clock entry.2) entry.1)) →
      let (last, fs') := (inputs.zipIdx i).foldl (fun (multiinsertResult, fs) (input, i) =>
        let (result, fs) := processInsert config (clock i) input fs
        (if result < 0 then -1 else multiinsertResult, fs)) (result, fs)
      last = (if ∀ input ∈ inputs, insertStatus config store input = 0 then result else -1) ∧
        Represents config fs' (store.run (appends config store clock (inputs.zipIdx i))) := by
    intro inputs
    induction inputs with
    | nil =>
      intro i result fs store h _
      exact ⟨by simp, h⟩
    | cons input inputs ih =>
      intro i result fs store h hsane
      rw [List.zipIdx_cons] at hsane ⊢
      obtain ⟨hstatus, hnext⟩ := h.insert (clock i) input (hsane _ List.mem_cons_self)
      obtain ⟨hlast, hend⟩ := ih (i + 1)
        (if (processInsert config (clock i) input fs).1 < 0 then -1 else result) _ _ hnext
        fun entry hentry => hsane entry (List.mem_cons_of_mem _ hentry)
      rw [List.foldl_cons]
      refine ⟨hlast.trans ?_, ?_⟩
      · have hnegative : insertStatus config store input < 0 ↔
            insertStatus config store input ≠ 0 := by
          rw [insertStatus]
          split
          · decide
          · split <;> decide
        simp only [insertStatus_run, List.forall_mem_cons, hstatus, hnegative]
        by_cases hfirst : insertStatus config store input = 0
        · simp [hfirst]
        · simp [hfirst]
      · rw [appends_one, LogStore.run_append]
        have hfirst : appends config store clock [(input, i)] =
            appends config store (fun _ => clock i) [(input, 0)] := by
          simp only [appends, List.filter_cons, List.filter_nil]
          split <;> rfl
        rwa [hfirst, ← appends_run store (fun _ => clock i) clock [(input, 0)]]
  exact hloop inputs 0 0 fs store h hsane

/-- INSERTs touch no file. -/
theorem files_processMultiinsert (config : FsConfig) (clock : Nat → Int64)
    (inputs : List InsertInput) (fs : Filesystem) :
    (processMultiinsert config clock inputs fs).2.tables = fs.tables ∧
      (processMultiinsert config clock inputs fs).2.storage = fs.storage := by
  refine List.foldlRecOn (motive := fun reached : Int32 × Filesystem =>
    reached.2.tables = fs.tables ∧ reached.2.storage = fs.storage) inputs.zipIdx _ ⟨rfl, rfl⟩ ?_
  intro reached hreached entry _
  obtain ⟨htables, hstorage⟩ := tables_insert config (clock entry.2) entry.1 reached.2
  exact ⟨htables.trans hreached.1, hstorage.trans hreached.2⟩

/-! ## CREATE, DROP and compaction -/

theorem processCreate_status {input : CreateInput} {status : Int32}
    (h : processCreate input fs = some (status, fs')) :
    (status = 0 ∧ fs.tables.lookup (toUppercase input.tableName.bytes) = none) ∨
    (status = -1 ∧ (fs.tables.lookup (toUppercase input.tableName.bytes)).isSome ∧ fs' = fs) ∨
    (status = -2 ∧ fs' = fs) := by
  rw [processCreate] at h
  split at h
  · exact absurd h (by simp)
  · dsimp only at h
    split at h
    · split at h
      · rename_i hold
        obtain ⟨rfl, rfl⟩ := Prod.mk.inj (Option.some.inj h)
        exact .inr (.inl ⟨rfl, hold, rfl⟩)
      · rename_i hnew
        obtain ⟨rfl, -⟩ := Prod.mk.inj (Option.some.inj h)
        exact .inl ⟨rfl, by simpa using hnew⟩
    · obtain ⟨rfl, rfl⟩ := Prod.mk.inj (Option.some.inj h)
      exact .inr (.inr ⟨rfl, rfl⟩)

theorem TableView.onDisk_created (partitions : Nat) (mem : Option (List Record)) :
    (TableView.created partitions mem).onDisk = newestFor [] := by
  funext key
  have hpartition : (TableView.created partitions mem).partitionOf key = [] := by
    rw [TableView.partitionOf, TableView.created]
    cases hget : (List.replicate partitions ([] : List Record))[
      TableView.route (List.replicate partitions ([] : List Record)).length key]? with
    | none => rfl
    | some partition => exact (List.mem_replicate.mp (List.mem_of_getElem? hget)).2
  rw [TableView.onDisk, hpartition]
  rfl

/-- **A CREATE.** -/
theorem Represents.create {input : CreateInput} {status : Int32} (h : Represents config fs store)
    (hsane : input.partitions ≠ 0) (hrun : processCreate input fs = some (status, fs')) :
    ∃ ops, FsEvent.Means config store (.create input) (some status) ops ∧
      Represents config fs' (store.run ops) := by
  have hisSome := h.isSome_durable (toUppercase input.tableName.bytes)
  rcases processCreate_status hrun with ⟨rfl, hnew⟩ | ⟨rfl, hold, rfl⟩ | ⟨rfl, rfl⟩
  · rw [hnew] at hisSome
    have hnone : store.durable (toUppercase input.tableName.bytes) = none := by simpa using hisSome
    obtain ⟨hvalid, hmem, -, hviews⟩ :=
      h.valid.create hrun (partitions_ne_of_create hrun hsane)
    refine ⟨_, .create input hnone, hvalid, fun other => ?_, fun other => ?_⟩
    · rw [hmem]
      exact h.recent other
    · rw [hviews]
      change _ = (Function.update store.durable _ _ other).map _
      rw [Function.update_apply, hnone]
      split
      · rw [Option.map_some, TableView.onDisk_created]
        rfl
      · exact h.durable other
  · exact ⟨_, .createOld input (hisSome.trans hold), h⟩
  · exact ⟨_, .createFull input, h⟩

/-- **A DROP.** -/
theorem Represents.drop {input : DropInput} {status : Int32} (h : Represents config fs store)
    (hrun : processDrop input fs = some (status, fs')) :
    ∃ ops, FsEvent.Means config store (.drop input) (some status) ops ∧
      Represents config fs' (store.run ops) := by
  have hisSome := h.isSome_durable (toUppercase input.tableName.bytes)
  rcases processDrop_eq_some hrun with ⟨rfl, rfl, hnone⟩ | ⟨table, _, _, rfl, hlookup, -, -, -⟩
  · rw [hnone] at hisSome
    exact ⟨_, .dropNone input (by simpa using hisSome), h⟩
  · rw [hlookup] at hisSome
    obtain ⟨hvalid, hmem, -, hviews⟩ := h.valid.drop hrun
    refine ⟨_, .drop input hisSome, hvalid, fun other => ?_, fun other => ?_⟩
    · rw [hmem]
      exact h.recent other
    · rw [hviews]
      change _ = (Function.update store.durable _ _ other).map _
      rw [Function.update_apply]
      split
      · rfl
      · exact h.durable other

/-- **A compaction** changes nothing. -/
theorem Represents.compaction {table : Bytes} (h : Represents config fs store)
    (hrun : Lissandra.compaction config table fs = some fs') (halloc : fs'.Allocated) :
    Represents config fs' store := by
  obtain ⟨hvalid, hmem, -, hviews⟩ := h.valid.compaction hrun halloc
  refine ⟨hvalid, fun other => ?_, fun other => ?_⟩
  · rw [hmem]
    exact h.recent other
  · refine Eq.trans ?_ (h.durable other)
    rw [hviews, Option.map_map]
    refine Option.map_congr fun view hview => ?_
    funext key
    dsimp only [Function.comp_apply]
    split
    · rw [TableView.onDisk, TableView.compact_tmps, List.flatten_nil, List.append_nil]
      exact TableView.latest_partitionOf_compact (h.valid.routed other view hview)
        (h.valid.partitions_ne other view hview) key
    · rfl

/-! ## Dumps and restarts -/

theorem Valid.foldlM_dumpOne {rest : List MemTable} (h : Valid config fs)
    (hrest : rest ⊆ fs.memTable) (hrun : rest.foldlM Lissandra.dumpOne fs = some fs')
    (halloc : fs'.Allocated) : Valid config fs' := by
  induction rest generalizing fs with
  | nil =>
    obtain rfl := Option.some.inj hrun
    exact h
  | cons table rest ih =>
    rw [List.foldlM_cons] at hrun
    obtain ⟨fs₁, hone, hrest'⟩ := Option.bind_eq_some_iff.mp hrun
    obtain ⟨hvalid, hmem, -⟩ := h.dumpOne (hrest List.mem_cons_self) hone
      (halloc.of_subset (foldlM_dumpOne_owned hrest'))
    exact ih hvalid (hmem ▸ fun t ht => hrest (List.mem_cons_of_mem _ ht)) hrest'

/-- Blocks that no archive lists change no table. -/
theorem Valid.tear {records : List Record} (h : Valid config fs)
    (hrecords : ∀ record ∈ records, Storable config.tkvSize record)
    (hrun : fs.tear (records.map convertToTkv) = some fs') :
    Valid config fs' ∧ fs'.tables = fs.tables ∧
      ∀ name, fs'.view config name = fs.view config name := by
  obtain ⟨⟨storage, archive⟩, hdump, hrun⟩ := Option.bind_eq_some_iff.mp hrun
  dsimp only at hrun
  split at hrun
  · cases hrun
  rename_i hzero
  obtain rfl := Option.some.inj hrun
  obtain ⟨hholds, hkeeps, -⟩ := h.holds.dumpTable hdump hzero hrecords
  have hviews : ∀ name,
      Filesystem.view config { fs with storage } name = fs.view config name := fun name =>
    view_keeps h.toSound rfl rfl fun table hlookup => hkeeps.subset (owned_subset hlookup)
  have hsound : Sound config { fs with storage } :=
    ⟨@Holds.of_append _ _ _ [archive.blocks] hholds, h.tidy⟩
  refine ⟨⟨hsound, h.upper, h.nodup, h.texts, fun name view hview => ?_, fun name view hview => ?_,
    fun name view hview => ?_⟩, rfl, hviews⟩
  all_goals rw [hviews] at hview
  · exact h.routed name view hview
  · exact h.partitions_ne name view hview
  · exact h.names name view hview

theorem view_restart (name : Bytes) : (fs.restart.view config name).map TableView.onDisk =
    (fs.view config name).map TableView.onDisk := by
  rw [Filesystem.view, Filesystem.view, Option.map_map, Option.map_map]
  rfl

/-- The records that a dump has for a table. -/
theorem flatten_filter_name {rest : List MemTable} (hnodup : (rest.map MemTable.name).Nodup)
    (name : Bytes) :
    ((rest.filter fun table => table.name = name).map MemTable.records).flatten =
      (memRecords rest name).getD [] := by
  rw [filter_name hnodup, memRecords]
  cases rest.find? fun table => table.name = name with
  | none => rfl
  | some table => simp

/-- **The archives that a dump writes**, perhaps not all of them. -/
theorem Represents.flush {rest : List MemTable} {written : Bytes → Bool}
    (h : Represents config fs store) (hrest : rest.Sublist fs.memTable)
    (hwritten : ∀ name,
      memRecords rest name = if written name then memRecords fs.memTable name else none)
    (hrun : rest.foldlM Lissandra.dumpOne fs = some fs') (halloc : fs'.Allocated) :
    Valid config fs' ∧ ∀ name, (fs'.view config name).map TableView.onDisk =
      ((store.apply (.flush written)).durable name).map newestFor := by
  refine ⟨h.valid.foldlM_dumpOne hrest.subset hrun halloc, fun name => ?_⟩
  obtain ⟨-, -, -, hviews⟩ := h.valid.toSound.foldlM_dumpOne hrun halloc
    (fun table htable => h.valid.texts table (hrest.subset htable))
    fun table htable => h.valid.upper table (hrest.subset htable)
  have hdurable := h.durable name
  rw [hviews, Option.map_map, LogStore.durable_flush, LogStore.entries]
  cases hview : fs.view config name with
  | none =>
    rw [hview] at hdurable
    simp [Option.map_eq_none_iff.mp hdurable.symm]
  | some view =>
    rw [hview] at hdurable
    obtain ⟨log, hlog, hdisk⟩ := Option.map_eq_some_iff.mp hdurable.symm
    have honDisk : ∀ key, TableView.onDisk { view with
        tmps := view.tmps ++
          (rest.filter fun table => table.name = name).map MemTable.records } key =
        later time (newestFor log key) (newestFor ((memRecords rest name).getD []) key) := by
      intro key
      rw [hdisk, TableView.onDisk, List.flatten_append,
        flatten_filter_name (h.valid.nodup.sublist (hrest.map MemTable.name)), ← List.append_assoc,
        latest_append]
      rfl
    rw [hlog, Option.map_some, Function.comp_apply, funext honDisk, hwritten]
    cases written name with
    | true =>
      simp only [if_true, Option.map_some, ← h.recent]
      exact congrArg some (funext fun key => (newestFor_append log _ key).symm)
    | false => rfl

/-- What is recent is forgotten. -/
theorem Represents.restart (hvalid : Valid config fs)
    (hdurable : ∀ name,
      (fs.view config name).map TableView.onDisk = (store.durable name).map newestFor) :
    Represents config fs.restart (store.apply .restart) where
  valid := hvalid.forget
  recent _ := rfl
  durable name := (view_restart name).trans (hdurable name)

/-- **A dump.** -/
theorem Represents.dump (h : Represents config fs store) (hrun : Lissandra.dump fs = some fs')
    (halloc : fs'.Allocated) :
    Represents config fs' (store.run [.flush fun _ => true, .restart]) := by
  obtain ⟨fs₁, hfold, rfl⟩ := Option.map_eq_some_iff.mp hrun
  obtain ⟨hvalid, hviews⟩ := @Represents.flush _ _ _ _ _ (fun _ => true) h
    (List.Sublist.refl _) (fun _ => rfl) hfold halloc
  exact Represents.restart hvalid hviews

/-- The tables of which a process that dies in a dump has written the archives. -/
def writtenBefore (memTable : List MemTable) (archives : Nat) (name : Bytes) : Bool :=
  (memTable.take archives).any fun table => table.name = name

theorem memRecords_take (memTable : List MemTable) (archives : Nat) (name : Bytes) :
    memRecords (memTable.take archives) name =
      if writtenBefore memTable archives name then memRecords memTable name else none := by
  cases hfind : (memTable.take archives).find? fun table => table.name = name with
  | none =>
    have hany : writtenBefore memTable archives name = false := by
      rw [writtenBefore, List.any_eq_false]
      exact List.find?_eq_none.mp hfind
    rw [hany, memRecords, hfind]
    rfl
  | some table =>
    have hany : writtenBefore memTable archives name = true :=
      List.any_eq_true.mpr ⟨table, List.mem_of_find?_eq_some hfind,
        by simpa using List.find?_some hfind⟩
    have hwhole : memTable.find? (fun table => table.name = name) = some table := by
      rw [← List.take_append_drop archives memTable, List.find?_append, hfind]
      rfl
    rw [hany, memRecords, memRecords, hfind, hwhole]
    rfl

/-- A process that dies has written some archives, and blocks that no archive lists. -/
theorem Valid.kill {archives tkvs : Nat} {answer : Option Int32} (h : Valid config fs)
    (hrun : (FsEvent.kill archives tkvs).run config fs = some (answer, fs'))
    (halloc : fs'.Allocated) :
    ∃ written torn, (fs.memTable.take archives).foldlM Lissandra.dumpOne fs = some written ∧
      written.Allocated ∧ Valid config torn ∧
      (∀ name, torn.view config name = written.view config name) ∧
      answer = none ∧ fs' = torn.restart := by
  obtain ⟨written, hfold, hrun⟩ := Option.bind_eq_some_iff.mp hrun
  obtain ⟨torn, htear, hrun⟩ := Option.bind_eq_some_iff.mp hrun
  obtain ⟨rfl, rfl⟩ := Prod.mk.inj (Option.some.inj hrun)
  -- the texts of the next archive are those of records
  obtain ⟨records, hrecords, htexts⟩ : ∃ records : List Record,
      (∀ record ∈ records, Storable config.tkvSize record) ∧
      (((fs.memTable[archives]?).map MemTable.tkvs).getD []).take tkvs =
        records.map convertToTkv := by
    cases hnext : fs.memTable[archives]? with
    | none => exact ⟨[], fun _ hmem => absurd hmem List.not_mem_nil, by simp⟩
    | some table =>
      obtain ⟨htkvs, hstorable⟩ := h.texts table (List.mem_of_getElem? hnext)
      refine ⟨table.records.take tkvs,
        fun record hmem => hstorable record (List.mem_of_mem_take hmem), ?_⟩
      rw [Option.map_some, Option.getD_some, htkvs, List.map_take]
  rw [htexts] at htear
  have hsame : (ownedBy torn.restart.tables) = ownedBy written.tables := by
    obtain ⟨⟨storage, archive⟩, -, htear⟩ := Option.bind_eq_some_iff.mp htear
    dsimp only at htear
    split at htear
    · cases htear
    · obtain rfl := Option.some.inj htear
      rfl
  rw [Filesystem.Allocated, hsame] at halloc
  have hvalid := h.foldlM_dumpOne (List.take_subset _ _) hfold halloc
  obtain ⟨hvalid', -, hviews⟩ := hvalid.tear hrecords htear
  exact ⟨written, torn, hfold, halloc, hvalid', hviews, rfl, rfl⟩

/-- **A process that dies.** -/
theorem Represents.kill {archives tkvs : Nat} {answer : Option Int32}
    (h : Represents config fs store)
    (hrun : (FsEvent.kill archives tkvs).run config fs = some (answer, fs'))
    (halloc : fs'.Allocated) :
    answer = none ∧ Represents config fs'
      (store.run [.flush (writtenBefore fs.memTable archives), .restart]) := by
  obtain ⟨written, torn, hfold, halloc', hvalid, hsame, rfl, rfl⟩ := h.valid.kill hrun halloc
  obtain ⟨-, hviews⟩ := h.flush (List.take_sublist _ _)
    (memRecords_take fs.memTable archives) hfold halloc'
  refine ⟨rfl, Represents.restart hvalid fun name => ?_⟩
  rw [hsame]
  exact hviews name

/-! ## The simulation -/

/-- **One event.** -/
theorem Represents.simulation (config : FsConfig) :
    Simulation (FsStep config) (StoreStep config) (Represents config) := by
  rintro fs store ⟨event, answer⟩ fs' h ⟨hsane, hrun, halloc⟩
  suffices hops : ∃ ops, event.Means config store answer ops ∧
      Represents config fs' (store.run ops) by
    obtain ⟨ops, hmeans, hrep⟩ := hops
    exact ⟨_, ⟨ops, hmeans, rfl⟩, hrep⟩
  cases event with
  | insert now input =>
    obtain ⟨rfl, rfl⟩ := Prod.mk.inj (Option.some.inj hrun)
    obtain ⟨hstatus, hrep⟩ := h.insert now input hsane.2
    exact ⟨_, hstatus ▸ .insert now input, hrep⟩
  | multiinsert clock inputs =>
    obtain ⟨rfl, rfl⟩ := Prod.mk.inj (Option.some.inj hrun)
    obtain ⟨hstatus, hrep⟩ :=
      h.multiinsert clock inputs fun entry hentry => (hsane entry hentry).2
    exact ⟨_, hstatus ▸ .multiinsert clock inputs, hrep⟩
  | create input =>
    obtain ⟨⟨status, fs₁⟩, hcreate, heq⟩ := Option.map_eq_some_iff.mp hrun
    obtain ⟨rfl, rfl⟩ := Prod.mk.inj heq
    exact h.create hsane hcreate
  | drop input =>
    obtain ⟨⟨status, fs₁⟩, hdrop, heq⟩ := Option.map_eq_some_iff.mp hrun
    obtain ⟨rfl, rfl⟩ := Prod.mk.inj heq
    exact h.drop hdrop
  | dump =>
    obtain ⟨fs₁, hdump, heq⟩ := Option.map_eq_some_iff.mp hrun
    obtain ⟨rfl, rfl⟩ := Prod.mk.inj heq
    exact ⟨_, .dump, h.dump hdump halloc⟩
  | compaction name =>
    obtain ⟨fs₁, hcompaction, heq⟩ := Option.map_eq_some_iff.mp hrun
    obtain ⟨rfl, rfl⟩ := Prod.mk.inj heq
    exact ⟨_, .compaction name, h.compaction hcompaction halloc⟩
  | shutdown =>
    obtain ⟨fs₁, hdump, heq⟩ := Option.map_eq_some_iff.mp hrun
    obtain ⟨rfl, rfl⟩ := Prod.mk.inj heq
    refine ⟨_, .shutdown, ?_⟩
    have hrep := h.dump hdump halloc
    exact Represents.restart hrep.valid hrep.durable
  | kill archives tkvs =>
    obtain ⟨rfl, hrep⟩ := h.kill hrun halloc
    exact ⟨_, .kill archives tkvs _, hrep⟩

end Represents

/-! ## Histories -/

end Lissandra
