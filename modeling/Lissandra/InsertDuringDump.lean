import Lissandra.FilesystemRuns
import Lissandra.Runs

/-! # INSERT while a dump runs

`process_insert` finds or creates its table in `mem_table`, keeps a pointer to it and then
appends its text; `dump` copies the tables one after the other and then replaces
`mem_table` by an empty list.  `process_insert` does not take `dump_semaphore`, so a text
appended to a table that is already copied is lost when the list is replaced.  If every
append comes in time, no acknowledged record is lost (`ackedInsert_kept`).
-/
namespace Lissandra

/-! ## The processes -/

/-- A `process_insert` that holds a pointer to its table: the element `index` of the
`mem_table` that was the list after `memTable` calls of `free_memtable`. -/
structure HeldTable where
  memTable : Nat
  index : Nat
  now : Int64
  input : InsertInput

/-- The process with its running `process_insert`s and at most one running dump, which has
copied the first `dumping` tables. -/
structure InsertDump where
  fs : Filesystem
  freed : Nat
  dumping : Option Nat
  held : List HeldTable
  acked : List (Bytes × Record)

/-- Nobody runs. -/
def InsertDump.idle (fs : Filesystem) : InsertDump := ⟨fs, 0, none, [], []⟩

/-- The sections of `process_insert` and of `dump`. -/
inductive InsertDump.Action where
  | lookup (now : Int64) (input : InsertInput)
  | append (call : Nat)
  | dumpStart
  | dumpTable
  | freeMemtable

/-- The first section of `process_insert`.  A call that is refused ends here. -/
def InsertDump.lookup (config : FsConfig) (now : Int64) (input : InsertInput) (s : InsertDump) :
    InsertDump :=
  if existInDirectory s.fs input.tableName.bytes then
    if config.maxValueSize < input.value.bytes.length then s
    else
      let tableNameUpper := toUppercase input.tableName.bytes
      let memTable := createTable tableNameUpper s.fs.memTable
      let index := memTable.findIdx fun table => table.name = tableNameUpper
      { s with fs := { s.fs with memTable }, held := s.held ++ [⟨s.freed, index, now, input⟩] }
  else s

/-- `list_add` to the table of the pointer.  A table that was freed takes the text with it. -/
def HeldTable.append (call : HeldTable) (freed : Nat) (memTable : List MemTable) : List MemTable :=
  let timestamp := if call.input.timestamp = -1 then call.now else call.input.timestamp
  let tkv := createTkv { call.input with timestamp }
  if call.memTable = freed then
    memTable.modify call.index fun table => { table with tkvs := table.tkvs ++ [tkv] }
  else memTable

/-- What a `process_insert` acknowledges when it returns 0. -/
def HeldTable.entry (call : HeldTable) : Bytes × Record :=
  (toUppercase call.input.tableName.bytes, insertedRecord call.now call.input)

/-- One section.  `dump` waits for its semaphore, and its loop looks at the length of
`mem_table` in every turn. -/
def InsertDump.step (config : FsConfig) (s : InsertDump) : Action → Option InsertDump
  | .lookup now input => some (s.lookup config now input)
  | .append i => s.held[i]?.map fun call =>
    { s with
      fs := { s.fs with memTable := call.append s.freed s.fs.memTable }
      held := s.held.eraseIdx i
      acked := s.acked ++ [call.entry] }
  | .dumpStart => if s.dumping = none then some { s with dumping := some 0 } else none
  | .dumpTable => do
    let i ← s.dumping
    let table ← s.fs.memTable[i]?
    let fs ← dumpOne s.fs table
    some { s with fs, dumping := some (i + 1) }
  | .freeMemtable => do
    let i ← s.dumping
    if i < s.fs.memTable.length then none
    else some { s with fs := freeMemtable s.fs, freed := s.freed + 1, dumping := none }

/-- Inserted records are storable. -/
def InsertDump.Action.Sane (config : FsConfig) : Action → Prop
  | .lookup now input => Storable config.tkvSize (insertedRecord now input)
  | _ => True

/-- An append is in time when its table is still in `mem_table` and the running dump has
not copied it. -/
def InsertDump.InTime (s : InsertDump) : Action → Prop
  | .append i =>
    ∀ call ∈ s.held[i]?, call.memTable = s.freed ∧ ∀ copied ∈ s.dumping, copied ≤ call.index
  | _ => True

/-- The steps considered: there are enough free blocks. -/
def InsertDump.Allowed (config : FsConfig) (_ : InsertDump) (action : Action)
    (s' : InsertDump) : Prop :=
  action.Sane config ∧ s'.fs.Allocated

instance (config : FsConfig) : DecidablePred (InsertDump.Action.Sane config)
  | .lookup now input => inferInstanceAs (Decidable (Storable _ (insertedRecord now input)))
  | .append _ | .dumpStart | .dumpTable | .freeMemtable => isTrue trivial

instance (s : InsertDump) : DecidablePred s.InTime
  | .append i => inferInstanceAs (Decidable (∀ call ∈ s.held[i]?, _ ∧ ∀ copied ∈ s.dumping, _))
  | .lookup _ _ | .dumpStart | .dumpTable | .freeMemtable => isTrue trivial

instance (config : FsConfig) (s : InsertDump) (action : InsertDump.Action) (s' : InsertDump) :
    Decidable (s.Allowed config action s') := inferInstanceAs (Decidable (_ ∧ _))

/-! ## The sections in a row -/

section Atomic
variable {config : FsConfig} {s : InsertDump} {fs fs' : Filesystem}

theorem addTkv_eq_modify {name tkv : Bytes} {memTable : List MemTable} :
    addTkv name tkv memTable = memTable.modify (memTable.findIdx fun table => table.name = name)
      fun table => { table with tkvs := table.tkvs ++ [tkv] } := by
  induction memTable with
  | nil => rfl
  | cons table rest ih =>
    rw [addTkv, List.findIdx_cons]
    by_cases hname : table.name = name
    · simp [hname]
    · simp [hname, ih]

/-- The two sections of a `process_insert` with nothing between them. -/
theorem processInsert_eq_sections (config : FsConfig) (now : Int64) (input : InsertInput)
    (s : InsertDump) :
    ((processInsert config now input s.fs).1 = 0 ∧
      (s.lookup config now input).step config (.append s.held.length) = some { s with
        fs := (processInsert config now input s.fs).2
        acked := s.acked ++ [(toUppercase input.tableName.bytes, insertedRecord now input)] }) ∨
    ((processInsert config now input s.fs).1 ≠ 0 ∧ s.lookup config now input = s) := by
  rw [processInsert, InsertDump.lookup]
  by_cases hexist : existInDirectory s.fs input.tableName.bytes
  · by_cases hsize : config.maxValueSize < input.value.bytes.length
    · exact Or.inr ⟨by simp [hexist, hsize], by simp [hexist, hsize]⟩
    · refine Or.inl ⟨by simp [hexist, hsize], ?_⟩
      have hheld : ∀ call, (s.held ++ [call]).eraseIdx s.held.length = s.held := fun call => by
        rw [List.eraseIdx_append_of_length_le le_rfl]
        simp
      simp [hexist, hsize, InsertDump.step, HeldTable.append, HeldTable.entry, addTkv_eq_modify,
        hheld]
  · exact Or.inr ⟨by simp [hexist], by simp [hexist]⟩

theorem dumpOne_memTable {table : MemTable} (h : dumpOne fs table = some fs') :
    fs'.memTable = fs.memTable := by
  obtain ⟨storage, archive, directory, -, -, rfl⟩ := dumpOne_cases h
  rfl

/-- The sections of a dump with nothing between them. -/
theorem run_dump (hidle : s.dumping = none) (h : dump s.fs = some fs') :
    Run (InsertDump.step config) (fun _ _ _ => True) s
      { s with fs := fs', freed := s.freed + 1 } := by
  obtain ⟨fs₁, hfold, rfl⟩ := Option.map_eq_some_iff.mp h
  obtain ⟨hmem, hrun⟩ := @run_foldlM _ _ (InsertDump.step config) (fun _ _ _ => True) _ _ dumpOne
    (fun fs i => { s with fs, dumping := some i }) (fun fs => fs.memTable = s.fs.memTable) _ _ _
    hfold rfl fun i table fs fs' htable hsame hone => by
      rw [← hsame] at htable
      have hturn : InsertDump.step config { s with fs, dumping := some i } .dumpTable =
          some { s with fs := fs', dumping := some (i + 1) } := by
        simp [InsertDump.step, htable, hone]
      exact ⟨(dumpOne_memTable hone).trans hsame, Run.refl.step .dumpTable hturn trivial⟩
  have hstart : InsertDump.step config s .dumpStart = some { s with dumping := some 0 } := by
    simp [InsertDump.step, hidle]
  refine (((Run.refl.step .dumpStart hstart trivial).trans hrun).step .freeMemtable ?_ trivial)
  simp [InsertDump.step, hmem, hidle]

end Atomic

/-! ## Records in memory and in archives -/

/-- The record is in `mem_table`. -/
def InMemory (memTable : List MemTable) (entry : Bytes × Record) : Prop :=
  ∃ table ∈ memTable, table.name = entry.1 ∧ entry.2 ∈ table.records

/-- The record is in a temporary archive of its table, as it is decoded. -/
def InTmps (config : FsConfig) (fs : Filesystem) (entry : Bytes × Record) : Prop :=
  ∃ view, fs.view config entry.1 = some view ∧ entry.2 ∈ view.tmps.flatten

/-- The invariant: the acknowledged records are in memory or in an archive, those of the
tables that the running dump has copied are in an archive, and a pointer into the current
`mem_table` points to the table it was made for. -/
structure InsertDump.Kept (config : FsConfig) (s : InsertDump) : Prop where
  valid : Valid config s.fs
  acked : ∀ entry ∈ s.acked, InMemory s.fs.memTable entry ∨ InTmps config s.fs entry
  copied : ∀ copied ∈ s.dumping, ∀ i < copied, ∀ table, s.fs.memTable[i]? = some table →
    ∀ record ∈ table.records, InTmps config s.fs (table.name, record)
  pointer : ∀ call ∈ s.held, call.memTable = s.freed →
    ∃ table, s.fs.memTable[call.index]? = some table ∧ table.name = call.entry.1
  bound : ∀ call ∈ s.held, call.memTable ≤ s.freed
  storable : ∀ call ∈ s.held, Storable config.tkvSize call.entry.2

section Steps
variable {config : FsConfig} {s s' : InsertDump} {fs fs' : Filesystem} {entry : Bytes × Record}

theorem inTmps_memTable {memTable : List MemTable} :
    InTmps config { fs with memTable } entry ↔ InTmps config fs entry := by
  constructor
  · rintro ⟨view, hview, hmem⟩
    obtain ⟨table, hlookup, rfl⟩ := Option.map_eq_some_iff.mp hview
    exact ⟨_, view_some hlookup, hmem⟩
  · rintro ⟨view, hview, hmem⟩
    obtain ⟨table, hlookup, rfl⟩ := Option.map_eq_some_iff.mp hview
    exact ⟨_, @view_some config { fs with memTable } _ _ hlookup, hmem⟩

theorem InMemory.prefix {memTable more : List MemTable} (h : InMemory memTable entry) :
    InMemory (memTable ++ more) entry := by
  obtain ⟨table, hmem, hrest⟩ := h
  exact ⟨table, List.mem_append_left _ hmem, hrest⟩

/-- The table that the lookup finds or creates. -/
theorem findIdx_createTable (name : Bytes) (memTable : List MemTable) :
    ∃ table, (createTable name memTable)[(createTable name memTable).findIdx
      fun table => table.name = name]? = some table ∧ table.name = name := by
  have hexists : ∃ table ∈ createTable name memTable, decide (table.name = name) = true := by
    have hmem := (mem_names_createTable name name memTable).mpr (Or.inr rfl)
    obtain ⟨table, htable, hname⟩ := List.mem_map.mp hmem
    exact ⟨table, htable, decide_eq_true hname⟩
  have hlt := List.findIdx_lt_length_of_exists hexists
  exact ⟨_, List.getElem?_eq_getElem hlt, of_decide_eq_true (List.findIdx_getElem (w := hlt))⟩

/-- `create_table` only adds at the end. -/
theorem createTable_prefix (name : Bytes) (memTable : List MemTable) :
    ∃ more, createTable name memTable = memTable ++ more ∧ ∀ table ∈ more, table.records = [] := by
  rcases createTable_cases name memTable with ⟨-, heq⟩ | ⟨-, heq⟩
  · exact ⟨[], by rw [heq, List.append_nil], by simp⟩
  · exact ⟨[⟨name, []⟩], heq, by simp [MemTable.records]⟩

theorem InsertDump.Kept.lookup (h : s.Kept config) (now : Int64) (input : InsertInput)
    (hrecord : Storable config.tkvSize (insertedRecord now input)) :
    (s.lookup config now input).Kept config := by
  rw [InsertDump.lookup]
  split
  · split
    · exact h
    · dsimp only
      obtain ⟨more, hmore, hempty⟩ :=
        createTable_prefix (toUppercase input.tableName.bytes) s.fs.memTable
      have hpointer := findIdx_createTable (toUppercase input.tableName.bytes) s.fs.memTable
      refine ⟨h.valid.createTable (toUppercase_toUppercase _), fun entry hentry => ?_,
        fun copied hcopied i hi table htable record hmem => ?_, fun call hcall hfreed => ?_,
        fun call hcall => ?_, fun call hcall => ?_⟩
      · rw [inTmps_memTable]
        dsimp only
        rw [hmore]
        exact (h.acked entry hentry).imp_left InMemory.prefix
      · rw [inTmps_memTable]
        have hold : table ∈ more ∨ s.fs.memTable[i]? = some table := by
          dsimp only at htable
          rw [hmore, List.getElem?_append] at htable
          split at htable
          · exact Or.inr htable
          · exact Or.inl (List.mem_of_getElem? htable)
        rcases hold with hold | hold
        · rw [hempty table hold] at hmem
          exact absurd hmem List.not_mem_nil
        · exact h.copied copied hcopied i hi table hold record hmem
      · rcases List.mem_append.mp hcall with hcall | hcall
        · obtain ⟨table, htable, hname⟩ := h.pointer call hcall hfreed
          refine ⟨table, ?_, hname⟩
          dsimp only
          rw [hmore, List.getElem?_append_left (List.getElem?_eq_some_iff.mp htable).1, htable]
        · obtain rfl := List.mem_singleton.mp hcall
          exact hpointer
      · rcases List.mem_append.mp hcall with hcall | hcall
        · exact h.bound call hcall
        · obtain rfl := List.mem_singleton.mp hcall
          exact le_rfl
      · rcases List.mem_append.mp hcall with hcall | hcall
        · exact h.storable call hcall
        · obtain rfl := List.mem_singleton.mp hcall
          exact hrecord
  · exact h

/-- An append in time. -/
theorem HeldTable.append_eq {call : HeldTable} {freed : Nat} (h : call.memTable = freed)
    (memTable : List MemTable) :
    call.append freed memTable = memTable.modify call.index fun table =>
      { table with tkvs := table.tkvs ++ [convertToTkv call.entry.2] } := by
  rw [append, if_pos h]
  rfl

/-- What stands at each position after an append. -/
theorem getElem?_appendTkv {memTable : List MemTable} {index j : Nat} {tkv : Bytes}
    {table : MemTable}
    (h : (memTable.modify index fun table =>
      { table with tkvs := table.tkvs ++ [tkv] })[j]? = some table) :
    ∃ old, memTable[j]? = some old ∧ table =
      if index = j then { old with tkvs := old.tkvs ++ [tkv] } else old := by
  rw [List.getElem?_modify] at h
  obtain ⟨old, hold, rfl⟩ := Option.map_eq_some_iff.mp h
  exact ⟨old, hold, rfl⟩

/-- An append does not touch the names of the tables. -/
theorem names_appendTkv (memTable : List MemTable) (index : Nat) (tkv : Bytes) :
    (memTable.modify index fun table => { table with tkvs := table.tkvs ++ [tkv] }).map
      MemTable.name = memTable.map MemTable.name := by
  refine List.ext_getElem? fun j => ?_
  rw [List.getElem?_map, List.getElem?_map, List.getElem?_modify]
  cases memTable[j]? with
  | none => rfl
  | some old => by_cases hj : index = j <;> simp [hj]

theorem InsertDump.Kept.append {i : Nat} {call : HeldTable} (h : s.Kept config)
    (hcall : s.held[i]? = some call) (hfreed : call.memTable = s.freed)
    (hcopied : ∀ copied ∈ s.dumping, copied ≤ call.index) :
    InsertDump.Kept config { s with
      fs := { s.fs with memTable := call.append s.freed s.fs.memTable }
      held := s.held.eraseIdx i
      acked := s.acked ++ [call.entry] } := by
  have hmem := List.mem_of_getElem? hcall
  have htexts : ∀ table ∈ s.fs.memTable, _ := fun table htable =>
    (h.valid.texts table htable).append (h.storable call hmem)
  rw [HeldTable.append_eq hfreed]
  -- every table keeps its name and its records, and one gets the new record
  have hput : ∀ (j : Nat) (old : MemTable), s.fs.memTable[j]? = some old →
      ∃ table ∈ s.fs.memTable.modify call.index fun table =>
        { table with tkvs := table.tkvs ++ [convertToTkv call.entry.2] },
        table.name = old.name ∧ table.records = if call.index = j then
          old.records ++ [call.entry.2] else old.records := by
    intro j old hold
    refine ⟨_, List.mem_of_getElem? (i := j) (by rw [List.getElem?_modify, hold]; rfl), ?_⟩
    by_cases hj : call.index = j
    · simp only [hj, if_true]
      exact ⟨trivial, (htexts old (List.mem_of_getElem? hold)).1⟩
    · simp only [hj, if_false]
      exact ⟨trivial, trivial⟩
  refine ⟨h.valid.setMemTable (fun table htable => ?_) ?_ fun table htable => ?_,
    fun entry hentry => ?_, fun copied hdumping j hj table htable record hrecord => ?_,
    fun other hother hother' => ?_, fun other hother =>
    h.bound other (List.mem_of_mem_eraseIdx hother), fun other hother =>
    h.storable other (List.mem_of_mem_eraseIdx hother)⟩
  · obtain ⟨j, hj⟩ := List.mem_iff_getElem?.mp htable
    obtain ⟨old, hold, rfl⟩ := getElem?_appendTkv hj
    have hupper := h.valid.upper old (List.mem_of_getElem? hold)
    split
    · exact hupper
    · exact hupper
  · rw [names_appendTkv]
    exact h.valid.nodup
  · obtain ⟨j, hj⟩ := List.mem_iff_getElem?.mp htable
    obtain ⟨old, hold, rfl⟩ := getElem?_appendTkv hj
    split
    · exact (htexts old (List.mem_of_getElem? hold)).2
    · exact h.valid.texts old (List.mem_of_getElem? hold)
  · rw [inTmps_memTable]
    rcases List.mem_append.mp hentry with hentry | hentry
    · refine (h.acked entry hentry).imp_left fun ⟨old, hold, hname, hrecord⟩ => ?_
      obtain ⟨j, hj⟩ := List.mem_iff_getElem?.mp hold
      obtain ⟨table, htable, hsame, hrecords⟩ := hput j old hj
      refine ⟨table, htable, hsame.trans hname, ?_⟩
      rw [hrecords]
      split
      · exact List.mem_append_left _ hrecord
      · exact hrecord
    · obtain rfl := List.mem_singleton.mp hentry
      obtain ⟨old, hold, hname⟩ := h.pointer call hmem hfreed
      obtain ⟨table, htable, hsame, hrecords⟩ := hput call.index old hold
      rw [if_pos rfl] at hrecords
      exact Or.inl ⟨table, htable, hsame.trans hname, by rw [hrecords]; simp⟩
  · rw [inTmps_memTable]
    obtain ⟨old, hold, rfl⟩ := getElem?_appendTkv htable
    have hle := hcopied copied hdumping
    -- the append comes behind what was copied
    rw [if_neg (by omega)] at hrecord ⊢
    exact h.copied copied hdumping j hj old hold record hrecord
  · obtain ⟨old, hold, hname⟩ := h.pointer other (List.mem_of_mem_eraseIdx hother) hother'
    refine ⟨_, by dsimp only; rw [List.getElem?_modify, hold]; rfl, ?_⟩
    by_cases hj : call.index = other.index
    · simpa [hj] using hname
    · simpa [hj] using hname

theorem InTmps.dumpOne {table : MemTable} (hviews : ∀ name, fs'.view config name =
      (fs.view config name).map fun view =>
        if name = table.name then { view with tmps := view.tmps ++ [table.records] } else view)
    (h : InTmps config fs entry) : InTmps config fs' entry := by
  obtain ⟨view, hview, hmem⟩ := h
  refine ⟨_, by rw [hviews, hview]; rfl, ?_⟩
  split
  · simp [hmem]
  · exact hmem

theorem InsertDump.Kept.dumpTable {i : Nat} {table : MemTable} (h : s.Kept config)
    (hdumping : s.dumping = some i) (htable : s.fs.memTable[i]? = some table)
    (hrun : dumpOne s.fs table = some fs') (halloc : fs'.Allocated) :
    InsertDump.Kept config { s with fs := fs', dumping := some (i + 1) } := by
  obtain ⟨hvalid, hsame, hviews⟩ := h.valid.dumpOne (List.mem_of_getElem? htable) hrun halloc
  refine ⟨hvalid, fun entry hentry => ?_, fun copied hcopied j hj other hother record hrecord => ?_,
    fun call hcall hfreed => ?_, h.bound, h.storable⟩
  · rcases h.acked entry hentry with hmem | htmp
    · exact Or.inl (by dsimp only; rwa [hsame])
    · exact Or.inr (htmp.dumpOne hviews)
  · obtain rfl := Option.some.inj hcopied
    dsimp only at hother
    rw [hsame] at hother
    rcases Nat.lt_succ_iff_lt_or_eq.mp hj with hlt | rfl
    · exact (h.copied i hdumping j hlt other hother record hrecord).dumpOne hviews
    · -- The table that was copied just now; its directory is there, or the dump had failed.
      obtain rfl := Option.some.inj (htable.symm.trans hother)
      obtain ⟨storage, archive, directory, -, hlookup, -⟩ := dumpOne_cases hrun
      rw [h.valid.upper table (List.mem_of_getElem? htable)] at hlookup
      refine ⟨_, by rw [hviews, view_some hlookup]; rfl, ?_⟩
      simp [hrecord]
  · dsimp only
    rw [hsame]
    exact h.pointer call hcall hfreed

theorem InsertDump.Kept.freeMemtable {i : Nat} (h : s.Kept config) (hdumping : s.dumping = some i)
    (hlength : s.fs.memTable.length ≤ i) :
    InsertDump.Kept config
      { s with fs := freeMemtable s.fs, freed := s.freed + 1, dumping := none } := by
  have hbound : ∀ call ∈ s.held, call.memTable ≠ s.freed + 1 := fun call hcall heq => by
    have hle := h.bound call hcall
    omega
  refine ⟨h.valid.setMemTable (by simp) (by simp) (by simp), fun entry hentry => Or.inr ?_,
    fun copied hcopied => absurd hcopied (by simp), fun call hcall hfreed =>
      absurd hfreed (hbound call hcall), fun call hcall =>
        (h.bound call hcall).trans (Nat.le_succ _),
    h.storable⟩
  rw [Lissandra.freeMemtable, inTmps_memTable]
  rcases h.acked entry hentry with ⟨table, hmem, hname, hrecord⟩ | htmp
  · obtain ⟨j, hj⟩ := List.mem_iff_getElem?.mp hmem
    have hlt : j < i := lt_of_lt_of_le (List.getElem?_eq_some_iff.mp hj).1 hlength
    have hcopied := h.copied i hdumping j hlt table hj entry.2 hrecord
    rwa [hname] at hcopied
  · exact htmp

/-- **One section loses no acknowledged record**, if its append comes in time. -/
theorem InsertDump.Kept.step {action : Action} (h : s.Kept config)
    (hstep : s.step config action = some s') (hallowed : s.Allowed config action s')
    (htime : s.InTime action) : s'.Kept config := by
  obtain ⟨hsane, halloc⟩ := hallowed
  cases action with
  | lookup now input =>
    obtain rfl := Option.some.inj hstep
    exact h.lookup now input hsane
  | append i =>
    obtain ⟨call, hcall, rfl⟩ := Option.map_eq_some_iff.mp hstep
    obtain ⟨hfreed, hcopied⟩ := htime call hcall
    exact h.append hcall hfreed hcopied
  | dumpStart =>
    rw [InsertDump.step] at hstep
    split at hstep
    · obtain rfl := Option.some.inj hstep
      refine ⟨h.valid, h.acked, fun copied hcopied j hj => ?_, h.pointer, h.bound, h.storable⟩
      obtain rfl := Option.some.inj hcopied
      exact absurd hj (Nat.not_lt_zero j)
    · exact absurd hstep (by simp)
  | dumpTable =>
    obtain ⟨i, hdumping, hstep⟩ := Option.bind_eq_some_iff.mp hstep
    obtain ⟨table, htable, hstep⟩ := Option.bind_eq_some_iff.mp hstep
    obtain ⟨fs', hrun, hstep⟩ := Option.bind_eq_some_iff.mp hstep
    obtain rfl := Option.some.inj hstep
    exact h.dumpTable hdumping htable hrun halloc
  | freeMemtable =>
    obtain ⟨i, hdumping, hstep⟩ := Option.bind_eq_some_iff.mp hstep
    split at hstep
    · exact absurd hstep (by simp)
    · rename_i hlength
      obtain rfl := Option.some.inj hstep
      exact h.freeMemtable hdumping (not_lt.mp hlength)

end Steps

/-- **No acknowledged INSERT is lost by a dump.**  From any state of the filesystem, in
every interleaving whose appends come in time, each acknowledged record is in `mem_table`
or in an archive that `dump_table` has written. -/
theorem ackedInsert_kept {config : FsConfig} {blockSize blocks : Nat} {fs : Filesystem}
    {s : InsertDump} (hsize : 2 ≤ blockSize)
    (hreach : Reachable config blockSize blocks (fun _ => True) fs)
    (hrun : Run (InsertDump.step config)
      (fun s action s' => s.Allowed config action s' ∧ s.InTime action) (InsertDump.idle fs) s) :
    ∀ entry ∈ s.acked, InMemory s.fs.memTable entry ∨ InTmps config s.fs entry := by
  have hkept : s.Kept config := by
    refine hrun.invariant (P := fun s => s.Kept config) ?_ fun s action s' h hstep hallowed =>
      h.step hstep hallowed.1 hallowed.2
    exact ⟨valid_of_reachable hsize hreach, by simp [InsertDump.idle], by simp [InsertDump.idle],
      by simp [InsertDump.idle], by simp [InsertDump.idle], by simp [InsertDump.idle]⟩
  exact hkept.acked

/-- A table without records. -/
def createdOnce : List Op := [.create ⟨.ofBytes [84], .strongConsistency, 1, 1000⟩]

/-- An INSERT into it. -/
def oneInsert : InsertInput := ⟨.ofBytes [84], 1, .ofBytes [97], 9⟩

theorem createdOnce_runs : (runOps ⟨32, 8⟩ (Filesystem.formatted 8 32) createdOnce).isSome := by
  decide +kernel

/-- The state after `createdOnce`. -/
def createdFs : Filesystem :=
  (runOps ⟨32, 8⟩ (Filesystem.formatted 8 32) createdOnce).get createdOnce_runs

theorem createdFs_reachable : Reachable ⟨32, 8⟩ 8 32 (fun _ => True) createdFs :=
  reachable_runOps .formatted (by decide +kernel) (Option.some_get createdOnce_runs).symm

theorem appendedInTime_runs : (runSteps (InsertDump.step ⟨32, 8⟩)
    (fun s action s' => s.Allowed ⟨32, 8⟩ action s' ∧ s.InTime action) (InsertDump.idle createdFs)
    [.lookup 0 oneInsert, .dumpStart, .append 0, .dumpTable, .freeMemtable]).isSome := by
  decide +kernel

theorem ackedInsert_kept_appendedInTime :
    let s := (runSteps (InsertDump.step ⟨32, 8⟩)
      (fun s action s' => s.Allowed ⟨32, 8⟩ action s' ∧ s.InTime action) (InsertDump.idle createdFs)
      [.lookup 0 oneInsert, .dumpStart, .append 0, .dumpTable, .freeMemtable]).get
      appendedInTime_runs
    ∀ entry ∈ s.acked, InMemory s.fs.memTable entry ∨ InTmps ⟨32, 8⟩ s.fs entry :=
  ackedInsert_kept (by decide) createdFs_reachable
    (run_of_runSteps (Option.some_get appendedInTime_runs).symm)

/-- An INSERT that appends to its table between `dump_table` and `free_memtable`. -/
theorem ackedInsert_lost : ∃ s, Run (InsertDump.step ⟨32, 8⟩) (InsertDump.Allowed ⟨32, 8⟩)
    (InsertDump.idle createdFs) s ∧
    ∃ entry ∈ s.acked, ¬ InMemory s.fs.memTable entry ∧ ¬ InTmps ⟨32, 8⟩ s.fs entry := by
  have hruns : ((runSteps (InsertDump.step ⟨32, 8⟩) (InsertDump.Allowed ⟨32, 8⟩)
      (InsertDump.idle createdFs)
      [.lookup 0 oneInsert, .dumpStart, .dumpTable, .append 0, .freeMemtable]).map fun s =>
        (s.acked, s.fs.memTable, s.fs.view ⟨32, 8⟩ [84])) =
      some ([([84], ⟨9, 1, [97]⟩)], [], some ⟨[[]], [[]], none⟩) := by decide +kernel
  obtain ⟨s, hrun, heq⟩ := Option.map_eq_some_iff.mp hruns
  obtain ⟨hacked, heq⟩ := Prod.mk.inj heq
  obtain ⟨hmem, hview⟩ := Prod.mk.inj heq
  refine ⟨s, run_of_runSteps hrun, ([84], ⟨9, 1, [97]⟩), by rw [hacked]; simp, ?_, ?_⟩
  · rintro ⟨table, htable, -⟩
    rw [hmem] at htable
    exact List.not_mem_nil htable
  · rintro ⟨view, hview', htmps⟩
    obtain rfl := Option.some.inj (hview.symm.trans hview')
    exact absurd htmps (by simp)

end Lissandra
