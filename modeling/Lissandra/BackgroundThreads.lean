import Lissandra.FilesystemRuns
import Lissandra.Runs

/-! # The dump thread and a compaction thread

`dump` and `compaction` cut into sections that other threads can come between.  For each
table `dump` writes the blocks of an archive, looks for the first number without a file and
creates the file with this number.  `compaction` lists the temporary archives, writes
A1.tmpc, decodes it and the partitions, frees the blocks and removes the temporary archives
that are there now, and writes the new partitions.  With nothing in between the sections
are `dump` (`run_dumpSections`) and `compaction` (`run_compactionSections`).
-/
namespace Lissandra

/-! ## Sections -/

/-- Where `dump` stands: before the table `i` of `mem_table`, with the blocks of its
archive written, or with a number for its file as well. -/
inductive DumpPhase where
  | idle
  | copying (i : Nat)
  | written (i : Nat) (archive : Archive)
  | numbered (i : Nat) (archive : Archive) (number : Nat)
  deriving DecidableEq

/-- Where the compaction of the table `name` stands, and what it has in memory. -/
inductive CompactionPhase where
  | idle
  | listed (name : Bytes) (tmpc : Archive)
  | logged (name : Bytes) (tmpc : Archive) (tmpDestroyFlag : Bool)
  | merged (name : Bytes) (partitionTkvs : List (List Record)) (tmpDestroyFlag : Bool)
  | freed (name : Bytes) (partitionTkvs : List (List Record))
  deriving DecidableEq

/-- The filesystem with its two background threads. -/
structure Background where
  fs : Filesystem
  dump : DumpPhase
  compaction : CompactionPhase

/-- Neither of the threads runs. -/
def Background.idle (fs : Filesystem) : Background := ⟨fs, .idle, .idle⟩

/-- The sections of the two threads. -/
inductive Background.Action where
  | dumpStart
  | dumpWrite
  | dumpNumber
  | dumpCreate
  | freeMemtable
  | list (name : Bytes)
  | log
  | decode
  | free
  | create
  deriving DecidableEq

/-- A directory of a table that was written to. -/
def Background.setTable (s : Background) (storage : Storage) (name : Bytes)
    (table : Table) : Filesystem :=
  { s.fs with storage, tables := s.fs.tables.insert name table }

/-- The element of `mem_table` and the directory that a turn of `dump` works on. -/
def Background.dumped (s : Background) (i : Nat) : Option (MemTable × Table) := do
  let table ← s.fs.memTable[i]?
  let directory ← s.fs.tables.lookup (toUppercase table.name)
  some (table, directory)

/-- One section of one of the threads. -/
def Background.step (config : FsConfig) (s : Background) : Action → Option Background
  | .dumpStart => if s.dump = .idle then some { s with dump := .copying 0 } else none
  | .dumpWrite =>
    match s.dump with
    | .copying i => do
      let table ← s.fs.memTable[i]?
      let (storage, archive) ← dumpTable s.fs.storage table.tkvs
      some { s with fs := { s.fs with storage }, dump := .written i archive }
    | _ => none
  | .dumpNumber =>
    match s.dump with
    | .written i archive => do
      let (_, directory) ← s.dumped i
      some { s with dump := .numbered i archive (freeTmpNumber directory.tmps) }
    | _ => none
  | .dumpCreate =>
    match s.dump with
    | .numbered i archive number => do
      let (table, directory) ← s.dumped i
      some { s with
        fs := s.setTable s.fs.storage (toUppercase table.name)
          { directory with tmps := putTmp number archive directory.tmps }
        dump := .copying (i + 1) }
    | _ => none
  | .freeMemtable =>
    match s.dump with
    | .copying i =>
      if i < s.fs.memTable.length then none
      else some { s with fs := Lissandra.freeMemtable s.fs, dump := .idle }
    | _ => none
  | .list name =>
    if s.compaction = .idle then
      match s.fs.tables.lookup name with
      | none => some s
      | some table =>
        match table.tmpc with
        | some tmpc => some { s with compaction := .logged name tmpc false }
        | none =>
          if existingTmps table.tmps = [] then some s
          else some { s with compaction := .listed name (getAllBlocksFromAllTmps table) }
    else none
  | .log =>
    match s.compaction with
    | .listed name tmpc => do
      let table ← s.fs.tables.lookup name
      some { s with
        fs := s.setTable s.fs.storage name { table with tmpc := some tmpc }
        compaction := .logged name tmpc true }
    | _ => none
  | .decode =>
    match s.compaction with
    | .logged name tmpc tmpDestroyFlag => do
      let table ← s.fs.tables.lookup name
      let partitionTkvs ← mergedPartitions config s.fs.storage table tmpc
      some { s with compaction := .merged name partitionTkvs tmpDestroyFlag }
    | _ => none
  | .free =>
    match s.compaction with
    | .merged name partitionTkvs tmpDestroyFlag => do
      let table ← s.fs.tables.lookup name
      let (storage, table) ← freeArchives s.fs.storage table tmpDestroyFlag
      some { s with fs := s.setTable storage name table, compaction := .freed name partitionTkvs }
    | _ => none
  | .create =>
    match s.compaction with
    | .freed name partitionTkvs => do
      let table ← s.fs.tables.lookup name
      let (storage, partitions) ← createNewPartitions s.fs.storage partitionTkvs
      some { s with fs := s.setTable storage name { table with partitions }, compaction := .idle }
    | _ => none

/-! ## The sections in a row -/

section Atomic
variable {config : FsConfig} {s : Background} {fs' : Filesystem} {name : Bytes}

/-- The sections of a dump with nothing between them. -/
theorem run_dumpSections (hidle : s.dump = .idle) (h : dump s.fs = some fs') :
    Run (Background.step config) (fun _ _ _ => True) s { s with fs := fs' } := by
  obtain ⟨fs₁, hfold, rfl⟩ := Option.map_eq_some_iff.mp h
  obtain ⟨hmem, hrun⟩ := @run_foldlM _ _ (Background.step config) (fun _ _ _ => True) _ _ dumpOne
    (fun fs i => { s with fs, dump := .copying i }) (fun fs => fs.memTable = s.fs.memTable) _ _ _
    hfold rfl fun i table fs fs' htable hsame hone => by
      obtain ⟨storage, archive, directory, hdump, hlookup, rfl⟩ := dumpOne_cases hone
      rw [← hsame] at htable
      let s₁ : Background := { s with fs, dump := .copying i }
      let s₂ : Background := { s₁ with fs := { fs with storage }, dump := .written i archive }
      let s₃ : Background :=
        { s₂ with dump := .numbered i archive (freeTmpNumber directory.tmps) }
      have hwrite : s₁.step config .dumpWrite = some s₂ := by
        simp [s₁, s₂, Background.step, htable, hdump]
      have hnumber : s₂.step config .dumpNumber = some s₃ := by
        simp [s₃, s₂, s₁, Background.step, Background.dumped, htable, hlookup]
      have hcreate : s₃.step config .dumpCreate = some { s with
          fs := { fs with
            storage
            tables := fs.tables.insert (toUppercase table.name)
              { directory with tmps := addTmp archive directory.tmps } }
          dump := .copying (i + 1) } := by
        simp [s₃, s₂, s₁, Background.step, Background.dumped, Background.setTable, htable, hlookup,
          addTmp]
      exact ⟨hsame, ((Run.refl.step .dumpWrite hwrite trivial).step .dumpNumber hnumber
        trivial).step .dumpCreate hcreate trivial⟩
  have hstart : s.step config .dumpStart = some { s with dump := .copying 0 } := by
    simp [Background.step, hidle]
  refine (((Run.refl.step .dumpStart hstart trivial).trans hrun).step .freeMemtable ?_ trivial)
  simp [Background.step, hmem, hidle]

/-- The sections of a compaction with nothing between them. -/
theorem run_compactionSections (hidle : s.compaction = .idle)
    (h : compaction config name s.fs = some fs') :
    Run (Background.step config) (fun _ _ _ => True) s { s with fs := fs' } := by
  obtain ⟨fs, dump, phase⟩ := s
  obtain rfl : phase = .idle := hidle
  rw [compaction] at h
  cases hlookup : fs.tables.lookup name with
  | none =>
    rw [hlookup] at h
    obtain rfl := Option.some.inj h
    exact .refl
  | some table =>
    -- From the decoding on, whatever the list of blocks is.
    have hrest : ∀ (tmpc : Archive) (tmpDestroyFlag : Bool) (old : Option Archive)
        (tables : AList fun _ : Bytes => Table), tables.lookup name =
        some { table with tmpc := old } →
          (∀ table' : Table, tables.insert name table' = fs.tables.insert name table') →
        startCompaction config fs name table tmpc tmpDestroyFlag = some fs' →
        Run (Background.step config) (fun _ _ _ => True)
          ⟨{ fs with tables }, dump, .logged name tmpc tmpDestroyFlag⟩ ⟨fs', dump, .idle⟩ := by
      intro tmpc tmpDestroyFlag old tables htables hinsert hstart
      obtain ⟨partitionTkvs, storage₁, table₁, storage₂, partitions, hmerge, hfree, hcreate, rfl⟩ :=
        startCompaction_eq_some hstart
      let s₁ : Background := ⟨{ fs with tables }, dump, .logged name tmpc tmpDestroyFlag⟩
      let s₂ : Background := { s₁ with compaction := .merged name partitionTkvs tmpDestroyFlag }
      let s₃ : Background :=
        { s₂ with fs := s₂.setTable storage₁ name table₁, compaction := .freed name partitionTkvs }
      have hdecode : s₁.step config .decode = some s₂ := by
        have hmerge' : mergedPartitions config fs.storage { table with tmpc := old } tmpc =
          some partitionTkvs := hmerge
        simp [s₁, s₂, Background.step, htables, hmerge']
      have hfree' : s₂.step config .free = some s₃ := by
        have hfree' : freeArchives fs.storage { table with tmpc := old } tmpDestroyFlag =
          some (storage₁, table₁) := hfree
        simp [s₁, s₂, s₃, Background.step, htables, hfree']
      have hcreate' : s₃.step config .create =
          some ⟨{ fs with
            storage := storage₂
            tables := fs.tables.insert name { table₁ with partitions } }, dump, .idle⟩ := by
        simp [s₁, s₂, s₃, Background.step, Background.setTable, hcreate, hinsert,
          AList.insert_insert]
      exact ((Run.refl.step .decode hdecode trivial).step .free hfree' trivial).step .create
        hcreate' trivial
    rw [hlookup] at h
    cases htmpc : table.tmpc with
    | some tmpc =>
      simp only [htmpc] at h
      have hlist : Background.step config ⟨fs, dump, .idle⟩ (.list name) =
          some ⟨fs, dump, .logged name tmpc false⟩ := by
        simp [Background.step, hlookup, htmpc]
      exact (Run.refl.step _ hlist trivial).trans
        (hrest tmpc false table.tmpc fs.tables hlookup (fun _ => rfl) h)
    | none =>
      simp only [htmpc] at h
      split at h
      · obtain rfl := Option.some.inj h
        exact .refl
      · rename_i htmps
        let tmpc := getAllBlocksFromAllTmps table
        have hlist : Background.step config ⟨fs, dump, .idle⟩ (.list name) =
            some ⟨fs, dump, .listed name tmpc⟩ := by
          simp [Background.step, hlookup, htmpc, htmps, tmpc]
        have hlog : Background.step config ⟨fs, dump, .listed name tmpc⟩ .log =
            some ⟨{ fs with tables := fs.tables.insert name { table with tmpc := some tmpc } },
              dump, .logged name tmpc true⟩ := by
          simp [Background.step, Background.setTable, hlookup]
        exact ((Run.refl.step _ hlist trivial).step _ hlog trivial).trans
          (hrest tmpc true (some tmpc) _ (AList.lookup_insert _) (fun _ => AList.insert_insert _) h)

end Atomic

/-! ## Steps allowed -/

/-- The blocks of the archive that `dump` has written and not created yet. -/
def DumpPhase.pending : DumpPhase → List (List Nat)
  | .written _ archive | .numbered _ archive _ => [archive.blocks]
  | _ => []

/-- There are enough free blocks. -/
def Background.Allocated (s : Background) : Prop := s.fs.Allocated ∧ 0 ∉ s.dump.pending.flatten

/-- The table for which `dump` has a number and no file. -/
def Background.numbering (s : Background) : Option Bytes :=
  match s.dump with
  | .numbered i _ _ => s.fs.memTable[i]?.map fun table => toUppercase table.name
  | _ => none

/-- The table whose temporary archives are listed and not removed. -/
def CompactionPhase.listing : CompactionPhase → Option Bytes
  | .listed name _ | .logged name _ _ | .merged name _ _ => some name
  | _ => none

/-- The two windows do not overlap on a table: neither of them ends while the other one is
open. -/
def Background.Apart (s : Background) (action : Action) : Prop :=
  action = .dumpCreate ∨ action = .free → ∀ name ∈ s.compaction.listing, name ∉ s.numbering

instance (s : Background) : Decidable s.Allocated := inferInstanceAs (Decidable (_ ∧ _))

instance (s : Background) (action : Background.Action) : Decidable (s.Apart action) :=
  inferInstanceAs (Decidable (_ → _))

end Lissandra
