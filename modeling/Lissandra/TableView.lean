import Lissandra.LatestByKey
import Lissandra.Filesystem

/-! # What a table holds

The purpose of the archives and of the memtable, in terms of records alone: a table is its
partitions, its dumped lists in the order of the dumps, and the list still in memory.  A
dump moves the list in memory behind the dumped ones, a compaction puts the dumped lists
into the partitions.  Neither changes the record stored for a key
(`TableView.stored_dump`, `TableView.stored_compact`).
-/
namespace Lissandra

/-- The records of a table, by where they are. -/
@[ext] structure TableView where
  partitions : List (List Record)
  tmps : List (List Record)
  mem : Option (List Record)
  deriving DecidableEq

namespace TableView

/-- The partition a key belongs to, counted from zero. -/
def route (partitions : Nat) (key : UInt16) : Nat := key.toNat % partitions

/-- The records of the partition a key belongs to. -/
def partitionOf (view : TableView) (key : UInt16) : List Record :=
  view.partitions[route view.partitions.length key]?.getD []

/-- Where the table looks for a key: its partition, then the dumps, then the memtable. -/
def records (view : TableView) (key : UInt16) : List Record :=
  view.partitionOf key ++ view.tmps.flatten ++ view.mem.getD []

/-- The record stored for a key, the first one of greatest timestamp. -/
def stored (view : TableView) (key : UInt16) : Option Record :=
  latest Record.key time key (view.records key)

/-- Each partition has one record for each of its keys, and only its keys. -/
def Routed (view : TableView) : Prop :=
  Lissandra.Routed Record.key (route view.partitions.length) view.partitions

/-- A table that was just created. -/
def created (partitions : Nat) (mem : Option (List Record)) : TableView :=
  ⟨List.replicate partitions [], [], mem⟩

/-- A record at the end of the memtable. -/
def insert (view : TableView) (record : Record) : TableView :=
  { view with mem := some (view.mem.getD [] ++ [record]) }

/-- The memtable behind the dumps. -/
def dump (view : TableView) : TableView :=
  { view with tmps := view.tmps ++ view.mem.toList, mem := none }

/-- The dumps into the partitions. -/
def compact (view : TableView) : TableView :=
  { view with
    partitions :=
      distribute Record.key time (route view.partitions.length) view.tmps.flatten view.partitions
    tmps := [] }

variable {view : TableView}

@[simp] theorem compact_tmps : view.compact.tmps = [] := rfl

@[simp] theorem compact_mem : view.compact.mem = view.mem := rfl

@[simp] theorem length_compact : view.compact.partitions.length = view.partitions.length :=
  length_distribute _ _

@[simp] theorem dump_partitions : view.dump.partitions = view.partitions := rfl

@[simp] theorem dump_mem : view.dump.mem = none := rfl

theorem route_lt (hne : view.partitions ≠ []) (key : UInt16) :
    route view.partitions.length key < view.partitions.length :=
  Nat.mod_lt _ (List.length_pos_iff.mpr hne)

theorem getElem?_route (hne : view.partitions ≠ []) (key : UInt16) :
    view.partitions[route view.partitions.length key]? = some (view.partitionOf key) := by
  rw [partitionOf, List.getElem?_eq_getElem (route_lt hne key)]
  rfl

theorem routed_created (partitions : Nat) (mem : Option (List Record)) :
    (created partitions mem).Routed := by
  intro i p hp
  obtain ⟨-, rfl⟩ := List.mem_replicate.mp (List.mem_of_getElem? hp)
  exact ⟨List.nodup_nil, fun _ h => absurd h List.not_mem_nil⟩

/-- After a compaction there is one record for a key, in the partition it belongs to. -/
theorem Routed.compact (h : view.Routed) : view.compact.Routed := by
  rw [Routed, length_compact]
  exact Lissandra.Routed.distribute h _

/-- **A dump moves records and changes none.** -/
theorem records_dump (view : TableView) (key : UInt16) :
    view.dump.records key = view.records key := by
  obtain ⟨partitions, tmps, _ | mem⟩ := view
  · simp [records, dump, partitionOf]
  · simp [records, dump, partitionOf]

theorem stored_dump (view : TableView) (key : UInt16) : view.dump.stored key = view.stored key := by
  rw [stored, records_dump, stored]

/-- The partition says for its keys what it and the dumps said before. -/
theorem latest_partitionOf_compact (h : view.Routed) (hne : view.partitions ≠ []) (key : UInt16) :
    latest Record.key time key (view.compact.partitionOf key) =
      latest Record.key time key (view.partitionOf key ++ view.tmps.flatten) := by
  obtain ⟨partition, hpartition, hlatest⟩ :=
    Lissandra.Routed.latest_distribute time h view.tmps.flatten (getElem?_route hne key)
  rw [← hlatest, partitionOf, length_compact]
  simp only [TableView.compact, hpartition, Option.getD_some]

/-- **A compaction keeps the stored records.** -/
theorem stored_compact (h : view.Routed) (hne : view.partitions ≠ []) (key : UInt16) :
    view.compact.stored key = view.stored key := by
  rw [stored, stored, records, records, compact_tmps, compact_mem, List.flatten_nil,
    List.append_nil, latest_append, latest_partitionOf_compact h hne, ← latest_append]

/-- A later insert replaces the stored record only by a newer one. -/
theorem stored_insert (view : TableView) (record : Record) (key : UInt16) :
    (view.insert record).stored key =
      later time (view.stored key) (latest Record.key time key [record]) := by
  rw [stored, stored, ← latest_append]
  simp [records, insert, partitionOf]

/-! ## Tables that grow newer -/

/-- For every record there is one of the same key in the partition of the key or in the
dumps that is at least as new. -/
def Archived (view : TableView) (records : List Record) : Prop :=
  ∀ record ∈ records, ∃ newer ∈ ofKey record.key (view.partitionOf record.key ++ view.tmps.flatten),
    time record ≤ time newer

/-- Where one table has a record for a key, the other one has one that is at least as new. -/
def Covers (before after : TableView) : Prop :=
  ∀ key, ∀ record ∈ ofKey key (before.records key),
    ∃ newer ∈ ofKey key (after.records key), time record ≤ time newer

theorem Covers.refl (view : TableView) : Covers view view := fun _ record h => ⟨record, h, le_rfl⟩

theorem Covers.trans {first second third : TableView} (h₁ : Covers first second)
    (h₂ : Covers second third) : Covers first third := by
  intro key record hrecord
  obtain ⟨middle, hmiddle, hle⟩ := h₁ key record hrecord
  obtain ⟨newer, hnewer, hle'⟩ := h₂ key middle hmiddle
  exact ⟨newer, hnewer, hle.trans hle'⟩

/-- A table that says the same about its keys. -/
theorem exists_newer_of_latest {before after : List Record} {key : UInt16}
    (h : latest Record.key time key after = latest Record.key time key before) {record : Record}
    (hrecord : record ∈ ofKey key before) :
    ∃ newer ∈ ofKey key after, time record ≤ time newer := by
  obtain ⟨newer, -, hnewer, hmax⟩ := exists_argmax time (List.ne_nil_of_mem hrecord)
  have hlatest : latest Record.key time key after = some newer := h.trans hnewer
  exact ⟨newer, List.argmax_mem hlatest, hmax record hrecord⟩

theorem covers_compact (h : view.Routed) (hne : view.partitions ≠ []) : Covers view view.compact :=
  fun key _ hrecord => exists_newer_of_latest (stored_compact h hne key) hrecord

theorem Archived.compact {records : List Record} (h : view.Archived records) (hrouted : view.Routed)
    (hne : view.partitions ≠ []) : view.compact.Archived records := by
  intro record hrecord
  obtain ⟨middle, hmiddle, hle⟩ := h record hrecord
  have hlatest : latest Record.key time record.key
      (view.compact.partitionOf record.key ++ view.compact.tmps.flatten) =
      latest Record.key time record.key (view.partitionOf record.key ++ view.tmps.flatten) := by
    rw [compact_tmps, List.flatten_nil, List.append_nil, latest_partitionOf_compact hrouted hne]
  obtain ⟨newer, hnewer, hle'⟩ := exists_newer_of_latest hlatest hmiddle
  exact ⟨newer, hnewer, hle.trans hle'⟩

/-- One more dump. -/
theorem covers_tmp (view : TableView) (tmp : List Record) :
    Covers view { view with tmps := view.tmps ++ [tmp] } := by
  intro key record hrecord
  refine ⟨record, ?_, le_rfl⟩
  obtain ⟨hmem, hkey⟩ := List.mem_filter.mp hrecord
  refine List.mem_filter.mpr ⟨?_, hkey⟩
  simp only [records, List.mem_append] at hmem
  simp only [records, List.mem_append, List.flatten_append, List.flatten_singleton]
  rcases hmem with (hmem | hmem) | hmem
  · exact Or.inl (Or.inl hmem)
  · exact Or.inl (Or.inr (Or.inl hmem))
  · exact Or.inr hmem

theorem Archived.tmp {records : List Record} (h : view.Archived records) (tmp : List Record) :
    ({ view with tmps := view.tmps ++ [tmp] } : TableView).Archived records := by
  intro record hrecord
  obtain ⟨newer, hnewer, hle⟩ := h record hrecord
  refine ⟨newer, ?_, hle⟩
  obtain ⟨hmem, hkey⟩ := List.mem_filter.mp hnewer
  refine List.mem_filter.mpr ⟨?_, hkey⟩
  rw [List.flatten_append, ← List.append_assoc]
  exact List.mem_append_left _ hmem

theorem archived_tmp (view : TableView) (tmp : List Record) :
    ({ view with tmps := view.tmps ++ [tmp] } : TableView).Archived tmp := by
  intro record hrecord
  refine ⟨record, List.mem_filter.mpr ⟨?_, decide_eq_true rfl⟩, le_rfl⟩
  simp [hrecord]

/-- The memtable is cleared when all of it is in the archives. -/
theorem covers_clear (h : view.Archived (view.mem.getD [])) :
    Covers view { view with mem := none } := by
  intro key record hrecord
  obtain ⟨hmem, hkey⟩ := List.mem_filter.mp hrecord
  have hcleared : ({ view with mem := none } : TableView).records key =
      view.partitionOf key ++ view.tmps.flatten := List.append_nil _
  rw [hcleared]
  rcases List.mem_append.mp hmem with harchive | hmemory
  · exact ⟨record, List.mem_filter.mpr ⟨harchive, hkey⟩, le_rfl⟩
  · obtain rfl := of_decide_eq_true hkey
    exact h record hmemory

end TableView

end Lissandra
