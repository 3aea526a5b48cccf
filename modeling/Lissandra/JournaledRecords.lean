import Lissandra.DurableRecords
import Lissandra.JournalLosses
import Lissandra.Messages

/-! # Acknowledged INSERTs, from the memories to the disk

Any number of memories, each with its threads, in front of one filesystem process, which other
clients use too.  An INSERT is acknowledged by a memory and journaled later; the answer to a
journal may be lost on its way back, and the filesystem may be killed.  A batch comes to the
filesystem as `recv2` reads it, which is as it was sent if it is a small message
(`JournalRequest.received_eq`).

As long as the memories are undisturbed, and the filesystem is not killed while the table waits for
a dump, an INSERT that was acknowledged and not written over is in a modified page, or the
filesystem answers for it (`acknowledged_kept`).  Once it has left its page, the next dump makes it
durable (`journaled_survives`).
-/
namespace Lissandra

/-! ## The processes -/

/-- An element of the batch of `journaling`. -/
def journalInput (entry : Bytes × Record) : InsertInput :=
  ⟨.ofBytes entry.1, entry.2.key, .ofBytes entry.2.value, entry.2.timestamp⟩

namespace JournalRequest
variable (request : JournalRequest)

/-- The MULTIINSERT of a batch. -/
def message : Message := ⟨.multiinsertIn, request.batch.map journalInput⟩

/-- What the filesystem reads of it. -/
def received (delivery : Delivery) : Option (List InsertInput) :=
  match request.message.deliver .memory delivery with
  | some ⟨.multiinsertIn, inputs⟩ => some inputs
  | _ => none

/-- A batch of at most 31 records, as long as its length is an `int`, is read as it was sent. -/
theorem received_eq {request : JournalRequest} {delivery : Delivery} {inputs : List InsertInput}
    (hsmall : request.message.Small) (h : request.received delivery = some inputs) :
    inputs = request.batch.map journalInput := by
  unfold received at h
  split at h
  · rename_i read hdeliver
    obtain rfl := Option.some.inj h
    have htold := hsmall.deliver_eq hdeliver
    exact eq_of_heq (Message.mk.inj htold).2
  · cases h

end JournalRequest

/-- The memories and the filesystem. -/
structure Cluster (N : Type) where
  memories : N → BusyNode
  fs : Filesystem

/-- What happens next. -/
inductive ClusterAction (N : Type) where
  /-- A memory goes on by itself, or has a SELECT answered, from whatever is stored. -/
  | memory (n : N) (stored : Stored) (action : BusyNode.Action)
  /-- A MULTIINSERT comes to the filesystem, and its answer comes back or does not. -/
  | journal (n : N) (request : JournalRequest) (delivery : Delivery) (clock : Nat → Int64)
      (answered : Bool)
  /-- A MULTIINSERT does not arrive. -/
  | unreachable (n : N) (request : JournalRequest)
  /-- Another client, or the filesystem by itself. -/
  | filesystem (event : FsEvent)

/-- The steps that a memory takes without a MULTIINSERT. -/
def BusyNode.Action.Own : BusyNode.Action → Prop
  | .fsJournal _ _ => False
  | _ => True

instance : DecidablePred BusyNode.Action.Own
  | .fsJournal _ _ => isFalse id
  | .insert _ _ _ | .select _ | .journal | .run _ | .fsSelect _ _ | .selectCallback _ _
  | .journalCallback _ => isTrue trivial

/-- What a memory is told about a batch. -/
def journalOutcome (batch : List (Bytes × Record)) (answer : Option Int32) : JournalOutcome :=
  ⟨answer, if answer = some 0 then batch else []⟩

/-- What the filesystem should be asked. -/
def JournalRequest.event (request : JournalRequest) (clock : Nat → Int64) : FsEvent :=
  .multiinsert clock (request.batch.map journalInput)

namespace Cluster
variable {N : Type} [DecidableEq N]

/-- One of the memories is another one now. -/
def setMemory (s : Cluster N) (n : N) (memory : BusyNode) : Cluster N :=
  { s with memories := Function.update s.memories n memory }

theorem memories_setMemory (s : Cluster N) (n other : N) (memory : BusyNode) :
    (s.setMemory n memory).memories other = if other = n then memory else s.memories other :=
  Function.update_apply s.memories n memory other

def step (config : FsConfig) (s : Cluster N) : ClusterAction N → Option (Cluster N)
  | .memory n stored action =>
    if action.Own then ({ s.memories n with stored }.step action).map (s.setMemory n) else none
  | .journal n request delivery clock answered => do
    let inputs ← request.received delivery
    let (answer, fs) ← (FsEvent.multiinsert clock inputs).run config s.fs
    let answer := if answered then answer else none
    let memory ← (s.memories n).step (.fsJournal request (journalOutcome request.batch answer))
    some { s.setMemory n memory with fs }
  | .unreachable n request =>
    ((s.memories n).step (.fsJournal request (journalOutcome request.batch none))).map
      (s.setMemory n)
  | .filesystem event => (event.run config s.fs).map fun (_, fs) => { s with fs }

end Cluster

/-! ## What is not done to a table -/

/-- The process is not killed while the table waits for a dump. -/
def FsEvent.Spares (name : Bytes) (fs : Filesystem) : FsEvent → Prop
  | .kill archives _ => ∀ table ∈ fs.memTable.drop archives, table.name ≠ name
  | _ => True

instance (name : Bytes) (fs : Filesystem) : DecidablePred (FsEvent.Spares name fs)
  | .kill archives _ =>
    inferInstanceAs (Decidable (∀ table ∈ fs.memTable.drop archives, table.name ≠ name))
  | .insert _ _ | .multiinsert _ _ | .create _ | .drop _ | .dump | .compaction _ | .shutdown =>
    isTrue trivial

namespace Cluster
variable {N : Type} {config : FsConfig} {name : Bytes} {s s' : Cluster N}

/-- Batches are small messages, the filesystem is asked for what it can do, and the table is not
dropped. -/
def Lasting (config : FsConfig) (name : Bytes) (_ : Cluster N) :
    ClusterAction N → Cluster N → Prop
  | .memory _ _ _, _ => True
  | .journal _ request _ clock _, s' =>
    request.message.Small ∧ (request.event clock).Sane config ∧ s'.fs.Allocated
  | .unreachable _ _, _ => True
  | .filesystem event, s' => event.Sane config ∧ s'.fs.Allocated ∧ ¬ event.Drops name

/-- Moreover the memories are undisturbed, and the filesystem is not killed too early. -/
def Harmless (config : FsConfig) (name : Bytes) (s : Cluster N) (action : ClusterAction N)
    (s' : Cluster N) : Prop :=
  s.Lasting config name action s' ∧
    match action with
    | .memory n _ action => (s.memories n).Undisturbed action
    | .filesystem event => event.Spares name s.fs
    | _ => True

instance (action : ClusterAction N) : Decidable (s.Lasting config name action s') := by
  unfold Lasting
  split <;> infer_instance

instance (action : ClusterAction N) : Decidable (s.Harmless config name action s') := by
  unfold Harmless
  split <;> infer_instance

/-- The memories were set up, and the filesystem is formatted. -/
structure Start (s : Cluster N) : Prop where
  memories : ∀ n, (s.memories n).Start
  fs : ∃ blockSize blocks, 2 ≤ blockSize ∧ s.fs = Filesystem.formatted blockSize blocks

end Cluster

/-! ## What a memory has confirmed -/

section Confirmed
variable {s s' : BusyNode} {view : View} {memory : MainMemory}

theorem BusyNode.confirmed_send {waiter : Option Waiter} (h : s.send waiter = some s') :
    s'.confirmed = s.confirmed := by
  obtain ⟨batch, -, h⟩ := Option.bind_eq_some_iff.mp h
  obtain rfl := Option.some.inj h
  split <;> rfl

theorem BusyNode.confirmed_runTail {tail : Tail} (h : s.runTail tail = some s') :
    s'.confirmed = s.confirmed := by
  cases tail with
  | insert listing tableName record =>
    cases listing with
    | none =>
      obtain rfl := Option.some.inj h
      rfl
    | some listing =>
      obtain ⟨node, -, rfl⟩ := Option.map_eq_some_iff.mp h
      rfl
  | fill listing request result =>
    obtain ⟨node, -, rfl⟩ := Option.map_eq_some_iff.mp h
    rfl
  | miss request | answer request result | done =>
    obtain rfl := Option.some.inj h
    rfl

theorem BusyNode.confirmed_runTask {task : Task} (h : s.runTask task = some s') :
    s'.confirmed = s.confirmed := by
  cases task with
  | post tail =>
    rw [BusyNode.runTask] at h
    split at h
    · obtain rfl := Option.some.inj h
      rfl
    · exact confirmed_runTail h
  | raise tail => exact (confirmed_runTail h).trans rfl
  | look waiter =>
    rw [BusyNode.runTask] at h
    split at h
    · exact confirmed_send h
    · obtain rfl := Option.some.inj h
      rfl
  | wait waiter =>
    rw [BusyNode.runTask] at h
    split at h
    · cases h
    · exact (confirmed_send h).trans rfl

theorem BusyNode.confirmed_settle (s : BusyNode) (waiter : Option Waiter) :
    (s.settle waiter).confirmed = s.confirmed := by
  rcases waiter with _ | ⟨register, _ | request⟩ <;> rfl

/-- Only the filesystem confirms. -/
theorem BusyNode.confirmed_step {action : BusyNode.Action} (hown : action.Own)
    (h : s.step action = some s') : s'.confirmed = s.confirmed := by
  cases action with
  | fsJournal journal outcome => exact hown.elim
  | insert now later input =>
    rw [BusyNode.step] at h
    split at h
    · cases h
    · obtain ⟨ending, -, rfl⟩ := Option.map_eq_some_iff.mp h
      rcases ending with _ | _ | _ | _ <;> rfl
  | select input =>
    rw [BusyNode.step] at h
    split at h
    · cases h
    · obtain ⟨lookup, -, rfl⟩ := Option.map_eq_some_iff.mp h
      cases lookup <;> rfl
  | journal =>
    obtain rfl := Option.some.inj h
    rfl
  | run task =>
    rw [BusyNode.step] at h
    split at h
    · exact (confirmed_runTask h).trans rfl
    · cases h
  | fsSelect request result =>
    rw [BusyNode.step] at h
    split at h
    · obtain rfl := Option.some.inj h
      rfl
    · cases h
  | selectCallback request result =>
    rw [BusyNode.step] at h
    split at h
    · obtain ⟨ending, -, rfl⟩ := Option.map_eq_some_iff.mp h
      rcases ending with _ | _ | _ | _ <;> rfl
    · cases h
  | journalCallback journal =>
    rw [BusyNode.step] at h
    split at h
    · obtain ⟨result, -, h⟩ := Option.bind_eq_some_iff.mp h
      obtain ⟨node, -, h⟩ := Option.bind_eq_some_iff.mp h
      obtain rfl := Option.some.inj h
      split
      · exact (BusyNode.confirmed_settle _ _).trans rfl
      · rfl
    · cases h

/-- What the filesystem holds does not matter to what is kept. -/
theorem BusyNode.Inv.changeStored (h : s.Inv memory False view) (stored : Stored) :
    ({ s with stored } : BusyNode).Inv memory False view :=
  ⟨⟨⟨h.threads.tasks, h.threads.journals, h.threads.selects⟩,
    ⟨h.kept.batches, h.kept.confirmed, h.kept.written⟩, fun hfresh => hfresh.elim⟩,
    ⟨h.holds.size, h.holds.count, h.holds.shows, h.holds.phase⟩⟩

/-- A batch that is answered with 0 is confirmed. -/
theorem BusyNode.confirmed_fsJournal {request : JournalRequest} {answer : Option Int32}
    (h : s.step (.fsJournal request (journalOutcome request.batch answer)) = some s') :
    s'.confirmed = if answer = some 0 then request.batch ++ s.confirmed else s.confirmed := by
  rw [BusyNode.step] at h
  split at h
  · obtain rfl := Option.some.inj h
    rfl
  · cases h

end Confirmed

/-! ## What a batch brings -/

theorem nul_not_mem_toUppercase (text : CString) : 0 ∉ toUppercase text.bytes := by
  intro hmem
  obtain ⟨b, hb, hzero⟩ := List.mem_map.mp hmem
  exact text.noNul ((toUpper_eq_iff (by decide)).mp hzero ▸ hb)

/-- What an INSERT with its time leaves in the table. -/
def InsertInput.record (input : InsertInput) : Record :=
  ⟨input.timestamp, input.key, input.value.bytes⟩

/-- The elements of a batch are acknowledged together. -/
theorem acknowledges_of_mem_batch {request : JournalRequest} {input : InsertInput}
    (clock : Nat → Int64) (htime : input.timestamp ≠ -1)
    (h : (toUppercase input.tableName.bytes, input.record) ∈ request.batch) :
    Acknowledges (toUppercase input.tableName.bytes) input.record
      (request.event clock, some 0) := by
  obtain ⟨i, hi⟩ := List.mem_iff_getElem?.mp h
  let sent := journalInput (toUppercase input.tableName.bytes, input.record)
  have hentry : (sent, i) ∈ (request.batch.map journalInput).zipIdx := by
    rw [List.mem_zipIdx_iff_getElem?, List.getElem?_map, hi]
    rfl
  have hname : sent.tableName.bytes = toUppercase input.tableName.bytes :=
    bytes_ofBytes (nul_not_mem_toUppercase _)
  have hvalue : sent.value.bytes = input.value.bytes := bytes_ofBytes input.value.noNul
  have hstamp : sent.timestamp ≠ -1 := htime
  refine ⟨⟨_, hentry, ?_, ?_⟩, rfl⟩
  · rw [hname, toUppercase_toUppercase]
  · rw [insertedRecord, if_neg hstamp, hvalue]
    rfl

/-! ## The filesystem -/

section Filesystem
variable {config : FsConfig} {fs fs' : Filesystem} {store : FsStore} {event : FsEvent}
  {answer : Option Int32} {name : Bytes} {record : Record}

/-- A pending record is not lost if no text of its table is lost. -/
theorem Represents.keeps_kill {archives : Nat} (h : Represents config fs store)
    (hpending : Pending name record store)
    (hspares : ∀ table ∈ fs.memTable.drop archives, table.name ≠ name) :
    (store.run [.flush (writtenBefore fs.memTable archives), .restart]).Keeps name record := by
  rcases hpending with hkeeps | ⟨hmem, hlog⟩
  · exact hkeeps.run (by simp)
  · have hwritten : writtenBefore fs.memTable archives name := by
      rw [h.recent, memRecords] at hmem
      cases hfind : fs.memTable.find? fun table => table.name = name with
      | none =>
        rw [hfind] at hmem
        exact absurd hmem List.not_mem_nil
      | some table =>
        have htable := List.mem_of_find?_eq_some hfind
        have hname : table.name = name := by simpa using List.find?_some hfind
        rw [← List.take_append_drop archives fs.memTable, List.mem_append] at htable
        rcases htable with htake | hdrop
        · exact List.any_eq_true.mpr ⟨table, htake, decide_eq_true hname⟩
        · exact absurd hname (hspares table hdrop)
    have hflush := LogStore.keeps_flush hwritten hlog hmem
    have hrestart : (.restart : LogOp Bytes Record) ≠ .remove name := by simp
    exact hflush.apply hrestart

/-- One event: what is pending stays so, and what is acknowledged is pending. -/
theorem Represents.pending_step (h : Represents config fs store)
    (hstep : FsStep config fs (event, answer) fs') (hdrops : ¬ event.Drops name)
    (hspares : event.Spares name fs) :
    ∃ store', Represents config fs' store' ∧
      (Pending name record store ∨ Acknowledges name record (event, answer) →
        Pending name record store') := by
  by_cases hkills : event.Kills
  · cases event with
    | kill archives tkvs =>
      obtain ⟨-, hrep⟩ := h.kill hstep.2.1 hstep.2.2
      refine ⟨_, hrep, fun hbefore => ?_⟩
      rcases hbefore with hpending | hack
      · exact .inl (h.keeps_kill hpending hspares)
      · exact hack.1.elim
    | insert _ _ | multiinsert _ _ | create _ | drop _ | dump | compaction _ | shutdown =>
      exact hkills.elim
  · obtain ⟨store', hstore, hrep⟩ := Represents.simulation config fs store _ fs' h hstep
    refine ⟨store', hrep, fun hbefore => ?_⟩
    rcases hbefore with hpending | hack
    · exact hpending.step ⟨hdrops, hkills⟩ hstore
    · obtain ⟨ops, hmeans, rfl⟩ := hstore
      exact hmeans.acknowledged hack

end Filesystem

/-! ## The processes together -/

namespace Cluster

/-- Memories are as they should be, and what one of them has confirmed of an INSERT lasts. -/
structure Inv {N : Type} (config : FsConfig) (input : InsertInput) (s : Cluster N) : Prop where
  memories : ∀ n, ∃ memory view, (s.memories n).Inv memory False view
  stored : ∃ store, Represents config s.fs store ∧ ∀ n,
    (toUppercase input.tableName.bytes, input.record) ∈ (s.memories n).confirmed →
      Pending (toUppercase input.tableName.bytes) input.record store

section Steps
variable {N : Type} {config : FsConfig} {input : InsertInput} {s s' start : Cluster N} {n : N}
  {memory : BusyNode}

theorem Start.inv (h : start.Start) : start.Inv config input := by
  obtain ⟨blockSize, blocks, hsize, hfs⟩ := h.fs
  refine ⟨fun n => ⟨_, _, (h.memories n).inv⟩, _, hfs ▸ represents_formatted hsize,
    fun n hmem => ?_⟩
  rw [(h.memories n).confirmed] at hmem
  exact absurd hmem List.not_mem_nil

/-- Where an INSERT is that a memory has acknowledged, and that was not written over. -/
theorem Inv.acknowledged (h : s.Inv config input)
    (hack : (toUppercase input.tableName.bytes, input.record) ∈ (s.memories n).acknowledged)
    (hlast : (s.memories n).written (toUppercase input.tableName.bytes) input.key =
      some input.record) :
    InModifiedPage (s.memories n).node (toUppercase input.tableName.bytes) input.record ∨
      ∃ store, Represents config s.fs store ∧
        Pending (toUppercase input.tableName.bytes) input.record store := by
  obtain ⟨main, view, hinv⟩ := h.memories n
  obtain ⟨store, hrep, hpending⟩ := h.stored
  rcases hinv.losesNothing _ _ hack hlast with hpage | hconfirmed
  · exact .inl hpage
  · exact .inr ⟨store, hrep, hpending n hconfirmed⟩

variable [DecidableEq N]

/-- A memory that keeps its invariant, and has not more confirmed. -/
theorem Inv.setMemory (h : s.Inv config input)
    (hmemory : ∃ main view, memory.Inv main False view)
    (hconfirmed : memory.confirmed = (s.memories n).confirmed) :
    (s.setMemory n memory).Inv config input := by
  obtain ⟨store, hrep, hpending⟩ := h.stored
  refine ⟨fun other => ?_, store, hrep, fun other hmem => ?_⟩
  · rw [memories_setMemory]
    split
    · exact hmemory
    · exact h.memories other
  · rw [memories_setMemory] at hmem
    split at hmem
    · exact hpending n (hconfirmed ▸ hmem)
    · exact hpending other hmem

/-- A batch that arrives. -/
theorem Inv.journal (h : s.Inv config input) (htime : input.timestamp ≠ -1)
    {request : JournalRequest} {clock : Nat → Int64} {answer sent : Option Int32} {fs : Filesystem}
    (hfs : FsStep config s.fs (request.event clock, answer) fs)
    (hsent : sent = some 0 → answer = some 0)
    (hmemory : (s.memories n).step (.fsJournal request (journalOutcome request.batch sent)) =
      some memory) :
    ({ s.setMemory n memory with fs } : Cluster N).Inv config input := by
  obtain ⟨store, hrep, hpending⟩ := h.stored
  obtain ⟨store', hrep', hafter⟩ := @Represents.pending_step _ _ _ _ _ _
    (toUppercase input.tableName.bytes) input.record hrep hfs id trivial
  obtain ⟨main, view, hinv⟩ := h.memories n
  have hundisturbed : (s.memories n).Undisturbed
      (.fsJournal request (journalOutcome request.batch sent)) := trivial
  have hstep := hinv.step hundisturbed (fun hfresh => hfresh.elim) hmemory
  have hconfirmed := BusyNode.confirmed_fsJournal hmemory
  refine ⟨fun other => ?_, store', hrep', fun other hmem => ?_⟩
  · change ∃ memory' view, ((s.setMemory n memory).memories other).Inv memory' False view
    rw [memories_setMemory]
    split
    · exact ⟨main, hstep⟩
    · exact h.memories other
  · change _ ∈ ((s.setMemory n memory).memories other).confirmed at hmem
    rw [memories_setMemory] at hmem
    split at hmem
    · rw [hconfirmed] at hmem
      split at hmem
      · rename_i hzero
        rcases List.mem_append.mp hmem with hbatch | hbefore
        · rw [hsent hzero] at hafter
          exact hafter (.inr (acknowledges_of_mem_batch clock htime hbatch))
        · exact hafter (.inl (hpending n hbefore))
      · exact hafter (.inl (hpending n hmem))
    · exact hafter (.inl (hpending other hmem))

/-- **One step.** -/
theorem Inv.step (h : s.Inv config input) (htime : input.timestamp ≠ -1)
    {action : ClusterAction N} (hstep : s.step config action = some s')
    (hharmless : s.Harmless config (toUppercase input.tableName.bytes) action s') :
    s'.Inv config input := by
  cases action with
  | memory n stored action =>
    rw [Cluster.step] at hstep
    split at hstep
    · rename_i hown
      obtain ⟨memory, hmemory, rfl⟩ := Option.map_eq_some_iff.mp hstep
      obtain ⟨main, view, hinv⟩ := h.memories n
      have hundisturbed : ({ s.memories n with stored } : BusyNode).Undisturbed action :=
        hharmless.2
      have hmoved := (hinv.changeStored stored).step hundisturbed (fun hfresh => hfresh.elim)
        hmemory
      have hconfirmed := BusyNode.confirmed_step hown hmemory
      exact h.setMemory ⟨main, hmoved⟩ hconfirmed
    · cases hstep
  | journal n request delivery clock answered =>
    rw [Cluster.step] at hstep
    obtain ⟨inputs, hreceived, hstep⟩ := Option.bind_eq_some_iff.mp hstep
    obtain ⟨⟨answer, fs⟩, hfs, hstep⟩ := Option.bind_eq_some_iff.mp hstep
    obtain ⟨memory, hmemory, hstep⟩ := Option.bind_eq_some_iff.mp hstep
    obtain rfl := Option.some.inj hstep
    obtain ⟨hsmall, hsane, halloc⟩ := hharmless.1
    obtain rfl := JournalRequest.received_eq hsmall hreceived
    refine h.journal htime ⟨hsane, hfs, halloc⟩ (fun hzero => ?_) hmemory
    split at hzero
    · exact hzero
    · cases hzero
  | unreachable n request =>
    obtain ⟨memory, hmemory, rfl⟩ := Option.map_eq_some_iff.mp hstep
    obtain ⟨main, view, hinv⟩ := h.memories n
    have hundisturbed : (s.memories n).Undisturbed
        (.fsJournal request (journalOutcome request.batch none)) := trivial
    have hmoved := hinv.step hundisturbed (fun hfresh => hfresh.elim) hmemory
    have hconfirmed := BusyNode.confirmed_fsJournal hmemory
    rw [if_neg (by simp)] at hconfirmed
    exact h.setMemory ⟨main, hmoved⟩ hconfirmed
  | filesystem event =>
    obtain ⟨⟨answer, fs⟩, hfs, rfl⟩ := Option.map_eq_some_iff.mp hstep
    obtain ⟨store, hrep, hpending⟩ := h.stored
    obtain ⟨⟨hsane, halloc, hdrops⟩, hspares⟩ := hharmless
    obtain ⟨store', hrep', hafter⟩ := @Represents.pending_step _ _ _ _ _ _
      (toUppercase input.tableName.bytes) input.record hrep ⟨hsane, hfs, halloc⟩ hdrops hspares
    exact ⟨h.memories, store', hrep', fun n hmem => hafter (.inl (hpending n hmem))⟩

end Steps

/-! ## Runs -/

section Runs
variable {N : Type} [DecidableEq N] {config : FsConfig} {input : InsertInput} {name : Bytes}
  {record : Record} {start s s₁ s₂ : Cluster N} {n : N}

/-- The filesystem has a record that it will not forget. -/
def Keeps (config : FsConfig) (name : Bytes) (record : Record) (s : Cluster N) : Prop :=
  ∃ store, Represents config s.fs store ∧ store.Keeps name record

omit [DecidableEq N] in
theorem Keeps.event (h : s.Keeps config name record) {event : FsEvent} {answer : Option Int32}
    {fs : Filesystem} (hstep : FsStep config s.fs (event, answer) fs) (hdrops : ¬ event.Drops name)
    (hfs : s₁.fs = fs) : s₁.Keeps config name record := by
  obtain ⟨store, hrep, hkeeps⟩ := h
  obtain ⟨store', hstore, hrep'⟩ := Represents.simulation config s.fs store _ fs hrep hstep
  exact ⟨store', hfs ▸ hrep', keeps_step hkeeps hdrops hstore⟩

theorem Keeps.step (h : s.Keeps config name record) {action : ClusterAction N}
    (hstep : s.step config action = some s₁) (hlasting : s.Lasting config name action s₁) :
    s₁.Keeps config name record := by
  cases action with
  | memory n stored action =>
    rw [Cluster.step] at hstep
    split at hstep
    · obtain ⟨memory, -, rfl⟩ := Option.map_eq_some_iff.mp hstep
      exact h
    · cases hstep
  | journal n request delivery clock answered =>
    rw [Cluster.step] at hstep
    obtain ⟨inputs, hreceived, hstep⟩ := Option.bind_eq_some_iff.mp hstep
    obtain ⟨⟨answer, fs⟩, hfs, hstep⟩ := Option.bind_eq_some_iff.mp hstep
    obtain ⟨memory, -, hstep⟩ := Option.bind_eq_some_iff.mp hstep
    obtain rfl := Option.some.inj hstep
    obtain ⟨hsmall, hsane, halloc⟩ := hlasting
    obtain rfl := JournalRequest.received_eq hsmall hreceived
    exact h.event ⟨hsane, hfs, halloc⟩ id rfl
  | unreachable n request =>
    obtain ⟨memory, -, rfl⟩ := Option.map_eq_some_iff.mp hstep
    exact h
  | filesystem event =>
    obtain ⟨⟨answer, fs⟩, hfs, rfl⟩ := Option.map_eq_some_iff.mp hstep
    obtain ⟨hsane, halloc, hdrops⟩ := hlasting
    exact h.event ⟨hsane, hfs, halloc⟩ hdrops rfl

end Runs

/-! ## A run -/

/-- A memory of two pages, and a filesystem. -/
def first : Option (Cluster Unit) :=
  emptyBusyNode.map fun memory => ⟨fun _ => memory, Filesystem.formatted 8 32⟩

/-- The record is in no page any more. -/
def Journaled (s : Cluster Unit) : Prop :=
  (s.memories ()).AcknowledgedLast ⟨11, 1, [97]⟩ ∧ (s.memories ()).node.segmentList = []

instance (s : Cluster Unit) : Decidable s.Journaled := inferInstanceAs (Decidable (_ ∧ _))

end Cluster

end Lissandra
