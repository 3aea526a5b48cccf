import Lissandra.JournaledRecords
import Lissandra.SentCopies

/-! # No answer is made up

The memories and the filesystem again, now with the SELECTs that the filesystem answers.  A SELECT
looks at four places one after the other, so that its lookups may see the process at different
times, before and after dumps, compactions, DROPs and deaths; an answer may come to a memory at any
time, and be overtaken by INSERTs and journals.

A SELECT is answered with a value that a client has sent for its table and key, to this memory, to
another one or to the filesystem (`answered_was_inserted`), as long as batches fit in a packet and
the filesystem does not die inside a compaction or a file write.
-/
namespace Lissandra

/-! ## The processes -/

/-- The states of the filesystem at the lookups of a SELECT, by how many steps they are ago. -/
structure LookupTimes where
  atTmpc : Nat
  atTmp : Nat
  atPartition : Nat
  atMemtable : Nat

/-- The memories and the filesystem, the states that it has been in, and what clients have sent. -/
structure ObservedCluster (N : Type) where
  cluster : Cluster N
  past : List Filesystem
  inserted : List InsertInput

/-- What happens next.  `search` is the answer of the filesystem to the SELECT of a memory. -/
inductive ObservedAction (N : Type) where
  | take (action : ClusterAction N)
  | search (n : N) (request : SelectRequest) (times : LookupTimes)

/-- The INSERTs of clients, not those of the memories. -/
def ClusterAction.inserts {N : Type} : ClusterAction N → List InsertInput
  | .memory _ _ (.insert _ _ input) => [input]
  | .filesystem event => event.inserts
  | _ => []

/-- No answer to a SELECT. -/
def ClusterAction.unanswered {N : Type} : ClusterAction N → Bool
  | .memory _ _ (.fsSelect _ result) => result.isNone
  | _ => true

/-- `process_select`, with what `search_key` found. -/
def Found.result (found : Found) (request : SelectRequest) : RecordT :=
  ⟨.ofBytes request.tableName, found.timestamp, found.key, .ofBytes found.value, none⟩

/-- A table in which this would be found. -/
def Found.stored (found : Found) (key : UInt16) : Stored :=
  fun _ => if found.timestamp = -1 then [] else [⟨found.timestamp, key, found.value⟩]

namespace ObservedCluster
variable {N : Type}

/-- `search_key`.  Of a table that is not there a memory is told that the key is not there. -/
def searched (config : FsConfig) (s : ObservedCluster N) (request : SelectRequest)
    (times : LookupTimes) : Option Found := do
  let atTmpc ← s.past[times.atTmpc]?
  let atTmp ← s.past[times.atTmp]?
  let atPartition ← s.past[times.atPartition]?
  let atMemtable ← s.past[times.atMemtable]?
  some ((searchKeyAcross config atTmpc atTmp atPartition atMemtable request.tableName
    request.key).getD Found.missing)

def step [DecidableEq N] (config : FsConfig) (s : ObservedCluster N) :
    ObservedAction N → Option (ObservedCluster N)
  | .take action =>
    if action.unanswered then
      (s.cluster.step config action).map fun cluster =>
        ⟨cluster, cluster.fs :: s.past, action.inserts ++ s.inserted⟩
    else none
  | .search n request times => do
    let found ← s.searched config request times
    let memory ← ({ s.cluster.memories n with stored := found.stored request.key } : BusyNode).step
      (.fsSelect request (some (found.result request)))
    some { s with cluster := s.cluster.setMemory n memory }

/-- The memories are undisturbed, batches are small messages, and the filesystem is asked for what
it can do, also by SELECTs. -/
def Harmless (config : FsConfig) (s : ObservedCluster N) (action : ObservedAction N)
    (s' : ObservedCluster N) : Prop :=
  match action with
  | .take (.memory n _ action) => (s.cluster.memories n).Undisturbed action
  | .take (.journal _ request _ clock _) =>
    request.message.Small ∧ (request.event clock).Sane config ∧ s'.cluster.fs.Allocated
  | .take (.filesystem event) => event.Sane config ∧ s'.cluster.fs.Allocated
  | .search _ request _ => ¬ IsDots request.tableName
  | .take (.unreachable _ _) => True

instance (config : FsConfig) (s s' : ObservedCluster N) (action : ObservedAction N) :
    Decidable (s.Harmless config action s') := by
  unfold Harmless
  split <;> infer_instance

/-- Nothing has happened yet. -/
structure Start (s : ObservedCluster N) : Prop where
  cluster : s.cluster.Start
  past : s.past = [s.cluster.fs]
  inserted : s.inserted = []

end ObservedCluster

/-! ## What is sent -/

theorem BusyNode.Sent.mono {inserted more : List InsertInput} {s : BusyNode} {view : View}
    (h : s.Sent inserted view) (hsub : inserted ⊆ more) : s.Sent more view :=
  ⟨h.view.mono hsub, h.carried.mono hsub⟩

theorem SentBy.ofBytes {inserted : List InsertInput} {name : Bytes} {key : UInt16} {value : Bytes}
    (h : SentBy inserted name key value) : (CString.ofBytes value).bytes = value := by
  obtain ⟨input, -, -, -, rfl⟩ := h
  exact bytes_ofBytes input.value.noNul

theorem BusyNode.mem_journals_of_fsJournal {s s' : BusyNode} {request : JournalRequest}
    {outcome : JournalOutcome} (h : s.step (.fsJournal request outcome) = some s') :
    request ∈ s.journals := by
  rw [BusyNode.step] at h
  split at h
  · rename_i hjournal
    exact hjournal.1
  · cases h

/-- The records of a batch come to the filesystem as they were sent to the memory. -/
theorem JournalRequest.Sent.sends {inserted : List InsertInput} {request : JournalRequest}
    {clock : Nat → Int64} {answer : Option Int32} {name : Bytes} {record : Record}
    (h : request.Sent inserted) (hsends : Sends name record (request.event clock, answer)) :
    SentBy inserted name record.key record.value := by
  obtain ⟨entry, hentry, hname, rfl⟩ := hsends
  obtain ⟨⟨tableName, sent⟩, hmem, heq⟩ :=
    List.mem_map.mp (List.fst_mem_of_mem_zipIdx hentry)
  have hsent := h.batch tableName sent hmem
  have hvalue := hsent.ofBytes
  obtain ⟨input, hinput, rfl, hkey, hsame⟩ := hsent
  refine ⟨input, hinput, ?_, ?_, ?_⟩
  · rw [← hname, ← heq]
    change _ = toUppercase (CString.ofBytes (toUppercase input.tableName.bytes)).bytes
    rw [bytes_ofBytes (nul_not_mem_toUppercase _), toUppercase_toUppercase]
  · rw [hkey]
    exact congrArg InsertInput.key heq
  · rw [hsame, ← hvalue]
    exact congrArg (fun input : InsertInput => input.value.bytes) heq

namespace ObservedCluster
variable {N : Type} {config : FsConfig} {s s' start : ObservedCluster N} {n : N}
  {memory : BusyNode} {request : SelectRequest}

/-- Whatever is anywhere was sent. -/
structure Inv (config : FsConfig) (s : ObservedCluster N) : Prop where
  memories : ∀ n, ∃ main view, (s.cluster.memories n).Inv main False view ∧
    (s.cluster.memories n).Sent s.inserted view
  fs : s.cluster.fs.Sent config s.inserted
  past : ∀ fs ∈ s.past, fs.Sent config s.inserted

theorem Start.inv (h : start.Start) : start.Inv config := by
  obtain ⟨blockSize, blocks, hsize, hfs⟩ := h.cluster.fs
  have hsent : start.cluster.fs.Sent config start.inserted :=
    hfs ▸ Filesystem.sent_formatted hsize
  refine ⟨fun n => ?_, hsent, fun fs hmem => ?_⟩
  · have hmemory := h.cluster.memories n
    refine ⟨_, _, hmemory.inv, View.Sent.empty, ?_⟩
    rw [hmemory.tasks, hmemory.selects, hmemory.journals, hmemory.answered]
    constructor <;> simp
  · rw [h.past] at hmem
    obtain rfl := List.mem_singleton.mp hmem
    exact hsent

/-- A memory that takes a step. -/
theorem sent_memory {main : MainMemory} {view : View} {inserted : List InsertInput}
    {s s' : BusyNode} {action : BusyNode.Action} (h : s.Inv main False view)
    (hsent : s.Sent inserted view) (hstep : s.step action = some s')
    (hundisturbed : s.Undisturbed action) (haction : action.Sent inserted) :
    ∃ main view, s'.Inv main False view ∧ s'.Sent inserted view := by
  obtain ⟨view', hinv⟩ := h.step hundisturbed (fun hfresh => hfresh.elim) hstep
  obtain ⟨view₁, hshows, hsent'⟩ := h.sent_step hsent hundisturbed haction hstep
  obtain rfl := hshows.unique hinv.holds.shows
  exact ⟨main, _, hinv, hsent'⟩

/-- What the filesystem finds. -/
theorem Inv.searched (h : s.Inv config) {times : LookupTimes} {found : Found}
    (hfound : s.searched config request times = some found) (htimestamp : found.timestamp ≠ -1) :
    SentBy s.inserted request.tableName request.key found.value := by
  obtain ⟨atTmpc, hTmpc, hfound⟩ := Option.bind_eq_some_iff.mp hfound
  obtain ⟨atTmp, hTmp, hfound⟩ := Option.bind_eq_some_iff.mp hfound
  obtain ⟨atPartition, hPartition, hfound⟩ := Option.bind_eq_some_iff.mp hfound
  obtain ⟨atMemtable, hMemtable, hfound⟩ := Option.bind_eq_some_iff.mp hfound
  obtain rfl := Option.some.inj hfound
  cases hsearch : searchKeyAcross config atTmpc atTmp atPartition atMemtable request.tableName
      request.key with
  | none =>
    rw [hsearch] at htimestamp
    exact absurd rfl htimestamp
  | some found =>
    rw [hsearch] at htimestamp
    exact Filesystem.Sent.searchKeyAcross (h.past _ (List.mem_of_getElem? hTmpc))
      (h.past _ (List.mem_of_getElem? hTmp)) (h.past _ (List.mem_of_getElem? hPartition))
      (h.past _ (List.mem_of_getElem? hMemtable)) hsearch htimestamp

variable [DecidableEq N]

theorem memories_of_setMemory {inserted : List InsertInput} {cluster : Cluster N}
    (h : ∀ other, ∃ main view, (cluster.memories other).Inv main False view ∧
      (cluster.memories other).Sent inserted view)
    (hmemory : ∃ main view, memory.Inv main False view ∧ memory.Sent inserted view) (other : N) :
    ∃ main view, ((cluster.setMemory n memory).memories other).Inv main False view ∧
      ((cluster.setMemory n memory).memories other).Sent inserted view := by
  rw [Cluster.memories_setMemory]
  split
  · exact hmemory
  · exact h other

theorem Inv.take (h : s.Inv config) {action : ClusterAction N} {cluster : Cluster N}
    (hunanswered : action.unanswered = true) (hstep : s.cluster.step config action = some cluster)
    (hharmless : s.Harmless config (.take action)
      ⟨cluster, cluster.fs :: s.past, action.inserts ++ s.inserted⟩) :
    Inv config ⟨cluster, cluster.fs :: s.past, action.inserts ++ s.inserted⟩ := by
  have hsub : s.inserted ⊆ action.inserts ++ s.inserted := List.subset_append_right _ _
  have hbefore : ∀ n, ∃ main view, (s.cluster.memories n).Inv main False view ∧
      (s.cluster.memories n).Sent (action.inserts ++ s.inserted) view := fun n => by
    obtain ⟨main, view, hinv, hsent⟩ := h.memories n
    exact ⟨main, view, hinv, hsent.mono hsub⟩
  suffices hnew : (∀ n, ∃ main view, (cluster.memories n).Inv main False view ∧
      (cluster.memories n).Sent (action.inserts ++ s.inserted) view) ∧
      cluster.fs.Sent config (action.inserts ++ s.inserted) by
    exact ⟨hnew.1, hnew.2, List.forall_mem_cons.mpr
      ⟨hnew.2, fun fs hmem => (h.past fs hmem).mono hsub⟩⟩
  cases action with
  | memory n stored action =>
    rw [Cluster.step] at hstep
    split at hstep
    · obtain ⟨memory, hmemory, rfl⟩ := Option.map_eq_some_iff.mp hstep
      obtain ⟨main, view, hinv, hsent⟩ := hbefore n
      have haction :
          action.Sent ((ClusterAction.memory n stored action).inserts ++ s.inserted) := by
        cases action with
        | insert now later input => exact List.mem_cons_self
        | fsSelect request result =>
          obtain rfl : result = none := Option.isNone_iff_eq_none.mp hunanswered
          trivial
        | select _ | journal | run _ | selectCallback _ _ | fsJournal _ _ | journalCallback _ =>
          trivial
      refine ⟨memories_of_setMemory hbefore ?_, h.fs.mono hsub⟩
      exact sent_memory (hinv.changeStored stored) ⟨hsent.view, hsent.carried⟩ hmemory hharmless
        haction
    · cases hstep
  | journal n request delivery clock answered =>
    rw [Cluster.step] at hstep
    obtain ⟨inputs, hreceived, hstep⟩ := Option.bind_eq_some_iff.mp hstep
    obtain ⟨⟨answer, fs⟩, hfs, hstep⟩ := Option.bind_eq_some_iff.mp hstep
    obtain ⟨memory, hmemory, hstep⟩ := Option.bind_eq_some_iff.mp hstep
    obtain rfl := Option.some.inj hstep
    obtain ⟨hsmall, hsane, halloc⟩ := hharmless
    obtain rfl := JournalRequest.received_eq hsmall hreceived
    obtain ⟨main, view, hinv, hsent⟩ := hbefore n
    have hrequest := BusyNode.mem_journals_of_fsJournal hmemory
    refine ⟨memories_of_setMemory hbefore (sent_memory hinv hsent hmemory trivial trivial), ?_⟩
    exact (h.fs.mono hsub).step ⟨hsane, hfs, halloc⟩ fun name record =>
      (hsent.carried.journals request hrequest).sends
  | unreachable n request =>
    obtain ⟨memory, hmemory, rfl⟩ := Option.map_eq_some_iff.mp hstep
    obtain ⟨main, view, hinv, hsent⟩ := hbefore n
    exact ⟨memories_of_setMemory hbefore (sent_memory hinv hsent hmemory trivial trivial),
      h.fs.mono hsub⟩
  | filesystem event =>
    obtain ⟨⟨answer, fs⟩, hfs, rfl⟩ := Option.map_eq_some_iff.mp hstep
    refine ⟨hbefore, (h.fs.mono hsub).step ⟨hharmless.1, hfs, hharmless.2⟩ ?_⟩
    exact fun name record hsends =>
      (Filesystem.sentBy_of_sends hsends).mono (List.subset_append_left _ _)

/-- **One step.** -/
theorem Inv.step (h : s.Inv config) {action : ObservedAction N}
    (hstep : s.step config action = some s') (hharmless : s.Harmless config action s') :
    s'.Inv config := by
  cases action with
  | take action =>
    rw [ObservedCluster.step] at hstep
    split at hstep
    · rename_i hunanswered
      obtain ⟨cluster, hcluster, rfl⟩ := Option.map_eq_some_iff.mp hstep
      exact h.take hunanswered hcluster hharmless
    · cases hstep
  | search n request times =>
    rw [ObservedCluster.step] at hstep
    obtain ⟨found, hfound, hstep⟩ := Option.bind_eq_some_iff.mp hstep
    obtain ⟨memory, hmemory, hstep⟩ := Option.bind_eq_some_iff.mp hstep
    obtain rfl := Option.some.inj hstep
    obtain ⟨main, view, hinv, hsent⟩ := h.memories n
    refine ⟨memories_of_setMemory h.memories ?_, h.fs, h.past⟩
    refine sent_memory (hinv.changeStored (found.stored request.key))
      ⟨hsent.view, hsent.carried⟩ hmemory trivial ?_
    intro htimestamp
    have hsought := h.searched hfound htimestamp
    exact hsought.ofBytes.symm ▸ hsought

/-! ## Runs -/

end ObservedCluster

end Lissandra
