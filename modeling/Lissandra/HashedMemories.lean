import Lissandra.CacheMap

/-! # Memories assigned to STRONG HASH CONSISTENCY

The kernel sends an INSERT or a SELECT of a table with this consistency to the memory at
`hash(key, size)` of its list, and `add_shc_memory` appends a memory to the list before it
asks for a journaling of all of them.  `exec_remote`, `journaling` and the callbacks of
answers are run by threads of their own: requests and answers in flight are lists from which
any one may be next.  What a memory does for a request, with its exchange with the
filesystem, is one step (`Front.serve`).  The memories share the filesystem.

Some fields are only observed: the INSERTs that were acknowledged, and the SELECTs that were
answered.
-/
namespace Lissandra

/-! ## Memories by hash -/

/-- `hash`, of C integers. -/
def hash (value modulus : Int) : Int := value.tmod modulus

/-- `get_memory_by_id`. -/
def getMemoryById (memList : List MemoryT) (id : Int32) : Option MemoryT :=
  memList.find? fun memory => memory.id = id

/-- `get_any_shc_memory`, where the list is `g_memories_added_shc`. -/
def getAnyShcMemory (memoriesAddedShc : List MemoryT) (key : UInt16) : Option MemoryT :=
  if memoriesAddedShc.length = 0 then none
  else memoriesAddedShc[(hash key.toNat memoriesAddedShc.length).toNat]?

/-! ## Messages -/

/-- A SELECT, with the INSERTs acknowledged before it was sent. -/
structure ShcSelect where
  input : SelectInput
  seen : List (Bytes × Record)
  deriving DecidableEq

/-- A request of the kernel to a memory. -/
inductive ShcRequest where
  | insert (input : InsertInput)
  | select (request : ShcSelect)
  | journal
  deriving DecidableEq

/-- The calls of `set_response` for a request, one of which the kernel receives, and for an
INSERT the record that it writes. -/
structure ShcReply where
  request : ShcRequest
  record : Record
  answers : List Answer
  deriving DecidableEq

/-- What a request meets at a memory: the clock, what the filesystem answers to a miss, the id
of the response, a `found_page` that was never assigned, and a journal. -/
structure Exchange where
  now : Int64
  later : Int64
  result : Option RecordT
  responseId : Nat
  unassigned : Bool
  outcome : JournalOutcome
  deriving DecidableEq

/-- The operation that a request is for its memory. -/
def ShcRequest.op (exchange : Exchange) : ShcRequest → FrontOp
  | .insert input =>
    .insert exchange.now exchange.later input exchange.responseId exchange.unassigned
      exchange.outcome
  | .select request => .select request.input exchange.result exchange.responseId exchange.unassigned
      exchange.outcome
  | .journal => .journal (some exchange.responseId) exchange.outcome

/-- The record that a request writes, if it is an INSERT. -/
def ShcRequest.record (node : MemoryNode) (exchange : Exchange) : ShcRequest → Record
  | .insert input => writtenRecord node exchange.now exchange.later input
  | _ => ⟨0, 0, []⟩

/-- `on_select`: the record of a SELECT that did not fail. -/
def onSelect : Answer → Option AnsweredRecord
  | .record record =>
    if record.timestamp = -4 ∨ record.timestamp = -3 ∨
      record.timestamp = -2 then none else some record
  | .int _ => none

/-- `on_insert`: whether the INSERT did not fail. -/
def onInsert : Answer → Bool
  | .int status => status ≠ -4 ∧ status ≠ -1
  | .record _ => false

/-! ## The kernel and its memories -/

/-- A thread inside `journaling(true, NULL, NULL)`, at its `sem_wait` or in the loop, or inside
`_local_journal_callback` after its `sem_post`. -/
inductive JournalThread where
  | wait
  | send (i : Nat)
  | compare
  deriving DecidableEq

/-- The kernel, the memories it knows, and the filesystem behind them. -/
structure HashedMemories where
  memories : List MemoryT
  memoriesAddedShc : List MemoryT
  journalSemaphore : Nat
  journalResult : Int
  journalExpected : Nat
  journalActual : Nat
  threads : List JournalThread
  requests : List (Int32 × ShcRequest)
  replies : List ShcReply
  node : Int32 → MemoryNode
  stored : Stored
  clock : Int64
  /-- The INSERTs that were answered with success. -/
  acknowledged : List (Bytes × Record)
  /-- The SELECTs that were answered with a record. -/
  answered : List (ShcSelect × AnsweredRecord)

namespace HashedMemories
variable (s : HashedMemories)

/-- A thread goes on later. -/
def spawn (thread : JournalThread) : HashedMemories := { s with threads := thread :: s.threads }

/-- `do_simple_request` to a memory. -/
def doSimpleRequest (memory : MemoryT) (request : ShcRequest) : HashedMemories :=
  { s with requests := (memory.id, request) :: s.requests }

/-- `add_shc_memory`, up to the `sem_wait` of `journaling`. -/
def addShcMemory (id : Int32) : HashedMemories :=
  match getMemoryById s.memories id with
  | none => s
  | some memory =>
    if memory.alive = false then s
    else if (getMemoryById s.memoriesAddedShc id).isSome then s
    else
      let s := { s with memoriesAddedShc := s.memoriesAddedShc ++ [memory] }
      if 1 < s.memoriesAddedShc.length then s.spawn .wait else s

/-- `journaling` from its `sem_wait` to the loop. -/
def journaling : HashedMemories :=
  let s := { s with
    journalSemaphore := s.journalSemaphore - 1
    journalResult := 0
    journalActual := 0
    journalExpected := s.memoriesAddedShc.length }
  if s.journalExpected = 0 then
    { s with journalResult := -3, journalSemaphore := s.journalSemaphore + 1 }
  else s.spawn (.send 0)

/-- `_local_journal_callback`, up to its `sem_post`. -/
def localJournalCallback (answer : Answer) : HashedMemories :=
  { s with
    journalActual := s.journalActual + 1
    journalResult := if answer = Answer.int (-1) then -1 else s.journalResult }.spawn .compare

/-- A thread goes on. -/
def runThread : JournalThread → Option HashedMemories
  | .wait => if s.journalSemaphore = 0 then none else some s.journaling
  | .send i =>
    match s.memoriesAddedShc[i]? with
    | some memory => some ((s.doSimpleRequest memory .journal).spawn (.send (i + 1)))
    | none => some s
  | .compare =>
    some (if s.journalActual = s.journalExpected then
      { s with journalSemaphore := s.journalSemaphore + 1 } else s)

/-- `exec_remote`, of an INSERT or a SELECT of a table with strong hash consistency. -/
def execRemote (key : UInt16) (request : ShcRequest) : HashedMemories :=
  match getAnyShcMemory s.memoriesAddedShc key with
  | some memory => s.doSimpleRequest memory request
  | none => s

/-- The callback of an answer. -/
def callback (reply : ShcReply) (answer : Answer) : HashedMemories :=
  match reply.request with
  | .insert input =>
    if onInsert answer then
      { s with acknowledged := (toUppercase input.tableName.bytes, reply.record) :: s.acknowledged }
    else s
  | .select request =>
    match onSelect answer with
    | some record => { s with answered := (request, record) :: s.answered }
    | none => s
  | .journal => s.localJournalCallback answer

/-- A memory and the filesystem. -/
def front (id : Int32) : Front := ⟨s.node id, s.stored, s.clock, fun _ _ => none⟩

/-- A memory after an operation. -/
def back (id : Int32) (front : Front) : HashedMemories :=
  { s with
    node := Function.update s.node id front.node
    stored := front.stored
    clock := front.clock }

end HashedMemories

/-! ## Steps -/

/-- What happens next: an ADD, an INSERT or a SELECT is executed, a thread goes on, a memory
serves a request or its auto-journal, or an answer arrives. -/
inductive HashedMemories.Action where
  | add (id : Int32)
  | insert (input : InsertInput)
  | select (input : SelectInput)
  | run (thread : JournalThread)
  | serve (id : Int32) (request : ShcRequest) (exchange : Exchange)
  | autoJournal (id : Int32) (outcome : JournalOutcome)
  | answer (reply : ShcReply) (answer : Answer)
  deriving DecidableEq

/-- One step; `none` is one that cannot be taken, or a `NULL` that is dereferenced. -/
def HashedMemories.step (s : HashedMemories) : HashedMemories.Action → Option HashedMemories
  | .add id => some (s.addShcMemory id)
  | .insert input => some (s.execRemote input.key (.insert input))
  | .select input => some (s.execRemote input.key (.select ⟨input, s.acknowledged⟩))
  | .run thread =>
    if thread ∈ s.threads then { s with threads := s.threads.erase thread }.runThread
      thread else none
  | .serve id request exchange =>
    if (id, request) ∈ s.requests then
      ((s.front id).serve (request.op exchange)).map fun (front, answers) =>
        { s.back id front with
          requests := s.requests.erase (id, request)
          replies := ⟨request, request.record (s.node id) exchange, answers⟩ :: s.replies }
    else none
  | .autoJournal id outcome =>
    if (getMemoryById s.memories id).isSome then
      ((s.front id).serve (.journal none outcome)).map fun (front, _) => s.back id front
    else none
  | .answer reply answer =>
    if reply ∈ s.replies ∧ answer ∈ reply.answers then
      some ({ s with replies := s.replies.erase reply }.callback reply answer)
    else none

/-- What holds of the world: the clock goes on, values can be told apart from separators,
records fit in every memory, and the filesystem does its part. -/
def HashedMemories.Allows (s : HashedMemories) : HashedMemories.Action → Prop
  | .serve id request exchange => (s.front id).Allows (request.op exchange) ∧
      match request with
      | .insert input => ∀ memory ∈ s.memories,
          (NodeOp.processInsert exchange.now exchange.later input).Fits (s.node memory.id)
      | _ => True
  | .autoJournal id outcome => (s.front id).Allows (.journal none outcome)
  | _ => True

instance (s : HashedMemories) (action : HashedMemories.Action) : Decidable (s.Allows action) := by
  unfold HashedMemories.Allows
  split
  · split <;> infer_instance
  · infer_instance
  · infer_instance

/-- The page of a key. -/
def cachedPage (node : MemoryNode) (tableName : Bytes) (key : UInt16) : Option Page :=
  (findPage node tableName key.toNat).join.map Prod.snd

/-- A memory serves an INSERT of a key only while no other memory has a page of it, and a SELECT
only while no other memory has a modified one. -/
def HashedMemories.Owns (s : HashedMemories) : HashedMemories.Action → Prop
  | .serve id (.insert input) _ => ∀ memory ∈ s.memories, memory.id ≠ id →
      cachedPage (s.node memory.id) (toUppercase input.tableName.bytes) input.key = none
  | .serve id (.select request) _ => ∀ memory ∈ s.memories, memory.id ≠ id →
      ∀ page ∈ cachedPage (s.node memory.id) (toUppercase request.input.tableName.bytes)
      request.input.key,
        page.modified = false
  | _ => True

instance (s : HashedMemories) (action : HashedMemories.Action) : Decidable (s.Owns action) := by
  unfold HashedMemories.Owns
  split <;> infer_instance

/-- Memories that were set up in front of a filesystem whose records they can hold, and a kernel
that has assigned none. -/
structure HashedMemories.Start (s : HashedMemories) : Prop where
  node : ∀ memory ∈ s.memories, ∃ allocated value now,
    getValueCallback allocated value now = some (s.node memory.id)
  stored : ∀ tableName, ∀ record ∈ s.stored tableName,
    (record.value ≠ [] ∧ semicolon ∉ record.value) ∧
    (∀ memory ∈ s.memories, Fits (s.node memory.id).memory (convertToTkv record)) ∧
    record.timestamp.toInt ≤ s.clock.toInt
  memoriesAddedShc : s.memoriesAddedShc = []
  journalSemaphore : s.journalSemaphore = 1
  threads : s.threads = []
  requests : s.requests = []
  replies : s.replies = []
  acknowledged : s.acknowledged = []
  answered : s.answered = []

/-- The record of an answer is one that a SELECT has seen acknowledged, or newer. -/
def ShcSelect.AnsweredFresh (request : ShcSelect) (record : AnsweredRecord) : Prop :=
  ∀ other, (toUppercase request.input.tableName.bytes, other) ∈ request.seen →
    other.key = request.input.key →
    other.timestamp = record.timestamp ∧ other.value = record.value ∨
      time other < record.timestamp.toInt

/-- A SELECT sent after an INSERT of its key was acknowledged returns its value or a newer one. -/
def HashedMemories.AnswersFresh (s : HashedMemories) : Prop :=
  ∀ request record, (request, record) ∈ s.answered → request.AnsweredFresh record

end Lissandra
