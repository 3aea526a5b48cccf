import Lissandra.CacheMap

/-! # A memory node with its threads

INSERT, SELECT and JOURNAL requests, the auto-journal and the answers of the filesystem,
each run by a thread of its own over one semaphore.  A step is an operation on the
semaphore with the code up to the next one, or the body of `journal_callback`, which takes
no semaphore.  What threads have still to do are `tasks`; requests that the filesystem has
not answered, or whose answer was not yet processed, are `selects` and `journals`.

Some fields are only observed: what took effect, what was acknowledged, confirmed and
answered, and which requests in flight were `overtaken` by an INSERT.
-/
namespace Lissandra

/-! ## Requests and threads -/

/-- A SELECT that missed, with the INSERTs acknowledged before it.  It is overtaken when an
INSERT of its table and key takes effect. -/
structure SelectRequest where
  tableName : Bytes
  key : UInt16
  seen : List (Bytes × Record)
  overtaken : Bool
  deriving DecidableEq

/-- A record that waits for a journal, and the SELECT that it is the answer to, if it is one. -/
structure Waiter where
  register : JournalRegister
  request : Option SelectRequest
  deriving DecidableEq

/-- A MULTIINSERT in flight.  `answer` is what arrived, if anything did, and is `some none`
after a network failure.  It is overtaken when an INSERT takes effect. -/
structure JournalRequest where
  batch : List (Bytes × Record)
  waiter : Option Waiter
  answer : Option (Option Int32)
  overtaken : Bool
  deriving DecidableEq

/-- What a thread does after it posted the semaphore. -/
inductive Tail where
  /-- `process_insert` lists its page, if it has to, and answers 0. -/
  | insert (listing : Option Listing) (tableName : Bytes) (record : Record)
  /-- `process_select` asks the filesystem. -/
  | miss (request : SelectRequest)
  /-- `select_callback` lists its page and posts again. -/
  | fill (listing : Listing) (request : SelectRequest) (result : RecordT)
  /-- `select_callback` answers. -/
  | answer (request : SelectRequest) (result : RecordT)
  | done
  deriving DecidableEq

/-- Where a thread stands: at the `sem_getvalue` or at the `sem_post` of `sem_post_neg`, or
at the `sem_getvalue` or the `sem_wait` of `journaling`. -/
inductive Task where
  | post (tail : Tail)
  | raise (tail : Tail)
  | look (waiter : Option Waiter)
  | wait (waiter : Option Waiter)
  deriving DecidableEq

/-- A memory node, its semaphore, threads and requests, and the filesystem, which had the
records `first`. -/
structure BusyNode where
  node : MemoryNode
  semaphore : Nat
  tasks : List Task
  selects : List (SelectRequest × Option (Option RecordT))
  journals : List JournalRequest
  stored : Stored
  first : Stored
  /-- The INSERT of each key of each table that took effect last. -/
  written : Last
  /-- The INSERTs answered with 0. -/
  acknowledged : List (Bytes × Record)
  /-- The records of the batches that were answered with 0. -/
  confirmed : List (Bytes × Record)
  /-- The SELECTs answered with a record of the memory or of the filesystem. -/
  answered : List (SelectRequest × AnsweredRecord)

/-! ## Observations -/

def SelectRequest.overtake (tableName : Bytes) (key : UInt16)
    (request : SelectRequest) : SelectRequest :=
  if request.tableName = tableName ∧ request.key =
    key then { request with overtaken := true } else request

def Waiter.overtake (tableName : Bytes) (key : UInt16) (waiter : Waiter) : Waiter :=
  { waiter with request := waiter.request.map (SelectRequest.overtake tableName key) }

def JournalRequest.overtake (tableName : Bytes) (key : UInt16) (journal : JournalRequest) :
    JournalRequest :=
  { journal with waiter := journal.waiter.map (Waiter.overtake tableName key), overtaken := true }

def Tail.overtake (tableName : Bytes) (key : UInt16) : Tail → Tail
  | .miss request => .miss (request.overtake tableName key)
  | .fill listing request result => .fill listing (request.overtake tableName key) result
  | .answer request result => .answer (request.overtake tableName key) result
  | tail => tail

def Task.overtake (tableName : Bytes) (key : UInt16) : Task → Task
  | .post tail => .post (tail.overtake tableName key)
  | .raise tail => .raise (tail.overtake tableName key)
  | .look waiter => .look (waiter.map (Waiter.overtake tableName key))
  | .wait waiter => .wait (waiter.map (Waiter.overtake tableName key))

namespace BusyNode
variable (s : BusyNode)

/-- An INSERT takes effect: its record is in a page of a segment. -/
def takesEffect (tableName : Bytes) (record : Record) : BusyNode :=
  { s with
    tasks := s.tasks.map (Task.overtake tableName record.key)
    selects := s.selects.map fun (request, answer) =>
      (request.overtake tableName record.key, answer)
    journals := s.journals.map (JournalRequest.overtake tableName record.key)
    written := s.written.set tableName record }

/-- An INSERT is answered with 0. -/
def acknowledge (tableName : Bytes) (record : Record) : BusyNode :=
  { s with acknowledged := (tableName, record) :: s.acknowledged }

/-- A SELECT is answered with a record. -/
def answer (request : SelectRequest) (record : AnsweredRecord) : BusyNode :=
  { s with answered := (request, record) :: s.answered }

/-- A thread goes on later. -/
def spawn (task : Task) : BusyNode := { s with tasks := task :: s.tasks }

/-! ## Sections -/

/-- `process_insert` once its section is over. -/
def insertEnding (now later : Int64) (input : InsertInput) : Option SectionEnd → BusyNode
  | none => s.spawn (.post .done)
  | some (.finished node) =>
    let record := writtenRecord s.node now later input
    ({ s with node }.takesEffect (toUppercase input.tableName.bytes) record).spawn
      (.post (.insert none (toUppercase input.tableName.bytes) record))
  | some (.listing node listing) =>
    { s with node }.spawn
      (.post (.insert (some listing) (toUppercase input.tableName.bytes)
        (writtenRecord s.node now later input)))
  | some (.journaling register) => s.spawn (.look (some ⟨register, none⟩))

/-- `select_callback` once its section is over.  An answer without a record may be answered
as it is. -/
def callbackEnding (request : SelectRequest) (result : Option RecordT) :
    Option SectionEnd → BusyNode
  | none => s.spawn (.post ((result.map (Tail.answer request ·)).getD .done))
  | some (.finished node) =>
    { s with node }.spawn (.post ((result.map (Tail.answer request ·)).getD .done))
  | some (.listing node listing) =>
    { s with node }.spawn (.post ((result.map (Tail.fill listing request ·)).getD .done))
  | some (.journaling register) => s.spawn (.look (some ⟨register, some request⟩))

/-- `journaling` sends the batch.  Within `select_callback` the semaphore is posted next. -/
def send (waiter : Option Waiter) : Option BusyNode := do
  let batch ← journalBatch s.node
  let s := { s with journals := ⟨batch, waiter, none, false⟩ :: s.journals }
  some (if waiter.any fun waiter => waiter.request.isSome then s.spawn (.post .done) else s)

/-- What follows a post. -/
def runTail : Tail → Option BusyNode
  | .insert none tableName record => some (s.acknowledge tableName record)
  | .insert (some listing) tableName record =>
    (listAdd s.node listing).map fun node =>
      ({ s with node }.takesEffect tableName record).acknowledge tableName record
  | .miss request => some { s with selects := (request, none) :: s.selects }
  | .fill listing request result =>
    (listAdd s.node listing).map fun node => { s with node }.spawn (.post (.answer request result))
  | .answer request result => some (s.answer request (resultRecord result))
  | .done => some s

/-- A thread goes on to the next operation on the semaphore. -/
def runTask : Task → Option BusyNode
  | .post tail => if s.semaphore = 0 then some (s.spawn (.raise tail)) else s.runTail tail
  | .raise tail => { s with semaphore := s.semaphore + 1 }.runTail tail
  | .look waiter => if s.semaphore = 0 then s.send waiter else some (s.spawn (.wait waiter))
  | .wait waiter =>
    if s.semaphore = 0 then none else { s with semaphore := s.semaphore - 1 }.send waiter

end BusyNode

/-- The record of an `int` key. -/
def JournalRegister.record (reg : JournalRegister) : Record :=
  ⟨reg.timestamp, UInt16.ofNat reg.key.toNat, reg.value.bytes⟩

/-- `journal_callback` answers the request that waited for a journal that succeeded. -/
def BusyNode.settle (s : BusyNode) : Option Waiter → BusyNode
  | none => s
  | some ⟨reg, none⟩ =>
    (s.takesEffect reg.tableName reg.record).acknowledge reg.tableName reg.record
  | some ⟨reg, some request⟩ => s.answer request (registerRecord reg)

/-! ## Steps -/

/-- What happens next: a request or the auto-journal arrives, a thread goes on, the
filesystem does its part for a request, or an answer of the filesystem arrives. -/
inductive BusyNode.Action where
  | insert (now later : Int64) (input : InsertInput)
  | select (input : SelectInput)
  | journal
  | run (task : Task)
  | fsSelect (request : SelectRequest) (result : Option RecordT)
  | selectCallback (request : SelectRequest) (result : Option RecordT)
  | fsJournal (journal : JournalRequest) (outcome : JournalOutcome)
  | journalCallback (journal : JournalRequest)
  deriving DecidableEq

/-- One step; `none` is one that cannot be taken, or a `NULL` that is dereferenced. -/
def BusyNode.step (s : BusyNode) : BusyNode.Action → Option BusyNode
  | .insert now later input =>
    if s.semaphore = 0 then none
    else (insertSection s.node now later input).map
      ({ s with semaphore := s.semaphore - 1 }.insertEnding now later input)
  | .select input =>
    if s.semaphore = 0 then none
    else
      let s := { s with semaphore := s.semaphore - 1 }
      let request : SelectRequest :=
        ⟨toUppercase input.tableName.bytes, input.key, s.acknowledged, false⟩
      (processSelect s.node input).map fun
        | .hit tableName found =>
          (s.answer request (foundRecord tableName found)).spawn (.post .done)
        | .miss => s.spawn (.post (.miss request))
  | .journal => some (s.spawn (.look none))
  | .run task =>
    if task ∈ s.tasks then { s with tasks := s.tasks.erase task }.runTask task else none
  | .fsSelect request result =>
    if (request, none) ∈ s.selects ∧
        ∀ record ∈ result, s.stored.Answers request.tableName request.key record then
      some { s with selects := (request, some result) :: s.selects.erase (request, none) }
    else none
  | .selectCallback request result =>
    if (request, some result) ∈ s.selects ∧ s.semaphore ≠ 0 then
      (selectCallback s.node result).map
        ({ s with
          semaphore := s.semaphore - 1
          selects := s.selects.erase (request, some result) }.callbackEnding request result)
    else none
  | .fsJournal journal outcome =>
    if journal ∈ s.journals ∧ journal.answer = none ∧ outcome.Of journal.batch then
      some { s with
        journals := { journal with answer := some outcome.answer } :: s.journals.erase journal
        stored := s.stored.store outcome.kept
        confirmed := if outcome.answer = some 0 then journal.batch ++ s.confirmed else s.confirmed }
    else none
  | .journalCallback journal =>
    if journal ∈ s.journals then do
      let result ← journal.answer
      let node ← journalCallback s.node result (journal.waiter.map Waiter.register)
      let s := { s with node, journals := s.journals.erase journal }
      some ((if result = some 0 then s.settle journal.waiter else s).spawn (.post .done))
    else none

/-- No thread has a page to list. -/
def Tail.listing : Tail → Option Listing
  | .insert listing _ _ => listing
  | .fill listing _ _ => some listing
  | _ => none

def Task.listing : Task → Option Listing
  | .post tail => tail.listing
  | .raise tail => tail.listing
  | _ => none

/-- A memory that was set up, without threads or requests. -/
structure BusyNode.Start (s : BusyNode) : Prop where
  node : ∃ allocated value now, getValueCallback allocated value now = some s.node
  semaphore : s.semaphore = 1
  tasks : s.tasks = []
  selects : s.selects = []
  journals : s.journals = []
  first : s.first = s.stored
  written : ∀ tableName key, s.written tableName key = none
  acknowledged : s.acknowledged = []
  confirmed : s.confirmed = []
  answered : s.answered = []

end Lissandra
