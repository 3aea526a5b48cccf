import Lissandra.BusyNode

/-! # What holds while threads run

The memory of a busy node shows a view, and at most one thread has a page that is written
and not yet listed (`Holds`).  A journal that was not overtaken has every modified copy in
its batch, so that its success loses none (`Kept`).  Where INSERTs take effect in the order
of their timestamps and no answer is overtaken, memory and filesystem are moreover coherent,
and every answer in flight is as new as what its SELECT has seen (`Reads`).

The lemmas are about one change of the state each; the steps of the threads are put
together from them.
-/
namespace Lissandra

/-! ## Pages that are not listed -/

/-- The record of an answer to a SELECT. -/
def SelectRequest.record (request : SelectRequest) (result : RecordT) : Record :=
  ⟨result.timestamp, request.key, result.value.bytes⟩

/-- The page that a thread is to list, and what it holds. -/
def Tail.unlisted : Tail → Option (Listing × Copy Record)
  | .insert (some listing) _ record => some (listing, ⟨record, true⟩)
  | .fill listing request result => some (listing, ⟨request.record result, false⟩)
  | _ => none

def Task.unlisted : Task → Option (Listing × Copy Record)
  | .post tail => tail.unlisted
  | .raise tail => tail.unlisted
  | _ => none

/-- All pages that are to be listed. -/
def BusyNode.unlisted (s : BusyNode) : List (Listing × Copy Record) :=
  s.tasks.filterMap Task.unlisted

/-- The memory between sections: all pages are listed but perhaps one. -/
inductive Phase (node : MemoryNode) (view : View) : List (Listing × Copy Record) → Prop
  | listed (wellFormed : WellFormed node) : Phase node view []
  | unlisted {listing : Listing} {copy : Copy Record} (unlisted : Unlisted node listing)
      (holds : PageHolds node.memory listing.page copy)
      (miss : copy.modified = true → view.of listing.tableName copy.record.key = []) :
      Phase node view [(listing, copy)]

/-! ## Threads and requests -/

/-- A record that can be written to a page. -/
structure Writable (memory : MainMemory) (record : Record) : Prop where
  legible : Legible record.value
  fits : Fits memory (convertToTkv record)

/-- A register that can be written to a page, and is the answer to its SELECT. -/
structure Waiter.Ok (memory : MainMemory) (waiter : Waiter) : Prop where
  key : waiter.register.key = waiter.register.record.key.toNat
  upper : toUppercase waiter.register.tableName = waiter.register.tableName
  writable : Writable memory waiter.register.record
  modified : waiter.register.modified = waiter.request.isNone
  request : ∀ request ∈ waiter.request,
    request.tableName = waiter.register.tableName ∧ request.key = waiter.register.record.key ∧
      waiter.register.timestamp ≠ -1

/-- Pages are listed in the table of the request. -/
def Tail.Ok : Tail → Prop
  | .insert (some listing) tableName _ => listing.tableName = tableName
  | .fill listing request _ => listing.tableName = request.tableName
  | _ => True

def Task.Ok (memory : MainMemory) : Task → Prop
  | .post tail => tail.Ok
  | .raise tail => tail.Ok
  | .look waiter => ∀ w ∈ waiter, w.Ok memory
  | .wait waiter => ∀ w ∈ waiter, w.Ok memory

/-- The filesystem answers with 0 or -1, or not at all. -/
structure JournalRequest.Ok (memory : MainMemory) (journal : JournalRequest) : Prop where
  waiter : ∀ w ∈ journal.waiter, w.Ok memory
  answer : journal.answer = none ∨ journal.answer = some none ∨ journal.answer = some (some 0) ∨
    journal.answer = some (some (-1))

/-- An answer with a record has the table and the key that were asked for. -/
def ResultOk (request : SelectRequest) (result : RecordT) : Prop :=
  result.timestamp = -1 ∨
    toUppercase result.tableName.bytes = request.tableName ∧ result.key.toInt = request.key.toNat

/-- What the memory holds, with the sizes of `memory`. -/
structure BusyNode.Holds (memory : MainMemory) (s : BusyNode) (view : View) : Prop where
  size : s.node.memory.totalPageSize = memory.totalPageSize
  count : s.node.memory.totalPageCount = memory.totalPageCount
  shows : Shows s.node view
  phase : Phase s.node view s.unlisted

/-- What threads and requests carry. -/
structure BusyNode.Threads (memory : MainMemory) (s : BusyNode) : Prop where
  tasks : ∀ task ∈ s.tasks, task.Ok memory
  journals : ∀ journal ∈ s.journals, journal.Ok memory
  selects : ∀ request result, (request, some (some result)) ∈ s.selects → ResultOk request result

/-- No INSERT is lost. -/
structure BusyNode.Kept (s : BusyNode) (view : View) : Prop where
  batches : ∀ journal ∈ s.journals, journal.overtaken = false →
    ∀ tableName record, ⟨record, true⟩ ∈ view tableName → (tableName, record) ∈ journal.batch
  confirmed : ∀ journal ∈ s.journals, journal.answer = some (some 0) → journal.batch ⊆ s.confirmed
  written : ∀ {tableName key record}, s.written tableName key = some record → record.key = key ∧
    ((view.of tableName key).head? = some ⟨record, true⟩ ∨ (tableName, record) ∈ s.confirmed)

/-! ## Reads -/

/-- The record of each key of each table that was written last, before the start or since. -/
def BusyNode.last (s : BusyNode) : Last :=
  fun tableName key => (s.written tableName key).or (newest (ofKey key (s.first tableName)))

/-- The INSERTs that a SELECT has seen are behind a record. -/
def SelectRequest.Seen (request : SelectRequest) (record : Option Record) : Prop :=
  ∀ other, (request.tableName, other) ∈ request.seen → other.key = request.key →
    Behind time record other

/-- The filesystem will answer with what the SELECT has seen or something newer, and unless
it is overtaken with what was written last. -/
structure SelectRequest.Asked (stored : Stored) (last : Last) (request : SelectRequest) : Prop where
  seen : request.Seen (newest (ofKey request.key (stored request.tableName)))
  current : request.overtaken = false →
    newest (ofKey request.key (stored request.tableName)) = last request.tableName request.key

/-- The filesystem has answered with a record. -/
structure SelectRequest.Replied (last : Last) (request : SelectRequest)
    (record : Record) : Prop where
  seen : request.Seen (some record)
  current : request.overtaken = false → record.timestamp ≠ -1 →
    last request.tableName request.key = some record

def Waiter.Reads (last : Last) (waiter : Waiter) : Prop :=
  ∀ request ∈ waiter.request, request.Replied last waiter.register.record

def Tail.Reads (stored : Stored) (last : Last) : Tail → Prop
  | .insert none tableName record => Behind time (last tableName record.key) record
  | .insert (some _) tableName record =>
    ∀ other, last tableName record.key = some other → time other < time record
  | .miss request => request.Asked stored last
  | .fill _ request result => request.Replied last (request.record result) ∧
      last request.tableName request.key = some (request.record result)
  | .answer request result => request.Seen (some (request.record result))
  | .done => True

def Task.Reads (stored : Stored) (last : Last) : Task → Prop
  | .post tail => tail.Reads stored last
  | .raise tail => tail.Reads stored last
  | .look waiter => ∀ w ∈ waiter, w.Reads last
  | .wait waiter => ∀ w ∈ waiter, w.Reads last

/-- What was answered is not older than what the SELECT had seen. -/
def AnsweredFresh (request : SelectRequest) (record : AnsweredRecord) : Prop :=
  ∀ other, (request.tableName, other) ∈ request.seen → other.key = request.key →
    other.timestamp = record.timestamp ∧ other.value = record.value ∨
      time other < record.timestamp.toInt

/-- Reads are reads of the last record written. -/
structure BusyNode.Reads (s : BusyNode) (view : View) : Prop where
  coherent : CoherentView s.stored s.last view
  batches : ∀ journal ∈ s.journals, ∀ tableName record, (tableName, record) ∈ journal.batch →
    Behind time (s.last tableName record.key) record
  stored : ∀ journal ∈ s.journals, journal.answer = some (some 0) →
    ∀ tableName record, (tableName, record) ∈ journal.batch → record ∈ s.stored tableName
  waiters : ∀ journal ∈ s.journals, ∀ waiter ∈ journal.waiter, waiter.Reads s.last
  tasks : ∀ task ∈ s.tasks, task.Reads s.stored s.last
  asked : ∀ request, (request, none) ∈ s.selects → request.Asked s.stored s.last
  replied : ∀ request result, (request, some (some result)) ∈ s.selects →
    request.Replied s.last (request.record result)
  acknowledged : ∀ tableName record, (tableName, record) ∈ s.acknowledged →
    Behind time (s.last tableName record.key) record
  answered : ∀ request record, (request, record) ∈ s.answered → AnsweredFresh request record
  keyed : ∀ {tableName key record}, s.last tableName key = some record → record.key = key

/-! ## Overtaking -/

section Overtaking
variable {memory : MainMemory} {request : SelectRequest} {waiter : Waiter} {task : Task}
  {tail : Tail} {tableName : Bytes} {key : UInt16} {record : Record} {stored : Stored} {last : Last}

theorem overtake_fields (tableName : Bytes) (key : UInt16) (request : SelectRequest) :
    (request.overtake tableName key).tableName = request.tableName ∧
      (request.overtake tableName key).key = request.key ∧
      (request.overtake tableName key).seen = request.seen := by
  rw [SelectRequest.overtake]
  split
  · exact ⟨rfl, rfl, rfl⟩
  · exact ⟨rfl, rfl, rfl⟩

/-- What was not overtaken is of another key, and was not overtaken before. -/
theorem overtake_eq_false (h : (request.overtake tableName key).overtaken = false) :
    request.overtaken = false ∧ ¬(request.tableName = tableName ∧ request.key = key) := by
  rw [SelectRequest.overtake] at h
  split at h
  · exact absurd h (by simp)
  · exact ⟨h, ‹_›⟩

theorem seen_overtake {other : Option Record} :
    (request.overtake tableName key).Seen other ↔ request.Seen other := by
  obtain ⟨htable, hkey, hseen⟩ := overtake_fields tableName key request
  rw [SelectRequest.Seen, SelectRequest.Seen, htable, hkey, hseen]

theorem SelectRequest.Asked.overtake (h : request.Asked stored last) :
    (request.overtake tableName record.key).Asked stored (last.set tableName record) := by
  obtain ⟨htable, hkey, -⟩ := overtake_fields tableName record.key request
  refine ⟨seen_overtake.mpr (by rw [htable, hkey]; exact h.seen), fun hfalse => ?_⟩
  obtain ⟨hbefore, hne⟩ := overtake_eq_false hfalse
  rw [htable, hkey, h.current hbefore, Last.set_of_ne hne]

theorem SelectRequest.Replied.overtake {other : Record} (h : request.Replied last other) :
    (request.overtake tableName record.key).Replied (last.set tableName record) other := by
  obtain ⟨htable, hkey, -⟩ := overtake_fields tableName record.key request
  refine ⟨seen_overtake.mpr h.seen, fun hfalse hvalue => ?_⟩
  obtain ⟨hbefore, hne⟩ := overtake_eq_false hfalse
  rw [htable, hkey, Last.set_of_ne hne, h.current hbefore hvalue]

theorem Waiter.Reads.overtake (h : waiter.Reads last) :
    (waiter.overtake tableName record.key).Reads (last.set tableName record) := by
  intro request hrequest
  obtain ⟨old, hold, rfl⟩ := Option.map_eq_some_iff.mp hrequest
  exact (h old hold).overtake

theorem Waiter.Ok.overtake (h : waiter.Ok memory) : (waiter.overtake tableName key).Ok memory := by
  refine ⟨h.key, h.upper, h.writable, ?_, fun request hrequest => ?_⟩
  · rw [Waiter.overtake, h.modified]
    cases waiter.request <;> rfl
  · obtain ⟨old, hold, rfl⟩ := Option.map_eq_some_iff.mp hrequest
    obtain ⟨htable, hkey, -⟩ := overtake_fields tableName key old
    rw [htable, hkey]
    exact h.request old hold

theorem Tail.Reads.overtake (h : tail.Reads stored last) (hnone : tail.unlisted = none)
    (hlater : ∀ old, last tableName record.key = some old → time old < time record) :
    (tail.overtake tableName record.key).Reads stored (last.set tableName record) := by
  cases tail with
  | insert listing other found =>
    cases listing with
    | none => exact Behind.set h hlater
    | some listing => exact absurd hnone (by simp [Tail.unlisted])
  | miss request => exact SelectRequest.Asked.overtake h
  | fill listing request result => exact absurd hnone (by simp [Tail.unlisted])
  | answer request result =>
    have hseen : request.Seen (some (request.record result)) := h
    have hrecord : (request.overtake tableName record.key).record result =
      request.record result := by
      rw [SelectRequest.record, SelectRequest.record, (overtake_fields _ _ _).2.1]
    change (request.overtake tableName record.key).Seen _
    rw [hrecord]
    exact seen_overtake.mpr hseen
  | done => trivial

theorem Task.Reads.overtake (h : task.Reads stored last) (hnone : task.unlisted = none)
    (hlater : ∀ old, last tableName record.key = some old → time old < time record) :
    (task.overtake tableName record.key).Reads stored (last.set tableName record) := by
  have hwaiter : ∀ waiter : Option Waiter, (∀ w ∈ waiter, w.Reads last) →
      ∀ w ∈ waiter.map (Waiter.overtake tableName record.key),
      w.Reads (last.set tableName record) := by
    intro waiter hreads w hw
    obtain ⟨old, hold, rfl⟩ := Option.map_eq_some_iff.mp hw
    exact (hreads old hold).overtake
  cases task with
  | post tail => exact Tail.Reads.overtake h hnone hlater
  | raise tail => exact Tail.Reads.overtake h hnone hlater
  | look waiter => exact hwaiter waiter h
  | wait waiter => exact hwaiter waiter h

theorem Tail.Ok.overtake (h : tail.Ok) : (tail.overtake tableName key).Ok := by
  cases tail with
  | insert listing other found => exact h
  | fill listing request result => exact h.trans (overtake_fields tableName key request).1.symm
  | miss request => trivial
  | answer request result => trivial
  | done => trivial

theorem Task.Ok.overtake (h : task.Ok memory) : (task.overtake tableName key).Ok memory := by
  have hwaiter : ∀ waiter : Option Waiter, (∀ w ∈ waiter, w.Ok memory) →
      ∀ w ∈ waiter.map (Waiter.overtake tableName key), w.Ok memory := by
    intro waiter hok w hw
    obtain ⟨old, hold, rfl⟩ := Option.map_eq_some_iff.mp hw
    exact (hok old hold).overtake
  cases task with
  | post tail => exact Tail.Ok.overtake h
  | raise tail => exact Tail.Ok.overtake h
  | look waiter => exact hwaiter waiter h
  | wait waiter => exact hwaiter waiter h

theorem Task.unlisted_overtake (task : Task) :
    (task.overtake tableName key).unlisted = task.unlisted := by
  have htail : ∀ tail : Tail, (tail.overtake tableName key).unlisted = tail.unlisted := by
    intro tail
    cases tail with
    | fill listing request result =>
      have hrecord : (request.overtake tableName key).record result = request.record result := by
        rw [SelectRequest.record, SelectRequest.record, (overtake_fields _ _ _).2.1]
      change some (listing, (⟨(request.overtake tableName key).record result, false⟩ :
        Copy Record)) = _
      rw [hrecord]
      rfl
    | insert listing other found => rfl
    | miss request => rfl
    | answer request result => rfl
    | done => rfl
  cases task with
  | post tail => exact htail tail
  | raise tail => exact htail tail
  | look waiter => rfl
  | wait waiter => rfl

end Overtaking

end Lissandra
