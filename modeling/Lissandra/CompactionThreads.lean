import Lissandra.CreatedFiles
import Lissandra.Runs
import Lissandra.Semaphore
import Mathlib.Data.List.Nodup

/-! # The compaction thread of every table

`iniitalize_compaction_in_all_tables` and `add_table_to_table_state_list` create a thread for a
table, store its id in the state of the table and post `thread_semaphore`; the thread waits for the
semaphore and looks for the state with its own id.  The loop over all tables is done before the
server starts, and a CREATE holds `bitmap_semaphore`, so there is one creator at a time.  The
threads all wait for the same semaphore, and a post for one of them may let another one pass.

`pthread_create` succeeds, with an id that no running thread has.  Tables are not dropped here.
-/
namespace Lissandra

/-- `pthread_t`. -/
abbrev ThreadId := Nat

/-- Where `compact_this_table` is: before its wait, before an iteration of
`find_in_table_state_list_with_thread`, in its loop for a state of the list, or at its end because
it has found none. -/
inductive ThreadPoint where
  | waiting
  | looking (i : Nat)
  | found (i : Nat)
  | returned
  deriving DecidableEq

/-- A thread, with the index of the state it was created for. -/
structure NewThread where
  id : ThreadId
  table : Nat
  point : ThreadPoint
  deriving DecidableEq

/-- Where the creator is: before the state at an index, after `initialize_compaction`, or after its
id is stored. -/
inductive CreatorPoint where
  | next (i : Nat)
  | created (i : Nat) (thread : ThreadId)
  | stored (i : Nat)
  deriving DecidableEq

structure CompactionThreads where
  tableStateList : List TableState
  threads : List NewThread
  threadSemaphore : Nat
  creator : CreatorPoint
  deriving DecidableEq

/-- What can happen. -/
inductive ThreadAction where
  /-- `pthread_create`, with the id of the new thread. -/
  | create (thread : ThreadId)
  /-- The id is stored in the state. -/
  | store
  /-- `sem_post(&thread_semaphore)`. -/
  | post
  /-- A CREATE adds the state of its table.  Its thread is not set yet, and is what the memory
  had. -/
  | addTable (tableName : Bytes) (unset : ThreadId)
  /-- A thread gets past its `sem_wait(&thread_semaphore)`. -/
  | wait (k : Nat)
  /-- An iteration of the loop in which a thread looks for its state. -/
  | look (k : Nat)
  deriving DecidableEq

namespace CompactionThreads
variable (s : CompactionThreads)

/-- After `create_table_state_list`. -/
def startUp (tableStateList : List TableState) : CompactionThreads :=
  ⟨tableStateList, [], 0, .next 0⟩

/-- A thread gets on. -/
def moveThread (k : Nat) (thread : NewThread) (point : ThreadPoint) : CompactionThreads :=
  { s with threads := s.threads.set k { thread with point } }

/-- `pthread_create`. -/
def createThread (thread : ThreadId) : Option CompactionThreads :=
  match s.creator with
  | .next i =>
    if i < s.tableStateList.length ∧
        ∀ other ∈ s.threads, other.point ≠ .returned → other.id ≠ thread then
      some { s with
        threads := s.threads ++ [⟨thread, i, .waiting⟩]
        creator := .created i thread }
    else none
  | _ => none

/-- The result of `initialize_compaction` is stored. -/
def storeThread : Option CompactionThreads :=
  match s.creator with
  | .created i thread =>
    some { s with
      tableStateList := s.tableStateList.modify i fun state =>
        { state with compactionThread := thread }
      creator := .stored i }
  | _ => none

/-- `sem_post`. -/
def postThread : Option CompactionThreads :=
  match s.creator with
  | .stored i =>
    some { s with threadSemaphore := s.threadSemaphore + 1, creator := .next (i + 1) }
  | _ => none

/-- The `list_add` of `add_table_to_table_state_list`. -/
def addTableState (tableName : Bytes) (unset : ThreadId) : Option CompactionThreads :=
  if s.creator = .next s.tableStateList.length then
    some { s with tableStateList := s.tableStateList ++ [⟨toUppercase tableName, 1, 1, 1, unset⟩] }
  else none

/-- `sem_wait`. -/
def waitThread (k : Nat) : Option CompactionThreads := do
  let thread ← s.threads[k]?
  if thread.point = .waiting ∧ s.threadSemaphore ≠ 0 then
    some ({ s with threadSemaphore := s.threadSemaphore - 1 }.moveThread k thread (.looking 0))
  else none

/-- The body of the loop of `find_in_table_state_list_with_thread`, and its end. -/
def findWithThread (thread : NewThread) (i : Nat) : ThreadPoint :=
  match s.tableStateList[i]? with
  | some state => if state.compactionThread = thread.id then .found i else .looking (i + 1)
  | none => .returned

def lookThread (k : Nat) : Option CompactionThreads := do
  let thread ← s.threads[k]?
  match thread.point with
  | .looking i => some (s.moveThread k thread (s.findWithThread thread i))
  | _ => none

def step : ThreadAction → Option CompactionThreads
  | .create thread => s.createThread thread
  | .store => s.storeThread
  | .post => s.postThread
  | .addTable tableName unset => s.addTableState tableName unset
  | .wait k => s.waitThread k
  | .look k => s.lookThread k

/-! ## What is promised -/

/-- The id of a thread is in the state that it was created for. -/
def IdStored (thread : NewThread) : Prop :=
  ∃ state ∈ s.tableStateList[thread.table]?, state.compactionThread = thread.id

/-- A thread that comes to the state of its table finds its id there. -/
def StoredInTime : ThreadAction → Prop
  | .look k =>
    ∀ thread ∈ s.threads[k]?, thread.point = .looking thread.table → s.IdStored thread
  | _ => True

instance (thread : NewThread) : Decidable (s.IdStored thread) :=
  inferInstanceAs (Decidable (∃ state ∈ _, _))

instance : DecidablePred s.StoredInTime
  | .look _ => inferInstanceAs (Decidable (∀ thread ∈ _, _))
  | .create _ | .store | .post | .addTable _ _ | .wait _ => inferInstanceAs (Decidable True)

/-- No thread is at its end, and what a thread has found is the state that it was created for. -/
def FindOwnTables : Prop :=
  ∀ thread ∈ s.threads, thread.point ≠ .returned ∧ ∀ i, thread.point = .found i → i = thread.table

/-- When the creator is done, every table has its thread, with its id where it looks for it, and
there is a post for every thread that still waits. -/
def EveryTableCompacted : Prop :=
  s.creator = .next s.tableStateList.length →
    (∀ i < s.tableStateList.length, ∃ thread ∈ s.threads, thread.table = i ∧ s.IdStored thread) ∧
      s.threadSemaphore = s.threads.countP fun thread => thread.point = .waiting

/-! ## Threads and their states -/

/-- How many threads were created, how many ids are stored, and how many posts were made. -/
def created : Nat :=
  match s.creator with
  | .next i => i
  | .created i _ | .stored i => i + 1

def storedIds : Nat :=
  match s.creator with
  | .next i | .created i _ => i
  | .stored i => i + 1

def posted : Nat :=
  match s.creator with
  | .next i | .created i _ | .stored i => i

/-- A thread is past its wait. -/
def Passed (thread : NewThread) : Bool := thread.point ≠ .waiting

/-- Where a thread may be: it has not gone past the state of its table. -/
def InTime (thread : NewThread) : Prop :=
  thread.point = .waiting ∨ (∃ i ≤ thread.table, thread.point = .looking i) ∨
    thread.point = .found thread.table

/-- What holds while all ids are stored in time. -/
structure Matched : Prop where
  count : s.threads.length = s.created
  tables : s.created ≤ s.tableStateList.length
  inOrder : ∀ (k : Nat) thread, s.threads[k]? = some thread → thread.table = k
  different : (s.threads.map NewThread.id).Nodup
  newest : ∀ i id, s.creator = .created i id → ∃ point, s.threads[i]? = some ⟨id, i, point⟩
  ids : ∀ k < s.storedIds, ∀ thread, s.threads[k]? = some thread → s.IdStored thread
  inTime : ∀ thread ∈ s.threads, InTime thread
  semaphore : s.threadSemaphore + s.threads.countP Passed = s.posted

variable {s} {s' : CompactionThreads} {k : Nat} {thread : NewThread} {point : ThreadPoint}

theorem progress_next {i : Nat} (h : s.creator = .next i) :
    s.created = i ∧ s.storedIds = i ∧ s.posted = i := by
  unfold created storedIds posted
  rw [h]
  exact ⟨rfl, rfl, rfl⟩

theorem progress_created {i : Nat} {id : ThreadId} (h : s.creator = .created i id) :
    s.created = i + 1 ∧ s.storedIds = i ∧ s.posted = i := by
  unfold created storedIds posted
  rw [h]
  exact ⟨rfl, rfl, rfl⟩

theorem progress_stored {i : Nat} (h : s.creator = .stored i) :
    s.created = i + 1 ∧ s.storedIds = i + 1 ∧ s.posted = i := by
  unfold created storedIds posted
  rw [h]
  exact ⟨rfl, rfl, rfl⟩

theorem created_le (s : CompactionThreads) : s.created ≤ s.storedIds + 1 := by
  unfold created storedIds
  cases s.creator <;> simp

theorem matched_startUp (tableStateList : List TableState) : (startUp tableStateList).Matched where
  count := rfl
  tables := Nat.zero_le _
  inOrder _ _ h := by cases h
  different := .nil
  newest _ _ h := by cases h
  ids _ hk := absurd hk (Nat.not_lt_zero _)
  inTime _ h := by cases h
  semaphore := rfl

/-! ## Threads get on -/

/-- Another point of a thread changes nothing else of the threads. -/
theorem threads_set (hk : s.threads[k]? = some thread) {j : Nat} {other : NewThread}
    (hj : (s.threads.set k { thread with point })[j]? = some other) :
    ∃ old, s.threads[j]? = some old ∧ other.id = old.id ∧ other.table = old.table := by
  by_cases heq : k = j
  · subst heq
    obtain ⟨hlt, -⟩ := List.getElem?_eq_some_iff.mp hk
    rw [List.getElem?_set_self hlt] at hj
    obtain rfl := Option.some.inj hj
    exact ⟨thread, hk, rfl, rfl⟩
  · rw [List.getElem?_set_ne heq] at hj
    exact ⟨other, hj, rfl, rfl⟩

theorem map_id_set (hk : s.threads[k]? = some thread) :
    (s.threads.set k { thread with point }).map NewThread.id = s.threads.map NewThread.id := by
  have hid : (s.threads.map NewThread.id)[k]? = some thread.id := by
    rw [List.getElem?_map, hk, Option.map_some]
  rw [List.map_set]
  exact set_self_of_getElem? hid

theorem Matched.ids_ne (h : s.Matched) {j : Nat} {other : NewThread}
    (hj : s.threads[j]? = some other) (hk : s.threads[k]? = some thread) (hne : j ≠ k) :
    other.id ≠ thread.id := by
  intro hid
  obtain ⟨hlt, -⟩ := List.getElem?_eq_some_iff.mp hj
  have hlength : j < (s.threads.map NewThread.id).length := by rwa [List.length_map]
  refine hne ((List.getElem?_inj hlength h.different).mp ?_)
  rw [List.getElem?_map, List.getElem?_map, hj, hk, Option.map_some, Option.map_some, hid]

theorem Matched.move (h : s.Matched) (hk : s.threads[k]? = some thread)
    (hpoint : InTime { thread with point }) {value : Nat}
    (hvalue : value + (s.threads.set k { thread with point }).countP Passed = s.posted) :
    ({ s with threadSemaphore := value }.moveThread k thread point).Matched where
  count := List.length_set.trans h.count
  tables := h.tables
  inOrder j other hj := by
    obtain ⟨old, hold, -, htable⟩ := threads_set hk hj
    rw [htable]
    exact h.inOrder j old hold
  different := by
    show ((s.threads.set k { thread with point }).map NewThread.id).Nodup
    rw [map_id_set hk]
    exact h.different
  newest i id hcreator := by
    obtain ⟨old, hold⟩ := h.newest i id hcreator
    by_cases heq : k = i
    · subst heq
      obtain ⟨hlt, -⟩ := List.getElem?_eq_some_iff.mp hk
      obtain rfl := Option.some.inj (hk.symm.trans hold)
      exact ⟨point, List.getElem?_set_self hlt⟩
    · exact ⟨old, (List.getElem?_set_ne heq).trans hold⟩
  ids j hj other hother := by
    obtain ⟨old, hold, hid, htable⟩ := threads_set hk hother
    obtain ⟨state, hstate, hthread⟩ := h.ids j hj old hold
    exact ⟨state, htable ▸ hstate, hthread.trans hid.symm⟩
  inTime other hother := by
    rcases List.mem_or_eq_of_mem_set hother with hold | rfl
    · exact h.inTime other hold
    · exact hpoint
  semaphore := hvalue

theorem Matched.waitThread (h : s.Matched) (hstep : s.waitThread k = some s') : s'.Matched := by
  obtain ⟨thread, hk, hstep⟩ := Option.bind_eq_some_iff.mp hstep
  split_ifs at hstep with hwait
  obtain ⟨hwaiting, hvalue⟩ := hwait
  obtain rfl := Option.some.inj hstep
  refine h.move hk (.inr (.inl ⟨0, Nat.zero_le _, rfl⟩)) ?_
  have hcount := @countP_set_add _ Passed k _ _ { thread with point := .looking 0 } hk
  have hpassed : Passed { thread with point := .looking 0 } = true := rfl
  have hnot : Passed thread = false := by simp [Passed, hwaiting]
  rw [hpassed, hnot, if_pos rfl, if_neg Bool.false_ne_true] at hcount
  have hsum := h.semaphore
  omega

/-- The entries before the one of a thread have other ids. -/
theorem Matched.findWithThread (h : s.Matched) (hk : s.threads[k]? = some thread) {i : Nat}
    (hi : i ≤ thread.table) (hpoint : thread.point = .looking i)
    (hstored : s.StoredInTime (.look k)) :
    InTime { thread with point := s.findWithThread thread i } ∧
      s.findWithThread thread i ≠ .waiting := by
  obtain ⟨hlt, -⟩ := List.getElem?_eq_some_iff.mp hk
  have htable := h.inOrder k thread hk
  rw [CompactionThreads.findWithThread]
  rcases Nat.lt_or_eq_of_le hi with hbefore | rfl
  · -- the id of an earlier entry is that of its own thread
    have hcreated := s.created_le
    have hcount := h.count
    obtain ⟨other, hother⟩ : ∃ other, s.threads[i]? = some other :=
      ⟨_, List.getElem?_eq_getElem (by omega)⟩
    obtain ⟨state, hstate, hid⟩ := h.ids i (by omega) other hother
    rw [h.inOrder i other hother, Option.mem_def] at hstate
    have hne : state.compactionThread ≠ thread.id := by
      rw [hid]
      exact h.ids_ne hother hk (by omega)
    rw [hstate]
    dsimp only
    rw [if_neg hne]
    exact ⟨.inr (.inl ⟨i + 1, hbefore, rfl⟩), nofun⟩
  · obtain ⟨state, hstate, hid⟩ := hstored thread hk hpoint
    rw [Option.mem_def.mp hstate]
    dsimp only
    rw [if_pos hid]
    exact ⟨.inr (.inr rfl), nofun⟩

theorem Matched.lookThread (h : s.Matched) (hstored : s.StoredInTime (.look k))
    (hstep : s.lookThread k = some s') : s'.Matched := by
  obtain ⟨thread, hk, hstep⟩ := Option.bind_eq_some_iff.mp hstep
  split at hstep
  · rename_i i hpoint
    obtain rfl := Option.some.inj hstep
    have hi : i ≤ thread.table := by
      have hmem := List.mem_of_getElem? hk
      rcases h.inTime thread hmem with hwaiting | ⟨j, hj, hlooking⟩ | hfound
      · cases hwaiting.symm.trans hpoint
      · obtain rfl := ThreadPoint.looking.inj (hlooking.symm.trans hpoint)
        exact hj
      · cases hfound.symm.trans hpoint
    obtain ⟨hinTime, hpassed⟩ := h.findWithThread hk hi hpoint hstored
    refine h.move hk hinTime ?_
    have hcount := @countP_set_add _ Passed k _ _
      { thread with point := s.findWithThread thread i } hk
    have hafter : Passed { thread with point := s.findWithThread thread i } = true := by
      simpa [Passed] using hpassed
    have hbefore : Passed thread = true := by simp [Passed, hpoint]
    rw [hafter, hbefore, if_pos rfl] at hcount
    have hsum := h.semaphore
    omega
  · cases hstep

/-! ## The creator -/

theorem Matched.createThread (h : s.Matched) {id : ThreadId} (hstep : s.createThread id = some s') :
    s'.Matched := by
  unfold CompactionThreads.createThread at hstep
  split at hstep
  · rename_i i hcreator
    split_ifs at hstep with hcreate
    obtain ⟨hi, hfresh⟩ := hcreate
    obtain rfl := Option.some.inj hstep
    obtain ⟨hcreated, hids, hposted⟩ := progress_next hcreator
    have hcount : s.threads.length = i := h.count.trans hcreated
    -- no thread is at its end, so the id of the new one is different from all of them
    have hnew : id ∉ s.threads.map NewThread.id := by
      intro hmem
      obtain ⟨other, hother, hid⟩ := List.mem_map.mp hmem
      refine hfresh other hother ?_ hid
      rcases h.inTime other hother with hpoint | ⟨j, -, hpoint⟩ | hpoint
      · simp [hpoint]
      · simp [hpoint]
      · simp [hpoint]
    have hget : ∀ (j : Nat) other, (s.threads ++ [⟨id, i, .waiting⟩])[j]? = some other →
        s.threads[j]? = some other ∨ j = i ∧ other = ⟨id, i, .waiting⟩ := by
      intro j other hj
      rcases Nat.lt_or_ge j s.threads.length with hlt | hge
      · rw [List.getElem?_append_left hlt] at hj
        exact .inl hj
      · rw [List.getElem?_append_right hge, List.getElem?_singleton] at hj
        split_ifs at hj with hzero
        exact .inr ⟨by omega, (Option.some.inj hj).symm⟩
    refine ⟨?_, ?_, ?_, ?_, ?_, ?_, ?_, ?_⟩
    · show (s.threads ++ [_]).length = i + 1
      rw [List.length_append, hcount, List.length_singleton]
    · exact hi
    · intro j other hj
      rcases hget j other hj with hold | ⟨rfl, rfl⟩
      · exact h.inOrder j other hold
      · rfl
    · show ((s.threads ++ [_]).map NewThread.id).Nodup
      rw [List.map_append, List.map_singleton, List.nodup_append]
      refine ⟨h.different, List.nodup_singleton _, ?_⟩
      rintro other hother last hlast rfl
      rw [List.mem_singleton.mp hlast] at hother
      exact hnew hother
    · rintro j other ⟨⟩
      exact ⟨.waiting, by rw [← hcount]; exact List.getElem?_concat_length⟩
    · intro j hj other hother
      rcases hget j other hother with hold | ⟨rfl, rfl⟩
      · exact h.ids j (hids.symm ▸ hj) other hold
      · exact absurd hj (lt_irrefl _)
    · intro other hother
      rcases List.mem_append.mp hother with hold | hnew
      · exact h.inTime other hold
      · rw [List.mem_singleton.mp hnew]
        exact .inl rfl
    · show s.threadSemaphore + (s.threads ++ [_]).countP Passed = i
      rw [List.countP_append, ← hposted]
      exact h.semaphore
  · cases hstep

theorem Matched.storeThread (h : s.Matched) (hstep : s.storeThread = some s') : s'.Matched := by
  unfold CompactionThreads.storeThread at hstep
  split at hstep
  · rename_i i id hcreator
    obtain rfl := Option.some.inj hstep
    obtain ⟨hcreated, hids, hposted⟩ := progress_created hcreator
    have htables := h.tables
    refine ⟨h.count.trans hcreated, ?_, h.inOrder, h.different, ?_, ?_, h.inTime,
      h.semaphore.trans hposted⟩
    · show i + 1 ≤ (s.tableStateList.modify i _).length
      rw [List.length_modify, ← hcreated]
      exact htables
    · rintro j other ⟨⟩
    · intro j hj other hother
      unfold IdStored
      dsimp only
      rw [h.inOrder j other hother, List.getElem?_modify]
      by_cases heq : i = j
      · subst heq
        obtain ⟨point, hnewest⟩ := h.newest i id hcreator
        obtain rfl := Option.some.inj (hnewest.symm.trans hother)
        have hlt : i < s.tableStateList.length := by omega
        exact ⟨{ s.tableStateList[i] with compactionThread := id }, by simp [hlt], rfl⟩
      · have hbefore : j < s.storedIds := by
          have hlt : j < i + 1 := hj
          omega
        obtain ⟨state, hstate, hid⟩ := h.ids j hbefore other hother
        rw [h.inOrder j other hother, Option.mem_def] at hstate
        exact ⟨state, by simp [heq, hstate], hid⟩
  · cases hstep

theorem Matched.postThread (h : s.Matched) (hstep : s.postThread = some s') : s'.Matched := by
  unfold CompactionThreads.postThread at hstep
  split at hstep
  · rename_i i hcreator
    obtain rfl := Option.some.inj hstep
    obtain ⟨hcreated, hids, hposted⟩ := progress_stored hcreator
    have hsum := h.semaphore
    refine ⟨h.count.trans hcreated, hcreated.symm.trans_le h.tables, h.inOrder, h.different, ?_,
      fun j hj => h.ids j (hids.symm ▸ hj), h.inTime, ?_⟩
    · rintro j other ⟨⟩
    · show s.threadSemaphore + 1 + s.threads.countP Passed = i + 1
      omega
  · cases hstep

theorem Matched.addTableState (h : s.Matched) {tableName : Bytes} {unset : ThreadId}
    (hstep : s.addTableState tableName unset = some s') : s'.Matched := by
  unfold CompactionThreads.addTableState at hstep
  split_ifs at hstep with hcreator
  obtain rfl := Option.some.inj hstep
  refine ⟨h.count, ?_, h.inOrder, h.different, h.newest, ?_, h.inTime, h.semaphore⟩
  · show s.created ≤ (s.tableStateList ++ [_]).length
    have htables := h.tables
    rw [List.length_append]
    omega
  · intro j hj other hother
    obtain ⟨state, hstate, hid⟩ := h.ids j hj other hother
    refine ⟨state, ?_, hid⟩
    show (s.tableStateList ++ [_])[other.table]? = some state
    obtain ⟨hlt, -⟩ := List.getElem?_eq_some_iff.mp hstate
    rw [List.getElem?_append_left hlt]
    exact hstate

theorem Matched.step (h : s.Matched) {action : ThreadAction} (hstep : s.step action = some s')
    (hstored : StoredInTime s action) : s'.Matched := by
  cases action with
  | create thread => exact h.createThread hstep
  | store => exact h.storeThread hstep
  | post => exact h.postThread hstep
  | addTable tableName unset => exact h.addTableState hstep
  | wait k => exact h.waitThread hstep
  | look k => exact h.lookThread hstored hstep

theorem matched_run {tableStateList : List TableState}
    (h : Run CompactionThreads.step (fun s action _ => s.StoredInTime action)
      (startUp tableStateList) s) : s.Matched :=
  h.invariant (matched_startUp tableStateList) fun _ _ _ hs hstep hstored => hs.step hstep hstored

theorem Matched.findOwnTables (h : s.Matched) : s.FindOwnTables := by
  intro thread hthread
  rcases h.inTime thread hthread with hpoint | ⟨i, -, hpoint⟩ | hpoint
  · exact ⟨by simp [hpoint], fun i hi => by cases hpoint.symm.trans hi⟩
  · exact ⟨by simp [hpoint], fun i hi => by cases hpoint.symm.trans hi⟩
  · exact ⟨by simp [hpoint], fun i hi => (ThreadPoint.found.inj (hpoint.symm.trans hi)).symm⟩

theorem Matched.everyTableCompacted (h : s.Matched) : s.EveryTableCompacted := by
  intro hdone
  obtain ⟨hcreated, hids, hposted⟩ := progress_next hdone
  have hcount := h.count.trans hcreated
  refine ⟨fun i hi => ?_, ?_⟩
  · have hlt : i < s.threads.length := hcount.symm ▸ hi
    have hget : s.threads[i]? = some s.threads[i] := List.getElem?_eq_getElem hlt
    exact ⟨s.threads[i], List.getElem_mem hlt, h.inOrder i _ hget,
      h.ids i (hids.symm ▸ hi) _ hget⟩
  · -- as many posts as threads, each of which waits or has passed
    have hsum := h.semaphore
    have hsplit := s.threads.length_eq_countP_add_countP Passed
    have hwaiting : s.threads.countP (fun thread => ¬ Passed thread = true)
        = s.threads.countP fun thread => thread.point = .waiting := by
      refine List.countP_congr fun thread _ => ?_
      simp [Passed]
    omega

/-- A thread that comes too early goes on to the next state. -/
theorem lookThread_early (hstep : s.step (.look k) = some s')
    (hearly : ¬ s.StoredInTime (.look k)) :
    ∃ thread, s'.threads[k]? = some thread ∧
      (thread.point = .looking (thread.table + 1) ∨ thread.point = .returned) := by
  unfold StoredInTime at hearly
  push Not at hearly
  obtain ⟨thread, hk, hpoint, hstored⟩ := hearly
  obtain ⟨other, hother, hstep⟩ := Option.bind_eq_some_iff.mp hstep
  obtain rfl := Option.some.inj (hk.symm.trans hother)
  rw [hpoint] at hstep
  obtain rfl := Option.some.inj hstep
  obtain ⟨hlt, -⟩ := List.getElem?_eq_some_iff.mp hk
  refine ⟨_, List.getElem?_set_self hlt, ?_⟩
  show s.findWithThread thread thread.table = _ ∨ s.findWithThread thread thread.table = _
  rw [CompactionThreads.findWithThread]
  cases hstate : s.tableStateList[thread.table]? with
  | none => exact .inr rfl
  | some state =>
    dsimp only
    rw [if_neg fun hid => hstored ⟨state, hstate, hid⟩]
    exact .inl rfl

/-- With nothing in between, the four steps of a CREATE are `add_table_to_table_state_list`. -/
theorem steps_addTableToTableStateList (setting : CreateSetting) (files : MountedFiles)
    (tableName : Bytes) (unset : ThreadId) (hlist : s.tableStateList = files.tableStateList)
    (hvalue : s.threadSemaphore = files.threadSemaphore)
    (hdone : s.creator = .next s.tableStateList.length)
    (hfresh : ∀ other ∈ s.threads, other.point ≠ .returned → other.id ≠ setting.thread) :
    ∃ s', Run step (fun _ _ _ => True) s s' ∧
      s'.tableStateList = (setting.addTableToTableStateList files tableName).tableStateList ∧
      s'.threadSemaphore = (setting.addTableToTableStateList files tableName).threadSemaphore := by
  let n := s.tableStateList.length
  let s₁ : CompactionThreads :=
    { s with tableStateList := s.tableStateList ++ [⟨toUppercase tableName, 1, 1, 1, unset⟩] }
  let s₂ : CompactionThreads := { s₁ with
    threads := s.threads ++ [⟨setting.thread, n, .waiting⟩]
    creator := .created n setting.thread }
  let s₃ : CompactionThreads := { s₂ with
    tableStateList :=
      s.tableStateList ++ [⟨toUppercase tableName, 1, 1, 1, setting.thread⟩]
    creator := .stored n }
  have hadd : s.step (.addTable tableName unset) = some s₁ := if_pos hdone
  have hcreate : s₁.step (.create setting.thread) = some s₂ := by
    have hlt : n < s₁.tableStateList.length := by simp [s₁, n]
    have hnext : s₁.creator = .next n := hdone
    show s₁.createThread setting.thread = _
    rw [CompactionThreads.createThread, hnext]
    exact if_pos ⟨hlt, hfresh⟩
  have hstore : s₂.step .store = some s₃ := by
    have hmodify : s₁.tableStateList.modify n (fun state =>
        { state with compactionThread := setting.thread }) = s₃.tableStateList :=
      List.modifyTailIdx_add _ 0 s.tableStateList _
    show some { s₂ with
      tableStateList := s₁.tableStateList.modify n _, creator := .stored n } = some s₃
    rw [hmodify]
  refine ⟨{ s₃ with threadSemaphore := s.threadSemaphore + 1, creator := .next (n + 1) },
    (((Run.refl.step _ hadd trivial).step _ hcreate trivial).step _ hstore trivial).step .post rfl
      trivial, ?_, ?_⟩
  · show s.tableStateList ++ _ = files.tableStateList ++ _
    rw [hlist]
  · show s.threadSemaphore + 1 = files.threadSemaphore + 1
    rw [hvalue]

end CompactionThreads

open CompactionThreads

/-- **Every table gets its compaction thread**, in every run in which a thread that comes to the
state of its table finds its id stored: no thread ends without its table or with another one, and
when the creator is done, all of them have their ids and posts.  A thread that comes there earlier
goes past its table. -/
theorem tables_compacted {tableStateList : List TableState} {s : CompactionThreads}
    (h : Run CompactionThreads.step (fun s action _ => s.StoredInTime action)
      (startUp tableStateList) s) :
    s.FindOwnTables ∧ s.EveryTableCompacted ∧
      ∀ k s', s.step (.look k) = some s' → ¬ s.StoredInTime (.look k) →
        ∃ thread, s'.threads[k]? = some thread ∧
          (thread.point = .looking (thread.table + 1) ∨ thread.point = .returned) :=
  ⟨(matched_run h).findOwnTables, (matched_run h).everyTableCompacted,
    fun _ _ => lookThread_early⟩

/-- The states of two tables, whose threads are not set. -/
def twoTables : List TableState := [⟨[65], 1, 1, 1, 0⟩, ⟨[66], 1, 1, 1, 0⟩]

/-- Two tables at the start, and a third one that is created. -/
theorem tables_compacted_three : ∃ s, runSteps CompactionThreads.step
      (fun s action _ => s.StoredInTime action) (startUp twoTables)
      [.create 7, .store, .post, .create 8, .wait 0, .store, .look 0, .post, .wait 1, .look 1,
        .look 1, .addTable [67] 7, .create 9, .store, .post] = some s ∧
    s.threads = [⟨7, 0, .found 0⟩, ⟨8, 1, .found 1⟩, ⟨9, 2, .waiting⟩] ∧
      s.FindOwnTables ∧ s.EveryTableCompacted := by
  have hsteps : ∃ s, runSteps CompactionThreads.step
        (fun s action _ => s.StoredInTime action) (startUp twoTables)
        [.create 7, .store, .post, .create 8, .wait 0, .store, .look 0, .post, .wait 1, .look 1,
          .look 1, .addTable [67] 7, .create 9, .store, .post] = some s ∧
      s.threads = [⟨7, 0, .found 0⟩, ⟨8, 1, .found 1⟩, ⟨9, 2, .waiting⟩] := ⟨_, rfl, rfl⟩
  obtain ⟨s, hs, hthreads⟩ := hsteps
  obtain ⟨hown, hcompacted, -⟩ := tables_compacted (run_of_runSteps hs)
  exact ⟨s, hs, hthreads, hown, hcompacted⟩

/-- The thread of the second table takes the post for the first one, before its id is stored. -/
theorem not_tables_compacted :
    (∃ s, runSteps CompactionThreads.step (fun _ _ _ => True) (startUp twoTables)
        [.create 7, .store, .post, .create 8, .wait 1, .look 1, .look 1, .look 1, .store, .post,
          .wait 0, .look 0] = some s ∧
      s.creator = .next 2 ∧ s.threads = [⟨7, 0, .found 0⟩, ⟨8, 1, .returned⟩]) ∧
      ¬ ∀ (tableStateList : List TableState) (s : CompactionThreads),
        Run CompactionThreads.step (fun _ _ _ => True) (startUp tableStateList) s →
          s.FindOwnTables := by
  have hsteps : ∃ s, runSteps CompactionThreads.step (fun _ _ _ => True) (startUp twoTables)
        [.create 7, .store, .post, .create 8, .wait 1, .look 1, .look 1, .look 1, .store, .post,
          .wait 0, .look 0] = some s ∧
      s.creator = .next 2 ∧ s.threads = [⟨7, 0, .found 0⟩, ⟨8, 1, .returned⟩] :=
    ⟨_, rfl, rfl, rfl⟩
  refine ⟨hsteps, fun hall => ?_⟩
  obtain ⟨s, hs, -, hthreads⟩ := hsteps
  have hown := hall twoTables s (run_of_runSteps hs) ⟨8, 1, .returned⟩ (by rw [hthreads]; simp)
  exact hown.1 rfl

end Lissandra
