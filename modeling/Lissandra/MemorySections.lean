import Lissandra.Eviction
import Lissandra.PageKeys
import Lissandra.Semaphore

/-! # The sections of a memory node

`g_mem_op_semaphore` is taken with `sem_wait` and given back with `sem_post_neg`, which posts
only if `sem_getvalue` says 0.  A thread is at a point between two semaphore operations or before
the body of a section, and a step takes it to the next one.  Bodies are those of the memory node:
`process_insert` and `replace_algorithm` post before the page is listed, `select_callback` posts
once more after that, and a journal is a section that its callback ends.

The semaphore is a lock as long as no body leaves a page to be listed, no `select_callback` finds
the memory full, and no JOURNAL finds the semaphore taken (`exclusive_of_run`): a JOURNAL that does
goes on without it.
-/
namespace Lissandra
namespace MemorySections

/-! ## Threads -/

/-- What is done after a `sem_wait`. -/
inductive Body where
  | processSelect (input : SelectInput)
  | processInsert (now later : Int64) (input : InsertInput)
  | selectCallback (result : Option RecordT)
  deriving DecidableEq

/-- Who calls `journaling`. -/
inductive Caller where
  | request
  | processInsert
  | selectCallback
  deriving DecidableEq

/-- A call of `journaling`, and whether it has waited. -/
structure Journal where
  register : Option JournalRegister
  caller : Caller
  waited : Bool
  deriving DecidableEq

/-- What is left to do after a `sem_post_neg`. -/
inductive Rest where
  | finished
  /-- The page is to be listed, and `select_callback` posts again. -/
  | listing (listing : Listing) (again : Bool)
  deriving DecidableEq

/-- Where a thread is.  `inside` says whether the section of the thread has not ended yet. -/
inductive Point where
  /-- Before `sem_wait`. -/
  | wait (body : Body)
  /-- After it. -/
  | run (body : Body)
  /-- In `sem_post_neg`, before `sem_getvalue`. -/
  | getvalue (inside : Bool) (rest : Rest)
  /-- In `sem_post_neg`, before `sem_post`. -/
  | post (inside : Bool) (rest : Rest)
  /-- Before `list_add`. -/
  | listAdd (listing : Listing) (again : Bool)
  /-- In `journaling`, before `sem_getvalue`. -/
  | journaling (journal : Journal)
  /-- In `journaling`, before `sem_wait`. -/
  | journalWait (journal : Journal)
  /-- In `journaling`, before the pages are looked at and the request is sent. -/
  | send (journal : Journal)
  /-- Before `journal_callback`. -/
  | journalCallback (inside : Bool) (register : Option JournalRegister)
  | finished
  deriving DecidableEq

/-- A JOURNAL is in a section if it has waited, and the other callers are in theirs. -/
def Journal.inside (journal : Journal) : Bool := journal.waited || journal.caller ≠ .request

/-- The callback is in the section of the journal, but not in that of `select_callback`, which
posts as soon as the journal is sent. -/
def Journal.callbackInside (journal : Journal) : Bool :=
  journal.waited || journal.caller = .processInsert

/-- Between a `sem_wait` and the end of the `sem_post_neg` that ends its section. -/
def Point.inside : Point → Bool
  | .run _ => true
  | .getvalue inside _ | .post inside _ | .journalCallback inside _ => inside
  | .journaling journal | .journalWait journal | .send journal => journal.inside
  | _ => false

/-- Before code that reads or changes `g_segment_list` and `g_main_memory`. -/
def Point.accesses : Point → Bool
  | .run _ | .listAdd .. | .send _ | .journalCallback .. => true
  | _ => false

def Rest.point : Rest → Point
  | .finished => .finished
  | .listing entry again => .listAdd entry again

end MemorySections

open MemorySections

/-- A memory node with `g_mem_op_semaphore` and its threads. -/
structure MemorySections where
  node : MemoryNode
  memOpSemaphore : Nat
  threads : List Point

namespace MemorySections

/-! ## Steps -/

/-- The end of a body: the memory, and what the thread does next. -/
def sectionEnd (node : MemoryNode) (caller : Caller) : Option SectionEnd → MemoryNode × Point
  | none => (node, .getvalue true .finished)
  | some (.finished node) => (node, .getvalue true .finished)
  | some (.listing node entry) =>
    (node, .getvalue true (.listing entry (caller = .selectCallback)))
  | some (.journaling register) => (node, .journaling ⟨some register, caller, false⟩)

/-- A body. -/
def Body.run (node : MemoryNode) : Body → Option (MemoryNode × Point)
  | .processSelect input =>
    (Lissandra.processSelect node input).map fun _ => (node, .getvalue true .finished)
  | .processInsert now later input =>
    (insertSection node now later input).map (sectionEnd node .processInsert)
  | .selectCallback result =>
    (Lissandra.selectCallback node result).map (sectionEnd node .selectCallback)

/-- A thread is at another point. -/
def goto (s : MemorySections) (i : Nat) (point : Point) : MemorySections :=
  { s with threads := s.threads.set i point }

/-- The next step of thread `i` from a point.  `multiinsertResult` is what the filesystem answers
to a journal. -/
def advance (s : MemorySections) (i : Nat) (multiinsertResult : Option Int32) :
    Point → Option MemorySections
  | .wait body =>
    if 0 < s.memOpSemaphore then
      some { s.goto i (.run body) with memOpSemaphore := s.memOpSemaphore - 1 }
    else none
  | .run body => (body.run s.node).map fun (node, point) => { s.goto i point with node }
  | .getvalue inside rest =>
    if s.memOpSemaphore = 0 then some (s.goto i (.post inside rest))
    else some (s.goto i rest.point)
  | .post _ rest =>
    some { s.goto i rest.point with memOpSemaphore := s.memOpSemaphore + 1 }
  | .listAdd entry again => (Lissandra.listAdd s.node entry).map fun node =>
    { s.goto i (if again then .getvalue false .finished else .finished) with node }
  | .journaling journal =>
    if 0 < s.memOpSemaphore then some (s.goto i (.journalWait journal))
    else some (s.goto i (.send journal))
  | .journalWait journal =>
    if 0 < s.memOpSemaphore then
      some { s.goto i (.send { journal with waited := true }) with
        memOpSemaphore := s.memOpSemaphore - 1 }
    else none
  | .send journal => do
    let _ ← journalBatch s.node
    let callback := Point.journalCallback journal.callbackInside journal.register
    -- `select_callback` goes on, next to the thread that waits for the answer
    if journal.caller = .selectCallback then
      let s := s.goto i (.getvalue true .finished)
      some { s with threads := s.threads ++ [callback] }
    else some (s.goto i callback)
  | .journalCallback inside register =>
    if multiinsertResult = none ∨ multiinsertResult = some 0 ∨ multiinsertResult = some (-1) then
      (Lissandra.journalCallback s.node multiinsertResult register).map fun node =>
        { s.goto i (.getvalue inside .finished) with node }
    else none
  | .finished => none

/-- A thread begins, or makes a step. -/
inductive Action where
  | begin (body : Body)
  | beginJournal
  | move (i : Nat) (multiinsertResult : Option Int32)
  deriving DecidableEq

/-- One step. -/
def step (s : MemorySections) : Action → Option MemorySections
  | .begin body => some { s with threads := s.threads ++ [.wait body] }
  | .beginJournal => some { s with
      threads := s.threads ++ [.journaling ⟨none, .request, false⟩] }
  | .move i multiinsertResult => s.threads[i]? >>= s.advance i multiinsertResult

/-- At most one thread in a section is about to read or change the memory, and no thread outside
of a section changes it. -/
structure Exclusive (s : MemorySections) : Prop where
  one : s.threads.countP (fun point => point.accesses && point.inside) ≤ 1
  inside : ∀ action s', s.step action = some s' → s'.node ≠ s.node →
    ∃ i multiinsertResult point, action = .move i multiinsertResult ∧
      s.threads[i]? = some point ∧ point.inside = true

/-! ## The condition -/

/-- The body leaves no page to be listed, and `select_callback` needs none to be free. -/
def Body.EndsInside (node : MemoryNode) : Body → Prop
  | .processSelect _ => True
  | .processInsert _ _ input =>
    input.value.bytes.length ≤ node.valueSize →
      findPage node (toUppercase input.tableName.bytes) input.key.toNat = some none →
      if memoryFull node.memory then getPagesByModified node.segmentList false = []
      else toUppercase input.tableName.bytes ∈ node.segmentList.map MemorySegment.name
  | .selectCallback result => ∀ record ∈ result, IsRecord record → memoryFull node.memory = false

instance (node : MemoryNode) (body : Body) : Decidable (body.EndsInside node) := by
  cases body with
  | processSelect input => exact isTrue trivial
  | processInsert now later input =>
    unfold Body.EndsInside
    infer_instance
  | selectCallback result =>
    unfold Body.EndsInside
    infer_instance

/-- The condition on a step from a point. -/
def Point.Keeps (s : MemorySections) : Point → Prop
  | .run body => body.EndsInside s.node
  | .journaling journal => journal.caller = .request → 0 < s.memOpSemaphore
  | _ => True

instance (s : MemorySections) (point : Point) : Decidable (point.Keeps s) := by
  unfold Point.Keeps
  split <;> infer_instance

/-- No body leaves its section early, and no JOURNAL finds the semaphore taken. -/
def Keeps (s : MemorySections) : Action → Prop
  | .move i _ => ∀ point ∈ s.threads[i]?, point.Keeps s
  | _ => True

instance (s : MemorySections) (action : Action) : Decidable (s.Keeps action) := by
  cases action with
  | begin body => exact isTrue trivial
  | beginJournal => exact isTrue trivial
  | move i multiinsertResult =>
    unfold Keeps
    infer_instance

/-- The states reached by such steps. -/
abbrev SectionsRun (start s : MemorySections) : Prop :=
  Run step (fun s action _ => s.Keeps action) start s

/-! ## The lock -/

/-- The points of a sound lock: sections end once, in the thread that they began in, with nothing
left to do, and only a JOURNAL waits in `journaling`. -/
def Point.Sound : Point → Prop
  | .getvalue inside rest | .post inside rest => inside = true ∧ rest = .finished
  | .listAdd .. => False
  | .journaling journal => journal.waited = false ∧ journal.caller ≠ .selectCallback
  | .journalWait journal => journal.waited = false ∧ journal.caller = .request
  | .send journal => journal.inside = true ∧ journal.caller ≠ .selectCallback
  | .journalCallback inside _ => inside = true
  | _ => True

/-- The semaphore is a lock that the threads in sections hold. -/
structure Sound (s : MemorySections) : Prop where
  guarded : Guarded Point.inside s.memOpSemaphore s.threads
  points : ∀ point ∈ s.threads, point.Sound

section Steps
variable {s s' start : MemorySections} {i : Nat} {point next : Point} {node : MemoryNode}
  {multiinsertResult : Option Int32}

/-- A thread goes on and holds the lock as before. -/
theorem Sound.goto (h : s.Sound) (hi : s.threads[i]? = some point) (hnext : next.Sound)
    (hsame : next.inside = point.inside) (node : MemoryNode) :
    Sound { s.goto i next with node } := by
  refine ⟨h.guarded.move hi hsame, fun other hother => ?_⟩
  rcases List.mem_or_eq_of_mem_set hother with hold | rfl
  · exact h.points other hold
  · exact hnext

/-- A `sem_wait` that goes on. -/
theorem Sound.wait (h : s.Sound) (hi : s.threads[i]? = some point) (hnext : next.Sound)
    (hvalue : 0 < s.memOpSemaphore) (hbefore : point.inside = false) (hafter : next.inside = true) :
    Sound { s.goto i next with memOpSemaphore := s.memOpSemaphore - 1 } := by
  refine ⟨h.guarded.wait hi hvalue hbefore hafter, fun other hother => ?_⟩
  rcases List.mem_or_eq_of_mem_set hother with hold | rfl
  · exact h.points other hold
  · exact hnext

/-- The `sem_post` that ends a section. -/
theorem Sound.post (h : s.Sound) (hi : s.threads[i]? = some point)
    (hbefore : point.inside = true) :
    Sound { s.goto i .finished with memOpSemaphore := s.memOpSemaphore + 1 } := by
  refine ⟨h.guarded.post hi hbefore rfl, fun other hother => ?_⟩
  rcases List.mem_or_eq_of_mem_set hother with hold | rfl
  · exact h.points other hold
  · exact trivial

theorem Sound.begin (h : s.Sound) (hnext : next.Sound) (houtside : next.inside = false) :
    Sound { s with threads := s.threads ++ [next] } := by
  refine ⟨h.guarded.start houtside, fun other hother => ?_⟩
  rcases List.mem_append.mp hother with hold | hnew
  · exact h.points other hold
  · obtain rfl := List.mem_singleton.mp hnew
    exact hnext

/-! ## Bodies -/

/-- How a body ends. -/
theorem writePage_ends {timestamp : Int64} {key : Int} {value : CString} {modified : Bool}
    {tableName : Bytes} {postsFirst : Bool → Bool} {ending : SectionEnd}
    (h : writePage node timestamp key value modified tableName postsFirst = some ending)
    (hfull : memoryFull node.memory = true → getPagesByModified node.segmentList false = [])
    (hroom : memoryFull node.memory = false →
      postsFirst (getSegmentByName node.segmentList tableName).isNone = false) :
    (∃ node', ending = .finished node') ∨
      memoryFull node.memory = true ∧ ∃ register, ending = .journaling register := by
  unfold writePage at h
  dsimp only at h
  split at h
  · rename_i hcase
    have hnone : replaceAlgorithm node timestamp key value.bytes tableName = some .journaling := by
      unfold replaceAlgorithm
      rw [hfull hcase]
      rfl
    rw [hnone] at h
    obtain rfl := Option.some.inj h
    exact Or.inr ⟨hcase, _, rfl⟩
  · rename_i hcase
    rw [if_neg (Bool.eq_false_iff.mp (hroom (Bool.eq_false_of_not_eq_true hcase)))] at h
    obtain ⟨node', -, rfl⟩ := Option.map_eq_some_iff.mp h
    exact Or.inl ⟨node', rfl⟩

/-- A body that meets the condition goes on in its section. -/
theorem Body.EndsInside.sound {body : Body} {node' : MemoryNode} (h : body.EndsInside node)
    (hrun : body.run node = some (node', next)) : next.Sound ∧ next.inside = true := by
  cases body with
  | processSelect input =>
    obtain ⟨lookup, -, hend⟩ := Option.map_eq_some_iff.mp hrun
    obtain ⟨-, rfl⟩ := Prod.mk.inj hend
    exact ⟨⟨rfl, rfl⟩, rfl⟩
  | processInsert now later input =>
    obtain ⟨ending, hsection, hend⟩ := Option.map_eq_some_iff.mp hrun
    unfold insertSection at hsection
    dsimp only at hsection
    split at hsection
    · rename_i hlen
      obtain ⟨found, hfind, hsection⟩ := Option.bind_eq_some_iff.mp hsection
      cases found with
      | some found =>
        obtain rfl := Option.some.inj hsection
        obtain ⟨-, rfl⟩ := Prod.mk.inj hend
        exact ⟨⟨rfl, rfl⟩, rfl⟩
      | none =>
        have hcase := h hlen hfind
        obtain ⟨ending, hwrite, rfl⟩ := Option.map_eq_some_iff.mp hsection
        have hends := writePage_ends hwrite (fun hfull => by rwa [if_pos hfull] at hcase)
          fun hroom => by
            rw [hroom, if_neg Bool.false_ne_true] at hcase
            exact Bool.eq_false_iff.mpr fun hnone => isNone_getSegmentByName.mp hnone hcase
        rcases hends with ⟨after, rfl⟩ | ⟨-, register, rfl⟩
        · obtain ⟨-, rfl⟩ := Prod.mk.inj hend
          exact ⟨⟨rfl, rfl⟩, rfl⟩
        · obtain ⟨-, rfl⟩ := Prod.mk.inj hend
          exact ⟨⟨rfl, fun hcaller => by cases hcaller⟩, rfl⟩
    · obtain rfl := Option.some.inj hsection
      obtain ⟨-, rfl⟩ := Prod.mk.inj hend
      exact ⟨⟨rfl, rfl⟩, rfl⟩
  | selectCallback result =>
    obtain ⟨ending, hsection, hend⟩ := Option.map_eq_some_iff.mp hrun
    have hnothing : ending = none → next.Sound ∧ next.inside = true := by
      rintro rfl
      obtain ⟨-, rfl⟩ := Prod.mk.inj hend
      exact ⟨⟨rfl, rfl⟩, rfl⟩
    cases result with
    | none => exact hnothing (Option.some.inj hsection).symm
    | some record =>
      by_cases hrecord : IsRecord record
      · have hroom := h record rfl hrecord
        rw [Lissandra.selectCallback, if_neg hrecord] at hsection
        obtain ⟨-, -, hsection⟩ := Option.bind_eq_some_iff.mp hsection
        obtain ⟨ending, hwrite, rfl⟩ := Option.map_eq_some_iff.mp hsection
        have hends := writePage_ends hwrite (fun hfull => by rw [hroom] at hfull; cases hfull)
          fun _ => rfl
        rcases hends with ⟨after, rfl⟩ | ⟨hfull, -⟩
        · obtain ⟨-, rfl⟩ := Prod.mk.inj hend
          exact ⟨⟨rfl, rfl⟩, rfl⟩
        · rw [hroom] at hfull
          cases hfull
      · rw [Lissandra.selectCallback, if_pos (not_not.mp hrecord)] at hsection
        exact hnothing (Option.some.inj hsection).symm

/-- The section of a journal is that of its callback. -/
theorem Journal.callbackInside_of_inside (journal : Journal) (hinside : journal.inside = true)
    (hcaller : journal.caller ≠ .selectCallback) : journal.callbackInside = true := by
  unfold Journal.inside at hinside
  unfold Journal.callbackInside
  cases hcase : journal.caller with
  | request =>
    rw [hcase] at hinside
    exact hinside
  | processInsert => exact Bool.or_true _
  | selectCallback => exact absurd hcase hcaller

/-! ## Every run -/

/-- A thread in a section finds the semaphore taken. -/
theorem Sound.taken (h : s.Sound) (hi : s.threads[i]? = some point)
    (hinside : point.inside = true) : ¬ 0 < s.memOpSemaphore := by
  rw [h.guarded.value_eq_zero hi hinside]
  exact Nat.lt_irrefl 0

/-- A step of one thread. -/
theorem Sound.move (h : s.Sound) (hi : s.threads[i]? = some point)
    (hmove : s.advance i multiinsertResult point = some s') (hkeeps : point.Keeps s) :
    s'.Sound := by
  have hsound := h.points point (List.mem_of_getElem? hi)
  cases point with
  | wait body =>
    rw [advance] at hmove
    split at hmove
    · rename_i hvalue
      obtain rfl := Option.some.inj hmove
      exact h.wait hi trivial hvalue rfl rfl
    · cases hmove
  | run body =>
    obtain ⟨⟨node, next⟩, hrun, rfl⟩ := Option.map_eq_some_iff.mp hmove
    obtain ⟨hnext, hinside⟩ := hkeeps.sound hrun
    exact h.goto hi hnext hinside node
  | getvalue inside rest =>
    obtain ⟨rfl, rfl⟩ := hsound
    rw [advance] at hmove
    rw [if_pos (h.guarded.value_eq_zero hi rfl)] at hmove
    obtain rfl := Option.some.inj hmove
    exact @Sound.goto s i _ (.post true .finished) h hi ⟨rfl, rfl⟩ rfl s.node
  | post inside rest =>
    obtain ⟨rfl, rfl⟩ := hsound
    obtain rfl := Option.some.inj hmove
    exact h.post hi rfl
  | listAdd entry again => exact absurd hsound id
  | journaling journal =>
    obtain ⟨hwaited, hcaller⟩ := hsound
    rw [advance] at hmove
    by_cases hrequest : journal.caller = .request
    · -- a JOURNAL goes on to its `sem_wait`
      rw [if_pos (hkeeps hrequest)] at hmove
      obtain rfl := Option.some.inj hmove
      exact @Sound.goto s i _ (.journalWait journal) h hi ⟨hwaited, hrequest⟩ rfl s.node
    · -- an INSERT has the semaphore
      have hinside : journal.inside = true := by
        rw [Journal.inside, decide_eq_true hrequest, Bool.or_true]
      rw [if_neg (h.taken hi hinside)] at hmove
      obtain rfl := Option.some.inj hmove
      exact @Sound.goto s i _ (.send journal) h hi ⟨hinside, hcaller⟩ rfl s.node
  | journalWait journal =>
    obtain ⟨hwaited, hcaller⟩ := hsound
    rw [advance] at hmove
    split at hmove
    · rename_i hvalue
      obtain rfl := Option.some.inj hmove
      refine h.wait hi ⟨rfl, fun hother => ?_⟩ hvalue ?_ rfl
      · cases hcaller.symm.trans hother
      show journal.inside = false
      rw [Journal.inside, hwaited, hcaller]
      rfl
    · cases hmove
  | send journal =>
    obtain ⟨hinside, hcaller⟩ := hsound
    obtain ⟨-, -, hsent⟩ := Option.bind_eq_some_iff.mp hmove
    rw [if_neg hcaller] at hsent
    obtain rfl := Option.some.inj hsent
    have hcallback : journal.callbackInside = true :=
      journal.callbackInside_of_inside hinside hcaller
    exact @Sound.goto s i _ (.journalCallback journal.callbackInside journal.register) h hi
      hcallback (hcallback.trans hinside.symm) s.node
  | journalCallback inside register =>
    rw [advance] at hmove
    split at hmove
    · obtain ⟨node, -, rfl⟩ := Option.map_eq_some_iff.mp hmove
      exact @Sound.goto s i _ (.getvalue inside .finished) h hi ⟨hsound, rfl⟩ rfl node
    · cases hmove
  | finished => cases hmove

/-- **One step.** -/
theorem Sound.step (h : s.Sound) {action : Action} (hstep : s.step action = some s')
    (hkeeps : s.Keeps action) : s'.Sound := by
  cases action with
  | begin body =>
    obtain rfl := Option.some.inj hstep
    exact h.begin trivial rfl
  | beginJournal =>
    obtain rfl := Option.some.inj hstep
    exact h.begin ⟨rfl, by decide⟩ rfl
  | move i multiinsertResult =>
    obtain ⟨point, hi, hmove⟩ := Option.bind_eq_some_iff.mp hstep
    exact h.move hi hmove (hkeeps point hi)

/-- Only threads in sections change the memory. -/
theorem Sound.changes (h : s.Sound) (hi : s.threads[i]? = some point)
    (hmove : s.advance i multiinsertResult point = some s') (hchanges : s'.node ≠ s.node) :
    point.inside = true := by
  have hsound := h.points point (List.mem_of_getElem? hi)
  cases point with
  | run body => rfl
  | journalCallback inside register => exact hsound
  | listAdd entry again => exact absurd hsound id
  | wait body =>
    rw [advance] at hmove
    split at hmove
    · obtain rfl := Option.some.inj hmove
      exact absurd rfl hchanges
    · cases hmove
  | getvalue inside rest => exact hsound.1
  | post inside rest => exact hsound.1
  | journaling journal =>
    rw [advance] at hmove
    split at hmove
    · obtain rfl := Option.some.inj hmove
      exact absurd rfl hchanges
    · obtain rfl := Option.some.inj hmove
      exact absurd rfl hchanges
  | journalWait journal =>
    rw [advance] at hmove
    split at hmove
    · obtain rfl := Option.some.inj hmove
      exact absurd rfl hchanges
    · cases hmove
  | send journal => exact hsound.1
  | finished => cases hmove

theorem Sound.exclusive (h : s.Sound) : s.Exclusive where
  one := by
    refine le_trans (List.countP_mono_left fun point _ hpoint => ?_) h.guarded.countP_le
    exact (Bool.and_eq_true_iff.mp hpoint).2
  inside action s' hstep hchanges := by
    cases action with
    | begin body =>
      obtain rfl := Option.some.inj hstep
      exact absurd rfl hchanges
    | beginJournal =>
      obtain rfl := Option.some.inj hstep
      exact absurd rfl hchanges
    | move i multiinsertResult =>
      obtain ⟨point, hi, hmove⟩ := Option.bind_eq_some_iff.mp hstep
      exact ⟨i, multiinsertResult, point, rfl, hi, h.changes hi hmove hchanges⟩

/-- **Mutual exclusion.**  From any memory whose semaphore is free, for any threads and any order of
their steps: as long as no body leaves its section early and no JOURNAL finds the semaphore taken,
at most one thread in a section is about to read or change the memory, and no other one changes
it. -/
theorem exclusive_of_run (hsemaphore : start.memOpSemaphore = 1) (hthreads : start.threads = [])
    (hrun : SectionsRun start s) : s.Exclusive := by
  have hstart : start.Sound := by
    refine ⟨?_, fun point hpoint => ?_⟩
    · rw [Guarded, hsemaphore, hthreads]
      rfl
    · rw [hthreads] at hpoint
      cases hpoint
  exact (hrun.invariant hstart fun _ _ _ h hstep hkeeps => h.step hstep hkeeps).exclusive

end Steps

/-! ## An INSERT and a JOURNAL, and an INSERT into a new table -/

/-- The semaphore as `main` leaves it. -/
def firstSections : MemorySections := ⟨unmodifiedNode, 1, []⟩

/-- A JOURNAL comes while an `INSERT T 1 "a"` has the semaphore, and waits for it. -/
def waitingActions : List Action :=
  [.begin (.processInsert 3 4 (shortInsert 1)), .beginJournal, .move 1 none, .move 0 none,
    .move 0 none, .move 0 none, .move 0 none, .move 1 none, .move 1 none, .move 1 (some 0)]

theorem exclusive_waiting : ∃ s, SectionsRun firstSections s ∧ s.node.segmentList = [] ∧
    s.Exclusive := by
  have hlist : (runSteps step (fun s action _ => s.Keeps action) firstSections
      waitingActions).map (fun s => s.node.segmentList) = some [] := by decide +kernel
  obtain ⟨s, hsteps, hlist⟩ := Option.map_eq_some_iff.mp hlist
  have hrun : SectionsRun firstSections s := run_of_runSteps hsteps
  exact ⟨s, hrun, hlist, exclusive_of_run rfl rfl hrun⟩

/-- `INSERT V 1 "a"` has posted and has not listed its page, while a `SELECT T 1` begins. -/
def listingActions : List Action :=
  [.begin (.processInsert 3 4 ⟨.ofBytes [118], 1, .ofBytes [97], 0⟩),
    .begin (.processSelect ⟨.ofBytes [116], 1⟩), .move 0 none, .move 0 none, .move 0 none,
    .move 0 none, .move 1 none]

/-- The INSERT changes the list of segments while the SELECT has the semaphore. -/
theorem listed_outside : ∃ s, Run step (fun _ _ _ => True) firstSections s ∧
    s.threads = [.listAdd ⟨[86], true, ⟨0, true⟩⟩ false,
      .run (.processSelect ⟨.ofBytes [116], 1⟩)] ∧
    ¬ s.Exclusive := by
  have hrun : ((runSteps step (fun _ _ _ => True) firstSections listingActions).bind fun s =>
      (s.step (.move 0 none)).map fun s' => (s.threads, decide (s'.node ≠ s.node))) =
      some ([.listAdd ⟨[86], true, ⟨0, true⟩⟩ false,
        .run (.processSelect ⟨.ofBytes [116], 1⟩)], true) := by decide +kernel
  obtain ⟨s, hsteps, hmap⟩ := Option.bind_eq_some_iff.mp hrun
  obtain ⟨s', hstep, hpair⟩ := Option.map_eq_some_iff.mp hmap
  obtain ⟨hthreads, hchanges⟩ := Prod.mk.inj hpair
  refine ⟨s, run_of_runSteps hsteps, hthreads, fun hexclusive => ?_⟩
  obtain ⟨i, multiinsertResult, point, haction, hpoint, hinside⟩ :=
    hexclusive.inside _ s' hstep (of_decide_eq_true hchanges)
  cases haction
  rw [hthreads] at hpoint
  obtain rfl := Option.some.inj hpoint
  cases hinside

end MemorySections

end Lissandra
