import Lissandra.BusyNodeSteps
import Lissandra.SentValues

/-! # Where the values of a memory come from

The copies in the pages of a memory, and whatever its threads and its requests carry, have values
that clients have sent for their table and key, as long as the filesystem answers with such values
(`BusyNode.Inv.sent_step`).
-/
namespace Lissandra

/-! ## The view of a node is its own -/

section Unique
variable {memory : MainMemory} {page : Page} {copy other : Copy Record} {node : MemoryNode}
  {view view' : View}

theorem PageHolds.unique (h : PageHolds memory page copy) (h' : PageHolds memory page other) :
    copy = other := by
  have htexts := congrArg (stringSplit · semicolon) (h.text.symm.trans h'.text)
  simp only [stringSplit_of_legible h.legible, stringSplit_of_legible h'.legible] at htexts
  obtain ⟨htimestamp, htexts⟩ := List.cons_eq_cons.mp htexts
  obtain ⟨hkey, htexts⟩ := List.cons_eq_cons.mp htexts
  obtain ⟨hvalue, -⟩ := List.cons_eq_cons.mp htexts
  obtain ⟨⟨timestamp, key, value⟩, modified⟩ := copy
  obtain ⟨⟨timestamp', key', value'⟩, modified'⟩ := other
  have htimestamp := Int64.toInt_inj.mp (printInt_injective htimestamp)
  have hkey := UInt16.toNat_inj.mp (Int.ofNat_inj.mp (printInt_injective hkey))
  have hmodified := h.modified.symm.trans h'.modified
  simp only at htimestamp hkey hvalue hmodified
  rw [htimestamp, hkey, hvalue, hmodified]

theorem Shows.unique (h : Shows node view) (h' : Shows node view') : view = view' := by
  have hunique : Relator.RightUnique (PageHolds node.memory) := fun _ _ _ => PageHolds.unique
  funext tableName
  exact List.right_unique_forall₂' hunique (h tableName) (h' tableName)

end Unique

/-! ## Copies -/

/-- Every copy has a value that was sent. -/
def View.Sent (inserted : List InsertInput) (view : View) : Prop :=
  ∀ tableName, ∀ copy ∈ view tableName,
    SentBy inserted tableName copy.record.key copy.record.value

namespace View.Sent
variable {inserted : List InsertInput} {view view' : View} {tableName : Bytes}
  {copy : Copy Record} {record : Record}

theorem empty : View.empty.Sent inserted := fun _ _ hmem => absurd hmem List.not_mem_nil

theorem update (h : view.Sent inserted) {copies : List (Copy Record)}
    (hcopies : ∀ copy ∈ copies, SentBy inserted tableName copy.record.key copy.record.value) :
    View.Sent inserted (Function.update view tableName copies) := by
  intro other copy hmem
  rw [Function.update_apply] at hmem
  split at hmem
  · rename_i heq
    exact heq ▸ hcopies copy hmem
  · exact h other copy hmem

theorem add (h : view.Sent inserted)
    (hcopy : SentBy inserted tableName copy.record.key copy.record.value) :
    (view.add tableName copy).Sent inserted := by
  refine h.update fun other hmem => ?_
  rcases List.mem_append.mp hmem with hmem | hmem
  · exact h tableName other hmem
  · obtain rfl := List.mem_singleton.mp hmem
    exact hcopy

theorem evicts (h : view.Sent inserted) (hevicts : view' = view ∨ view.Evicts view') :
    view'.Sent inserted := by
  rcases hevicts with rfl | ⟨tableName, before, copy, after, hview, -, rfl⟩
  · exact h
  · refine h.update fun other hmem => h tableName other ?_
    rw [hview]
    rcases List.mem_append.mp hmem with hmem | hmem
    · exact List.mem_append_left _ hmem
    · exact List.mem_append_right _ (List.mem_cons_of_mem _ hmem)

theorem writes (h : view.Sent inserted) (hwrites : view.Writes tableName record view')
    (hrecord : SentBy inserted tableName record.key record.value) : view'.Sent inserted := by
  obtain ⟨before, copy, after, hview, -, -, rfl⟩ := hwrites
  refine h.update fun other hmem => ?_
  rcases List.mem_append.mp hmem with hmem | hmem
  · exact h tableName other (hview ▸ List.mem_append_left _ hmem)
  · rcases List.mem_cons.mp hmem with rfl | hmem
    · exact hrecord
    · refine h tableName other ?_
      rw [hview]
      exact List.mem_append_right _ (List.mem_cons_of_mem _ hmem)

theorem mono {more : List InsertInput} (h : view.Sent inserted) (hsub : inserted ⊆ more) :
    view.Sent more := fun tableName copy hmem => (h tableName copy hmem).mono hsub

end View.Sent

/-! ## Threads and requests -/

/-- If this is the answer to the SELECT, then with a value that was sent. -/
def SelectRequest.Brings (inserted : List InsertInput) (request : SelectRequest)
    (timestamp : Int64) (value : Bytes) : Prop :=
  timestamp ≠ -1 → SentBy inserted request.tableName request.key value

def Waiter.Sent (inserted : List InsertInput) (waiter : Waiter) : Prop :=
  SentBy inserted waiter.register.tableName waiter.register.record.key
    waiter.register.record.value

def Tail.Sent (inserted : List InsertInput) : Tail → Prop
  | .insert _ tableName record => SentBy inserted tableName record.key record.value
  | .fill _ request result =>
    SentBy inserted request.tableName request.key result.value.bytes
  | .answer request result => request.Brings inserted result.timestamp result.value.bytes
  | .miss _ | .done => True

def Task.Sent (inserted : List InsertInput) : Task → Prop
  | .post tail | .raise tail => tail.Sent inserted
  | .look waiter | .wait waiter => ∀ w ∈ waiter, w.Sent inserted

structure JournalRequest.Sent (inserted : List InsertInput) (journal : JournalRequest) : Prop where
  batch : ∀ tableName record, (tableName, record) ∈ journal.batch →
    SentBy inserted tableName record.key record.value
  waiter : ∀ w ∈ journal.waiter, w.Sent inserted

/-- What was answered, and what may be answered yet. -/
structure Carried (inserted : List InsertInput) (tasks : List Task)
    (selects : List (SelectRequest × Option (Option RecordT))) (journals : List JournalRequest)
    (answered : List (SelectRequest × AnsweredRecord)) : Prop where
  tasks : ∀ task ∈ tasks, task.Sent inserted
  selects : ∀ request result, (request, some (some result)) ∈ selects →
    request.Brings inserted result.timestamp result.value.bytes
  journals : ∀ journal ∈ journals, journal.Sent inserted
  answered : ∀ request record, (request, record) ∈ answered →
    request.Brings inserted record.timestamp record.value

/-- Whatever is in a memory was sent. -/
structure BusyNode.Sent (inserted : List InsertInput) (s : BusyNode) (view : View) : Prop where
  view : view.Sent inserted
  carried : Carried inserted s.tasks s.selects s.journals s.answered

/-! ## Changes -/

section Changes
variable {inserted more : List InsertInput} {tasks : List Task} {task : Task} {tail : Tail}
  {selects : List (SelectRequest × Option (Option RecordT))} {journals : List JournalRequest}
  {journal : JournalRequest} {answered : List (SelectRequest × AnsweredRecord)}
  {request : SelectRequest} {waiter : Waiter} {tableName : Bytes} {key : UInt16}
  {timestamp : Int64} {value : Bytes}

theorem SelectRequest.Brings.mono (h : request.Brings inserted timestamp value)
    (hsub : inserted ⊆ more) : request.Brings more timestamp value :=
  fun htimestamp => (h htimestamp).mono hsub

theorem Tail.Sent.mono (h : tail.Sent inserted) (hsub : inserted ⊆ more) : tail.Sent more := by
  cases tail with
  | insert _ tableName record => exact SentBy.mono h hsub
  | fill _ request result => exact SentBy.mono h hsub
  | answer request result => exact SelectRequest.Brings.mono h hsub
  | miss _ | done => trivial

theorem Task.Sent.mono (h : task.Sent inserted) (hsub : inserted ⊆ more) : task.Sent more := by
  cases task with
  | post tail | raise tail => exact Tail.Sent.mono h hsub
  | look waiter | wait waiter => exact fun w hw => SentBy.mono (h w hw) hsub

namespace Carried

theorem mono (h : Carried inserted tasks selects journals answered) (hsub : inserted ⊆ more) :
    Carried more tasks selects journals answered where
  tasks task hmem := (h.tasks task hmem).mono hsub
  selects request result hmem := (h.selects request result hmem).mono hsub
  journals journal hmem := ⟨fun tableName record hentry =>
    ((h.journals journal hmem).batch tableName record hentry).mono hsub,
    fun w hw => SentBy.mono ((h.journals journal hmem).waiter w hw) hsub⟩
  answered request record hmem := (h.answered request record hmem).mono hsub

theorem spawn (h : Carried inserted tasks selects journals answered) (htask : task.Sent inserted) :
    Carried inserted (task :: tasks) selects journals answered :=
  ⟨List.forall_mem_cons.mpr ⟨htask, h.tasks⟩, h.selects, h.journals, h.answered⟩

theorem erase (h : Carried inserted tasks selects journals answered) (task : Task) :
    Carried inserted (tasks.erase task) selects journals answered :=
  ⟨fun other hmem => h.tasks other (List.mem_of_mem_erase hmem), h.selects, h.journals, h.answered⟩

theorem eraseJournal (h : Carried inserted tasks selects journals answered)
    (journal : JournalRequest) :
    Carried inserted tasks selects (journals.erase journal) answered :=
  ⟨h.tasks, h.selects, fun other hmem => h.journals other (List.mem_of_mem_erase hmem), h.answered⟩

theorem eraseSelect (h : Carried inserted tasks selects journals answered)
    (select : SelectRequest × Option (Option RecordT)) :
    Carried inserted tasks (selects.erase select) journals answered :=
  ⟨h.tasks, fun request result hmem => h.selects request result (List.mem_of_mem_erase hmem),
    h.journals, h.answered⟩

theorem send (h : Carried inserted tasks selects journals answered)
    (hjournal : journal.Sent inserted) :
    Carried inserted tasks selects (journal :: journals) answered :=
  ⟨h.tasks, h.selects, List.forall_mem_cons.mpr ⟨hjournal, h.journals⟩, h.answered⟩

theorem ask (h : Carried inserted tasks selects journals answered) (request : SelectRequest) :
    Carried inserted tasks ((request, none) :: selects) journals answered := by
  refine ⟨h.tasks, fun other result hmem => ?_, h.journals, h.answered⟩
  rcases List.mem_cons.mp hmem with heq | hmem
  · exact absurd (congrArg Prod.snd heq) (by simp)
  · exact h.selects other result hmem

theorem answer (h : Carried inserted tasks selects journals answered) {record : AnsweredRecord}
    (hrecord : request.Brings inserted record.timestamp record.value) :
    Carried inserted tasks selects journals ((request, record) :: answered) := by
  refine ⟨h.tasks, h.selects, h.journals, fun other found hmem => ?_⟩
  rcases List.mem_cons.mp hmem with heq | hmem
  · obtain ⟨rfl, rfl⟩ := Prod.mk.inj heq
    exact hrecord
  · exact h.answered other found hmem

end Carried

theorem brings_overtake : (request.overtake tableName key).Brings inserted timestamp value ↔
    request.Brings inserted timestamp value := by
  obtain ⟨htable, hkey, -⟩ := overtake_fields tableName key request
  rw [SelectRequest.Brings, SelectRequest.Brings, htable, hkey]

theorem Task.Sent.overtake (h : task.Sent inserted) :
    (task.overtake tableName key).Sent inserted := by
  have htail : ∀ tail : Tail, tail.Sent inserted → (tail.overtake tableName key).Sent inserted := by
    intro tail htail
    cases tail with
    | fill listing request result =>
      obtain ⟨htable, hkey, -⟩ := overtake_fields tableName key request
      change SentBy inserted (request.overtake tableName key).tableName
        (request.overtake tableName key).key _
      rw [htable, hkey]
      exact htail
    | answer request result => exact brings_overtake.mpr htail
    | insert _ _ _ => exact htail
    | miss _ | done => trivial
  have hwaiter : ∀ waiter : Option Waiter, (∀ w ∈ waiter, w.Sent inserted) →
      ∀ w ∈ waiter.map (Waiter.overtake tableName key), w.Sent inserted := by
    intro waiter hsent w hw
    obtain ⟨old, hold, rfl⟩ := Option.map_eq_some_iff.mp hw
    exact hsent old hold
  cases task with
  | post tail | raise tail => exact htail tail h
  | look waiter | wait waiter => exact hwaiter waiter h

/-- An INSERT that takes effect. -/
theorem Carried.overtake (h : Carried inserted tasks selects journals answered) (tableName : Bytes)
    (key : UInt16) :
    Carried inserted (tasks.map (Task.overtake tableName key))
      (selects.map fun (request, answer) => (request.overtake tableName key, answer))
      (journals.map (JournalRequest.overtake tableName key)) answered := by
  refine ⟨fun task hmem => ?_, fun request result hmem => ?_, fun journal hmem => ?_, h.answered⟩
  · obtain ⟨old, hold, rfl⟩ := List.mem_map.mp hmem
    exact (h.tasks old hold).overtake
  · obtain ⟨⟨old, answer⟩, hold, heq⟩ := List.mem_map.mp hmem
    obtain ⟨rfl, rfl⟩ := Prod.mk.inj heq
    exact brings_overtake.mpr (h.selects old result hold)
  · obtain ⟨old, hold, rfl⟩ := List.mem_map.mp hmem
    refine ⟨(h.journals old hold).batch, fun w hw => ?_⟩
    obtain ⟨waiter, hwaiter, rfl⟩ := Option.map_eq_some_iff.mp hw
    exact (h.journals old hold).waiter waiter hwaiter

end Changes

/-! ## Steps -/

/-- The client of an INSERT has sent it, and the filesystem answers with what was sent. -/
def BusyNode.Action.Sent (inserted : List InsertInput) : BusyNode.Action → Prop
  | .insert _ _ input => input ∈ inserted
  | .fsSelect request (some result) =>
    request.Brings inserted result.timestamp result.value.bytes
  | _ => True

section Steps
variable {memory : MainMemory} {inserted : List InsertInput} {s s' : BusyNode} {view : View}
  {task : Task} {tail : Tail} {request : SelectRequest} {journal : JournalRequest}
  {waiter : Option Waiter}

/-- Some view of the node has only what was sent, and so have its threads and requests. -/
def BusyNode.ShowsSent (inserted : List InsertInput) (s : BusyNode) : Prop :=
  ∃ view, Shows s.node view ∧ s.Sent inserted view

/-- What follows a post. -/
theorem BusyNode.Inv.sent_runTail (h : s.Inv memory False view) (hsent : s.Sent inserted view)
    (hmem : task ∈ s.tasks) (hunlisted : task.unlisted = tail.unlisted) (hok : tail.Ok)
    (htail : tail.Sent inserted)
    (hrun : ({ s with tasks := s.tasks.erase task } : BusyNode).runTail tail = some s') :
    s'.ShowsSent inserted := by
  have hcarried := hsent.carried.erase task
  cases tail with
  | insert listing tableName record =>
    cases listing with
    | none =>
      obtain rfl := Option.some.inj hrun
      exact ⟨view, h.holds.shows, hsent.view, hcarried⟩
    | some listing =>
      obtain ⟨hpage, hholds, -, -⟩ := h.holds.pending hmem hunlisted
      obtain ⟨node, hadd, rfl⟩ := Option.map_eq_some_iff.mp hrun
      have hshows := hpage.listAdd_shows h.holds.shows hholds hadd
      have htable : listing.tableName = tableName := hok
      rw [htable] at hshows
      exact ⟨_, hshows, hsent.view.add htail, hcarried.overtake tableName record.key⟩
  | miss request =>
    obtain rfl := Option.some.inj hrun
    exact ⟨view, h.holds.shows, hsent.view, hcarried.ask request⟩
  | fill listing request result =>
    obtain ⟨hpage, hholds, -, -⟩ := h.holds.pending hmem hunlisted
    obtain ⟨node, hadd, rfl⟩ := Option.map_eq_some_iff.mp hrun
    have hshows := hpage.listAdd_shows h.holds.shows hholds hadd
    have htable : listing.tableName = request.tableName := hok
    rw [htable] at hshows
    have hanswer : (Task.post (.answer request result)).Sent inserted := fun _ => htail
    exact ⟨_, hshows, hsent.view.add htail, hcarried.spawn hanswer⟩
  | answer request result =>
    obtain rfl := Option.some.inj hrun
    exact ⟨view, h.holds.shows, hsent.view, hcarried.answer htail⟩
  | done =>
    obtain rfl := Option.some.inj hrun
    exact ⟨view, h.holds.shows, hsent.view, hcarried⟩

/-- A batch has copies of the memory. -/
theorem BusyNode.Inv.sent_send (h : s.Inv memory False view) (hsent : s.Sent inserted view)
    (hwaiter : ∀ w ∈ waiter, w.Sent inserted) (hsend : s.send waiter = some s') :
    s'.ShowsSent inserted := by
  obtain ⟨hnamed, hnodup⟩ := h.holds.phase.named
  obtain ⟨batch, hbatch, hmem⟩ := h.holds.shows.journalBatch hnamed hnodup
  rw [BusyNode.send, hbatch] at hsend
  obtain rfl := Option.some.inj hsend
  have hjournal : JournalRequest.Sent inserted ⟨batch, waiter, none, false⟩ :=
    ⟨fun tableName record hentry => hsent.view tableName _ ((hmem tableName record).mp hentry),
      hwaiter⟩
  have hcarried := hsent.carried.send hjournal
  split
  · exact ⟨view, h.holds.shows, hsent.view, hcarried.spawn trivial⟩
  · exact ⟨view, h.holds.shows, hsent.view, hcarried⟩

theorem BusyNode.Inv.sent_runTask (h : s.Inv memory False view) (hsent : s.Sent inserted view)
    (hmem : task ∈ s.tasks)
    (hrun : ({ s with tasks := s.tasks.erase task } : BusyNode).runTask task = some s') :
    s'.ShowsSent inserted := by
  have hok := h.threads.tasks task hmem
  have htask := hsent.carried.tasks task hmem
  have hcarried := hsent.carried.erase task
  cases task with
  | post tail =>
    rw [BusyNode.runTask] at hrun
    split at hrun
    · obtain rfl := Option.some.inj hrun
      exact ⟨view, h.holds.shows, hsent.view, hcarried.spawn htask⟩
    · exact h.sent_runTail hsent hmem rfl hok htask hrun
  | raise tail =>
    exact (h.semaphore (s.semaphore + 1)).sent_runTail ⟨hsent.view, hsent.carried⟩ hmem rfl hok
      htask hrun
  | look waiter =>
    rw [BusyNode.runTask] at hrun
    split at hrun
    · exact (h.erase hmem rfl).sent_send ⟨hsent.view, hcarried⟩ htask hrun
    · obtain rfl := Option.some.inj hrun
      exact ⟨view, h.holds.shows, hsent.view, hcarried.spawn htask⟩
  | wait waiter =>
    rw [BusyNode.runTask] at hrun
    split at hrun
    · cases hrun
    · exact ((h.erase hmem rfl).semaphore (s.semaphore - 1)).sent_send ⟨hsent.view, hcarried⟩
        htask hrun

/-- `process_insert`, from the wait to the post. -/
theorem BusyNode.Inv.sent_insert (h : s.Inv memory False view) (hsent : s.Sent inserted view)
    {now later : Int64} {input : InsertInput} {ending : Option SectionEnd}
    (hundisturbed : s.Undisturbed (.insert now later input)) (hinput : input ∈ inserted)
    (hsection : insertSection s.node now later input = some ending) :
    (s.insertEnding now later input ending).ShowsSent inserted := by
  have hrecord : ∀ timestamp, SentBy inserted (toUppercase input.tableName.bytes)
      (⟨timestamp, input.key, input.value.bytes⟩ : Record).key input.value.bytes :=
    fun _ => ⟨input, hinput, rfl, rfl, rfl⟩
  by_cases hlen : input.value.bytes.length ≤ s.node.valueSize
  · obtain ⟨hquiet, hplain, hfits⟩ := hundisturbed hlen
    rcases (h.holds.wellFormed hquiet.unlisted).insertSection_shows h.holds.shows
      ⟨hplain.1, hplain.2⟩ hfits with hcase | ⟨node, view', hcase, -, -, hwrites, hshows⟩ |
        ⟨hmiss, hcase | ⟨written, listing, listed, view₁, hnew, hcase⟩⟩
    · obtain rfl := Option.some.inj (hsection.symm.trans hcase)
      exact ⟨view, h.holds.shows, hsent.view, hsent.carried.spawn trivial⟩
    · -- the page of the key is written over
      obtain rfl := Option.some.inj (hsection.symm.trans hcase)
      refine ⟨view', hshows, hsent.view.writes hwrites (hrecord later), ?_⟩
      exact (hsent.carried.overtake _ _).spawn (hrecord _)
    · obtain rfl := Option.some.inj (hsection.symm.trans hcase)
      refine ⟨view, h.holds.shows, hsent.view, hsent.carried.spawn fun w hw => ?_⟩
      obtain rfl := Option.some.inj hw
      rw [Waiter.Sent, register_record]
      exact hrecord now
    · -- the record gets a page of its own
      have hview := hsent.view.evicts hnew.evicts
      rcases hcase with hcase | hcase
      · obtain rfl := Option.some.inj (hsection.symm.trans hcase)
        exact ⟨view₁, hnew.writtenShows, hview, hsent.carried.spawn (hrecord _)⟩
      · obtain rfl := Option.some.inj (hsection.symm.trans hcase)
        refine ⟨_, hnew.shows, hview.add (hrecord now), ?_⟩
        exact (hsent.carried.overtake _ _).spawn (hrecord _)
  · have hnone : insertSection s.node now later input = some none := if_neg hlen
    obtain rfl := Option.some.inj (hsection.symm.trans hnone)
    exact ⟨view, h.holds.shows, hsent.view, hsent.carried.spawn trivial⟩

/-- `process_select`: a hit is a copy of the memory. -/
theorem BusyNode.Inv.sent_select (h : s.Inv memory False view) (hsent : s.Sent inserted view)
    {input : SelectInput} {lookup : Lookup}
    (hrequest : request = ⟨toUppercase input.tableName.bytes, input.key, s.acknowledged, false⟩)
    (hlookup : processSelect s.node input = some lookup) :
    (match lookup with
      | .hit tableName found => (s.answer request (foundRecord tableName found)).spawn (.post .done)
      | .miss => s.spawn (.post (.miss request))).ShowsSent inserted := by
  subst hrequest
  rw [h.holds.shows.processSelect_eq, Option.some.injEq] at hlookup
  cases hhead : (view.of (toUppercase input.tableName.bytes) input.key).head? with
  | some copy =>
    rw [hhead] at hlookup
    subst hlookup
    obtain ⟨hcopy, hkey⟩ := View.mem_of.mp (List.mem_of_mem_head? hhead)
    refine ⟨view, h.holds.shows, hsent.view, ?_⟩
    refine (hsent.carried.answer fun _ => ?_).spawn trivial
    exact hkey ▸ hsent.view _ copy hcopy
  | none =>
    rw [hhead] at hlookup
    subst hlookup
    exact ⟨view, h.holds.shows, hsent.view, hsent.carried.spawn trivial⟩

/-- `select_callback`, from the wait to the post. -/
theorem BusyNode.Inv.sent_selectCallback (h : s.Inv memory False view)
    (hsent : s.Sent inserted view) {result : Option RecordT} {ending : Option SectionEnd}
    (hok : ∀ record ∈ result, ResultOk request record)
    (hresult : ∀ record ∈ result,
      request.Brings inserted record.timestamp record.value.bytes)
    (hundisturbed : s.Undisturbed (.selectCallback request result))
    (hsection : Lissandra.selectCallback s.node result = some ending) :
    (s.callbackEnding request result ending).ShowsSent inserted := by
  cases result with
  | none =>
    obtain rfl := Option.some.inj hsection
    exact ⟨view, h.holds.shows, hsent.view, hsent.carried.spawn trivial⟩
  | some result =>
    have hbrings := hresult result rfl
    by_cases hnone : result.timestamp = -1 ∨ result.timestamp = -2
    · rw [Lissandra.selectCallback, if_pos hnone] at hsection
      obtain rfl := Option.some.inj hsection
      exact ⟨view, h.holds.shows, hsent.view, hsent.carried.spawn hbrings⟩
    · obtain ⟨hquiet, hplain, hfits⟩ := hundisturbed hnone
      have hvalue : result.timestamp ≠ -1 := fun heq => hnone (Or.inl heq)
      obtain ⟨htable, hkey⟩ := (hok result rfl).resolve_left hvalue
      have hrecord := hbrings hvalue
      rcases (h.holds.wellFormed hquiet.unlisted).selectCallback_shows h.holds.shows hnone hkey
        ⟨hplain.1, hplain.2⟩ hfits with hcase | ⟨written, listing, listed, view₁, hnew, hcase⟩
      · -- the record waits for a journal
        obtain rfl := Option.some.inj (hsection.symm.trans hcase)
        refine ⟨view, h.holds.shows, hsent.view, hsent.carried.spawn fun w hw => ?_⟩
        obtain rfl := Option.some.inj hw
        rw [Waiter.Sent, register_record, htable]
        exact hrecord
      · rw [htable] at hnew
        have hview := hsent.view.evicts hnew.evicts
        rcases hcase with hcase | hcase
        · obtain rfl := Option.some.inj (hsection.symm.trans hcase)
          exact ⟨view₁, hnew.writtenShows, hview, hsent.carried.spawn hrecord⟩
        · obtain rfl := Option.some.inj (hsection.symm.trans hcase)
          exact ⟨_, hnew.shows, hview.add hrecord, hsent.carried.spawn hbrings⟩

/-- `journal_callback` after a success. -/
theorem BusyNode.Inv.sent_journalCallback (h : s.Inv memory False view)
    (hsent : s.Sent inserted view) {node : MemoryNode} (hmem : journal ∈ s.journals)
    (hanswer : journal.answer = some (some 0))
    (hundisturbed : s.Undisturbed (.journalCallback journal))
    (hcallback : Lissandra.journalCallback s.node (some 0) (journal.waiter.map Waiter.register) =
      some node) :
    (({ s with node, journals := s.journals.erase journal } : BusyNode).settle
      journal.waiter).ShowsSent inserted := by
  have hwell := h.holds.wellFormed (hundisturbed hanswer).1.unlisted
  have hcarried := hsent.carried.eraseJournal journal
  have hok := (h.threads.journals journal hmem).waiter
  have hregister := (hsent.carried.journals journal hmem).waiter
  cases hcase : journal.waiter with
  | none =>
    rw [hcase] at hcallback
    obtain ⟨node', hrun, -, -, hshows⟩ :=
      @WellFormed.journalCallback_success s.node 0 hwell none fun _ hnone => absurd hnone (by simp)
    obtain rfl := Option.some.inj (hcallback.symm.trans hrun)
    exact ⟨_, hshows, View.Sent.empty, hcarried⟩
  | some waiter =>
    obtain ⟨hkey, hupper, ⟨hlegible, hfits⟩, -, hrequest⟩ := hok waiter hcase
    have hwaiter := hregister waiter hcase
    rw [hcase] at hcallback
    have hwritable : ∀ reg ∈ some waiter.register, reg.key = waiter.register.record.key.toNat ∧
        toUppercase reg.tableName = reg.tableName ∧ Legible reg.value.bytes ∧
        Fits s.node.memory (memoryText reg.timestamp waiter.register.record.key.toNat
          reg.value.bytes) := by
      intro reg hreg
      obtain rfl := Option.some.inj hreg
      refine ⟨hkey, hupper, hlegible, ?_⟩
      rw [memoryText_eq]
      exact ⟨h.holds.count.symm ▸ hfits.1, h.holds.size.symm ▸ hfits.2⟩
    obtain ⟨node', hrun, -, -, hshows⟩ := hwell.journalCallback_success hwritable
    obtain rfl := Option.some.inj (hcallback.symm.trans hrun)
    have hview : View.Sent inserted (View.empty.add waiter.register.tableName
        ⟨waiter.register.record, waiter.register.modified⟩) := View.Sent.empty.add hwaiter
    obtain ⟨reg, request⟩ := waiter
    cases request with
    | none => exact ⟨_, hshows, hview, hcarried.overtake _ _⟩
    | some request =>
      obtain ⟨htable, hkeys, -⟩ := hrequest request rfl
      refine ⟨_, hshows, hview, hcarried.answer fun _ => ?_⟩
      rw [htable, hkeys]
      exact hwaiter

/-- **One step.** -/
theorem BusyNode.Inv.sent_step (h : s.Inv memory False view) (hsent : s.Sent inserted view)
    {action : BusyNode.Action} (hundisturbed : s.Undisturbed action)
    (haction : action.Sent inserted) (hstep : s.step action = some s') :
    s'.ShowsSent inserted := by
  cases action with
  | insert now later input =>
    rw [BusyNode.step] at hstep
    split at hstep
    · cases hstep
    · obtain ⟨ending, hsection, rfl⟩ := Option.map_eq_some_iff.mp hstep
      exact (h.semaphore (s.semaphore - 1)).sent_insert ⟨hsent.view, hsent.carried⟩ hundisturbed
        haction hsection
  | select input =>
    rw [BusyNode.step] at hstep
    split at hstep
    · cases hstep
    · obtain ⟨lookup, hlookup, rfl⟩ := Option.map_eq_some_iff.mp hstep
      exact (h.semaphore (s.semaphore - 1)).sent_select ⟨hsent.view, hsent.carried⟩ rfl hlookup
  | journal =>
    obtain rfl := Option.some.inj hstep
    refine ⟨view, h.holds.shows, hsent.view, hsent.carried.spawn fun _ hnone => ?_⟩
    exact absurd hnone (by simp)
  | run task =>
    rw [BusyNode.step] at hstep
    split at hstep
    · rename_i hmem
      exact h.sent_runTask hsent hmem hstep
    · cases hstep
  | fsSelect request result =>
    rw [BusyNode.step] at hstep
    split at hstep
    · obtain rfl := Option.some.inj hstep
      refine ⟨view, h.holds.shows, hsent.view, hsent.carried.tasks, ?_, hsent.carried.journals,
        hsent.carried.answered⟩
      intro other found hother
      rcases List.mem_cons.mp hother with hpair | hother
      · obtain ⟨rfl, hresult⟩ := Prod.mk.inj hpair
        obtain rfl := Option.some.inj hresult
        exact haction
      · exact hsent.carried.selects other found (List.mem_of_mem_erase hother)
    · cases hstep
  | selectCallback request result =>
    rw [BusyNode.step] at hstep
    split at hstep
    · rename_i hmem
      obtain ⟨ending, hsection, rfl⟩ := Option.map_eq_some_iff.mp hstep
      refine ((h.semaphore (s.semaphore - 1)).eraseSelect
        (request, some result)).sent_selectCallback
          ⟨hsent.view, hsent.carried.eraseSelect (request, some result)⟩
          (fun record hrecord => ?_) (fun record hrecord => ?_) hundisturbed hsection
      · obtain rfl : result = some record := hrecord
        exact h.threads.selects request record hmem.1
      · obtain rfl : result = some record := hrecord
        exact hsent.carried.selects request record hmem.1
    · cases hstep
  | fsJournal journal outcome =>
    rw [BusyNode.step] at hstep
    split at hstep
    · rename_i hjournal
      obtain rfl := Option.some.inj hstep
      obtain ⟨hbatch, hwaiter⟩ := hsent.carried.journals journal hjournal.1
      exact ⟨view, h.holds.shows, hsent.view,
        (hsent.carried.eraseJournal journal).send ⟨hbatch, hwaiter⟩⟩
    · cases hstep
  | journalCallback journal =>
    rw [BusyNode.step] at hstep
    split at hstep
    · rename_i hmem
      obtain ⟨result, hanswer, hstep⟩ := Option.bind_eq_some_iff.mp hstep
      obtain ⟨node, hcallback, hstep⟩ := Option.bind_eq_some_iff.mp hstep
      obtain rfl := Option.some.inj hstep
      split
      · rename_i hresult
        subst hresult
        obtain ⟨view', hshows, hsent'⟩ :=
          h.sent_journalCallback hsent hmem hanswer hundisturbed hcallback
        exact ⟨view', hshows, hsent'.view, hsent'.carried.spawn trivial⟩
      · rename_i hresult
        have hfails : result = none ∨ result = some (-1) := by
          rcases (h.threads.journals journal hmem).answer with hnone | hnone | hzero | hfails
          · exact absurd (hnone.symm.trans hanswer) (by simp)
          · exact Or.inl (Option.some.inj (hanswer.symm.trans hnone))
          · exact absurd (Option.some.inj (hanswer.symm.trans hzero)) hresult
          · exact Or.inr (Option.some.inj (hanswer.symm.trans hfails))
        obtain rfl := Option.some.inj (hcallback.symm.trans (journalCallback_failure _ hfails))
        exact ⟨view, h.holds.shows, hsent.view,
          (hsent.carried.eraseJournal journal).spawn trivial⟩
    · cases hstep

end Steps

end Lissandra
