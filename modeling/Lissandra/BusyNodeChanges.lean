import Lissandra.BusyNodeInvariant

/-! # Changes of a busy node

What a step does to the state is put together from a few changes: tasks come and go, a page
is listed or evicted, an INSERT takes effect, a journal is sent, answered or succeeds.  Each
keeps the invariant `BusyNode.Inv`, where `fresh` says whether reads are followed too.
-/
namespace Lissandra

/-- What holds of everything but the pages. -/
structure BusyNode.Carries (memory : MainMemory) (fresh : Prop) (s : BusyNode)
    (view : View) : Prop where
  threads : s.Threads memory
  kept : s.Kept view
  reads : fresh → s.Reads view

/-- All that holds between steps. -/
structure BusyNode.Inv (memory : MainMemory) (fresh : Prop) (s : BusyNode) (view : View) : Prop
    extends s.Carries memory fresh view where
  holds : s.Holds memory view

section Changes
variable {memory : MainMemory} {fresh : Prop} {s : BusyNode} {view view' : View} {node : MemoryNode}
  {task : Task} {tasks : List Task} {listing : Listing} {copy : Copy Record}
  {request : SelectRequest} {tableName : Bytes} {key : UInt16} {record : Record}
  {journal : JournalRequest}

/-! ## Pages to be listed -/

theorem Task.unlisted_eq_none_iff : task.unlisted = none ↔ task.listing = none := by
  have htail : ∀ tail : Tail, tail.unlisted = none ↔ tail.listing = none := by
    intro tail
    cases tail with
    | insert listing tableName record =>
      cases listing <;> simp [Tail.unlisted, Tail.listing]
    | fill listing request result => simp [Tail.unlisted, Tail.listing]
    | miss request => simp [Tail.unlisted, Tail.listing]
    | answer request result => simp [Tail.unlisted, Tail.listing]
    | done => simp [Tail.unlisted, Tail.listing]
  cases task with
  | post tail => exact htail tail
  | raise tail => exact htail tail
  | look waiter => simp [Task.unlisted, Task.listing]
  | wait waiter => simp [Task.unlisted, Task.listing]

theorem Phase.perm {pages pages' : List (Listing × Copy Record)} (h : Phase node view pages)
    (hperm : pages.Perm pages') : Phase node view pages' := by
  cases h with
  | listed wellFormed =>
    rw [hperm.symm.eq_nil]
    exact .listed wellFormed
  | unlisted unlisted holds miss =>
    rw [hperm.symm.eq_singleton]
    exact .unlisted unlisted holds miss

theorem Phase.named {pages : List (Listing × Copy Record)} (h : Phase node view pages) :
    Named node.segmentList ∧ (indexesOf node.segmentList).Nodup := by
  cases h with
  | listed wellFormed => exact ⟨wellFormed.named, wellFormed.owns.nodup⟩
  | unlisted unlisted => exact ⟨unlisted.named, (List.nodup_cons.mp unlisted.owns.nodup).2⟩

theorem unlisted_erase (hmem : task ∈ tasks) :
    (tasks.filterMap Task.unlisted).Perm
      (task.unlisted.toList ++ (tasks.erase task).filterMap Task.unlisted) := by
  have hperm := (List.perm_cons_erase hmem).filterMap Task.unlisted
  cases htask : task.unlisted with
  | none => rwa [List.filterMap_cons_none htask] at hperm
  | some page => rwa [List.filterMap_cons_some htask] at hperm

/-- Where no thread has a page to list the memory is well formed. -/
theorem BusyNode.Holds.wellFormed (h : s.Holds memory view)
    (hquiet : ∀ task ∈ s.tasks, task.unlisted = none) : WellFormed s.node := by
  have hnil : s.unlisted = [] := List.filterMap_eq_nil_iff.mpr hquiet
  have hphase := h.phase
  rw [hnil] at hphase
  cases hphase with
  | listed wellFormed => exact wellFormed

/-- The page that a thread has to list is the only one. -/
theorem BusyNode.Holds.pending (h : s.Holds memory view) (hmem : task ∈ s.tasks)
    (hunlisted : task.unlisted = some (listing, copy)) :
    Unlisted s.node listing ∧ PageHolds s.node.memory listing.page copy ∧
      (copy.modified = true → view.of listing.tableName copy.record.key = []) ∧
      ∀ other ∈ s.tasks.erase task, other.unlisted = none := by
  have hphase := h.phase.perm (unlisted_erase hmem)
  rw [hunlisted, Option.toList_some, List.singleton_append] at hphase
  generalize hrest : (s.tasks.erase task).filterMap Task.unlisted = rest at hphase
  cases hphase with
  | unlisted unlisted holds miss =>
    exact ⟨unlisted, holds, miss, List.filterMap_eq_nil_iff.mp hrest⟩

/-- A memory that is well formed, while no thread has a page to list. -/
theorem BusyNode.Holds.of_wellFormed (hsize : s.node.memory.totalPageSize = memory.totalPageSize)
    (hcount : s.node.memory.totalPageCount = memory.totalPageCount) (hshows : Shows s.node view)
    (hwell : WellFormed s.node) (hquiet : ∀ task ∈ s.tasks, task.unlisted = none) :
    s.Holds memory view := by
  have hnil : s.unlisted = [] := List.filterMap_eq_nil_iff.mpr hquiet
  exact ⟨hsize, hcount, hshows, hnil ▸ .listed hwell⟩

/-- A page is written, and a thread goes on to list it. -/
theorem BusyNode.Holds.of_unlisted (hsize : s.node.memory.totalPageSize = memory.totalPageSize)
    (hcount : s.node.memory.totalPageCount = memory.totalPageCount) (hshows : Shows s.node view)
    (hunlisted : Unlisted s.node listing) (hholds : PageHolds s.node.memory listing.page copy)
    (hmiss : copy.modified = true → view.of listing.tableName copy.record.key = [])
    (hquiet : ∀ task ∈ s.tasks, task.unlisted = none)
    (htask : task.unlisted = some (listing, copy)) : (s.spawn task).Holds memory view := by
  have hpages : (s.spawn task).unlisted = [(listing, copy)] := by
    rw [BusyNode.unlisted, BusyNode.spawn, List.filterMap_cons_some htask,
      List.filterMap_eq_nil_iff.mpr hquiet]
  exact ⟨hsize, hcount, hshows, hpages ▸ .unlisted hunlisted hholds hmiss⟩

/-! ## Threads -/

theorem BusyNode.Inv.semaphore (h : s.Inv memory fresh view) (semaphore : Nat) :
    ({ s with semaphore } : BusyNode).Inv memory fresh view :=
  ⟨⟨⟨h.threads.tasks, h.threads.journals, h.threads.selects⟩,
    ⟨h.kept.batches, h.kept.confirmed, h.kept.written⟩, fun hfresh => { h.reads hfresh with }⟩,
    ⟨h.holds.size, h.holds.count, h.holds.shows, h.holds.phase⟩⟩

theorem BusyNode.Carries.changeTasks (h : s.Carries memory fresh view)
    (htasks : ∀ task ∈ tasks, task ∈ s.tasks ∨ task.Ok memory ∧
      (fresh → task.Reads s.stored s.last)) :
    ({ s with tasks } : BusyNode).Carries memory fresh view := by
  refine ⟨⟨fun task hmem => ?_, h.threads.journals, h.threads.selects⟩,
    ⟨h.kept.batches, h.kept.confirmed, h.kept.written⟩,
    fun hfresh => { h.reads hfresh with tasks := fun task hmem => ?_ }⟩
  · exact (htasks task hmem).elim (h.threads.tasks task) And.left
  · exact (htasks task hmem).elim ((h.reads hfresh).tasks task) fun hnew => hnew.2 hfresh

/-- Other tasks, with the same page to list. -/
theorem BusyNode.Inv.changeTasks (h : s.Inv memory fresh view)
    (hunlisted : s.unlisted.Perm (tasks.filterMap Task.unlisted))
    (htasks : ∀ task ∈ tasks, task ∈ s.tasks ∨ task.Ok memory ∧
      (fresh → task.Reads s.stored s.last)) :
    ({ s with tasks } : BusyNode).Inv memory fresh view :=
  ⟨h.toCarries.changeTasks htasks,
    ⟨h.holds.size, h.holds.count, h.holds.shows, h.holds.phase.perm hunlisted⟩⟩

theorem BusyNode.Inv.spawn (h : s.Inv memory fresh view) (hunlisted : task.unlisted = none)
    (hok : task.Ok memory) (hreads : fresh → task.Reads s.stored s.last) :
    (s.spawn task).Inv memory fresh view := by
  refine h.changeTasks ?_ fun other hmem => ?_
  · rw [List.filterMap_cons_none hunlisted]
    exact .refl _
  · rcases List.mem_cons.mp hmem with rfl | hmem
    · exact Or.inr ⟨hok, hreads⟩
    · exact Or.inl hmem

theorem BusyNode.Inv.erase (h : s.Inv memory fresh view) (hmem : task ∈ s.tasks)
    (hunlisted : task.unlisted = none) :
    ({ s with tasks := s.tasks.erase task } : BusyNode).Inv memory fresh view := by
  refine h.changeTasks ?_ fun other hother => Or.inl (List.mem_of_mem_erase hother)
  have hperm := unlisted_erase hmem
  rwa [hunlisted] at hperm

/-- A thread goes on with the same page to list. -/
theorem BusyNode.Inv.advance (h : s.Inv memory fresh view) {next : Task} (hmem : task ∈ s.tasks)
    (hunlisted : next.unlisted = task.unlisted) (hok : task.Ok memory → next.Ok memory)
    (hreads : task.Reads s.stored s.last → next.Reads s.stored s.last) :
    ({ s with tasks := next :: s.tasks.erase task } : BusyNode).Inv memory fresh view := by
  refine h.changeTasks ?_ fun other hother => ?_
  · have hperm := unlisted_erase hmem
    cases hnext : next.unlisted with
    | none =>
      rw [← hunlisted, hnext] at hperm
      rwa [List.filterMap_cons_none hnext]
    | some page =>
      rw [← hunlisted, hnext] at hperm
      rwa [List.filterMap_cons_some hnext]
  · rcases List.mem_cons.mp hother with rfl | hother
    · exact Or.inr ⟨hok (h.threads.tasks task hmem), fun hfresh =>
        hreads ((h.reads hfresh).tasks task hmem)⟩
    · exact Or.inl (List.mem_of_mem_erase hother)

/-! ## Requests and answers -/

theorem BusyNode.Inv.changeSelects (h : s.Inv memory fresh view)
    {selects : List (SelectRequest × Option (Option RecordT))}
    (hreplied : ∀ request result, (request, some (some result)) ∈ selects →
      (request, some (some result)) ∈ s.selects ∨
        ResultOk request result ∧ (fresh → request.Replied s.last (request.record result)))
    (hasked : ∀ request, (request, none) ∈ selects →
      (request, none) ∈ s.selects ∨ (fresh → request.Asked s.stored s.last)) :
    ({ s with selects } : BusyNode).Inv memory fresh view := by
  refine ⟨⟨⟨h.threads.tasks, h.threads.journals, fun request result hmem => ?_⟩,
    ⟨h.kept.batches, h.kept.confirmed, h.kept.written⟩,
    fun hfresh => { h.reads hfresh with
      asked := fun request hmem => ?_
      replied := fun request result hmem => ?_ }⟩,
    ⟨h.holds.size, h.holds.count, h.holds.shows, h.holds.phase⟩⟩
  · exact (hreplied request result hmem).elim (h.threads.selects request result) And.left
  · exact (hasked request hmem).elim ((h.reads hfresh).asked request) fun hnew => hnew hfresh
  · exact (hreplied request result hmem).elim ((h.reads hfresh).replied request result)
      fun hnew => hnew.2 hfresh

theorem BusyNode.Inv.eraseSelect (h : s.Inv memory fresh view)
    (select : SelectRequest × Option (Option RecordT)) :
    ({ s with selects := s.selects.erase select } : BusyNode).Inv memory fresh view :=
  h.changeSelects (fun _ _ hmem => Or.inl (List.mem_of_mem_erase hmem))
    fun _ hmem => Or.inl (List.mem_of_mem_erase hmem)

theorem BusyNode.Inv.answer (h : s.Inv memory fresh view) {answered : AnsweredRecord}
    (hanswered : fresh → AnsweredFresh request answered) :
    (s.answer request answered).Inv memory fresh view := by
  refine ⟨⟨⟨h.threads.tasks, h.threads.journals, h.threads.selects⟩,
    ⟨h.kept.batches, h.kept.confirmed, h.kept.written⟩,
    fun hfresh => { h.reads hfresh with answered := fun other record hmem => ?_ }⟩,
    ⟨h.holds.size, h.holds.count, h.holds.shows, h.holds.phase⟩⟩
  rcases List.mem_cons.mp hmem with heq | hmem
  · obtain ⟨rfl, rfl⟩ := Prod.mk.inj heq
    exact hanswered hfresh
  · exact (h.reads hfresh).answered other record hmem

theorem BusyNode.Inv.acknowledge (h : s.Inv memory fresh view)
    (hrecord : fresh → Behind time (s.last tableName record.key) record) :
    (s.acknowledge tableName record).Inv memory fresh view := by
  refine ⟨⟨⟨h.threads.tasks, h.threads.journals, h.threads.selects⟩,
    ⟨h.kept.batches, h.kept.confirmed, h.kept.written⟩,
    fun hfresh => { h.reads hfresh with acknowledged := fun other found hmem => ?_ }⟩,
    ⟨h.holds.size, h.holds.count, h.holds.shows, h.holds.phase⟩⟩
  rcases List.mem_cons.mp hmem with heq | hmem
  · obtain ⟨rfl, rfl⟩ := Prod.mk.inj heq
    exact hrecord hfresh
  · exact (h.reads hfresh).acknowledged other found hmem

/-! ## Pages -/

/-- A modified first copy stays where it is. -/
theorem View.head_of_evicts (hevicts : view' = view ∨ view.Evicts view')
    (hhead : (view.of tableName key).head? = some ⟨record, true⟩) :
    (view'.of tableName key).head? = some ⟨record, true⟩ := by
  rcases hevicts with rfl | hevicts
  · exact hhead
  · rcases hevicts.of tableName key with heq | ⟨before, found, after, hsplit, hclean, heq⟩
    · rwa [heq]
    · rw [hsplit] at hhead
      rw [heq]
      cases before with
      | nil =>
        obtain rfl := Option.some.inj hhead
        exact absurd hclean (by simp)
      | cons first before => exact hhead

theorem View.head_of_add {other : Bytes} (hhead : (view.of other key).head? = some ⟨record, true⟩) :
    ((view.add tableName copy).of other key).head? = some ⟨record, true⟩ := by
  rw [View.of_add]
  split
  · rw [List.head?_append, hhead, Option.some_or]
  · exact hhead

/-- Unmodified copies go. -/
theorem BusyNode.Carries.evicts (h : s.Carries memory fresh view)
    (hevicts : view' = view ∨ view.Evicts view') : s.Carries memory fresh view' := by
  refine ⟨h.threads, ⟨fun journal hmem hovertaken other found hfound => ?_, h.kept.confirmed,
    fun hwritten => ?_⟩, fun hfresh => { h.reads hfresh with
      coherent := (h.reads hfresh).coherent.evicts hevicts }⟩
  · exact h.kept.batches journal hmem hovertaken other found (View.mem_of_evicts hevicts hfound)
  · exact ⟨(h.kept.written hwritten).1, (h.kept.written hwritten).2.imp_left
      (View.head_of_evicts hevicts)⟩

/-- The record that was written last comes to memory. -/
theorem BusyNode.Carries.fill (h : s.Carries memory fresh view)
    (hlast : fresh → s.last tableName record.key = some record) :
    s.Carries memory fresh (view.add tableName ⟨record, false⟩) := by
  refine ⟨h.threads, ⟨fun journal hmem hovertaken other found hfound => ?_, h.kept.confirmed,
    fun hwritten => ?_⟩, fun hfresh => { h.reads hfresh with
      coherent := (h.reads hfresh).coherent.fill (hlast hfresh) }⟩
  · rcases View.mem_of_add hfound with hfound | heq
    · exact h.kept.batches journal hmem hovertaken other found hfound
    · exact absurd (congrArg Copy.modified heq.2) (by simp)
  · exact ⟨(h.kept.written hwritten).1, (h.kept.written hwritten).2.imp_left View.head_of_add⟩

theorem BusyNode.Carries.changeNode (h : s.Carries memory fresh view) (node : MemoryNode) :
    ({ s with node } : BusyNode).Carries memory fresh view :=
  ⟨⟨h.threads.tasks, h.threads.journals, h.threads.selects⟩,
    ⟨h.kept.batches, h.kept.confirmed, h.kept.written⟩, fun hfresh => { h.reads hfresh with }⟩

/-! ## An INSERT takes effect -/

theorem last_takesEffect : (s.takesEffect tableName record).last = s.last.set tableName record := by
  funext other key
  simp only [BusyNode.last, BusyNode.takesEffect, Last.set]
  split
  · rfl
  · rfl

theorem ResultOk.overtake {result : RecordT} (h : ResultOk request result) :
    ResultOk (request.overtake tableName key) result := by
  obtain ⟨htable, hkey, -⟩ := overtake_fields tableName key request
  rw [ResultOk, htable, hkey]
  exact h

theorem record_overtake {result : RecordT} :
    (request.overtake tableName key).record result = request.record result := by
  rw [SelectRequest.record, SelectRequest.record, (overtake_fields _ _ _).2.1]

theorem BusyNode.Threads.takesEffect (h : s.Threads memory) :
    (s.takesEffect tableName record).Threads memory := by
  refine ⟨fun task hmem => ?_, fun journal hmem => ?_, fun request result hmem => ?_⟩
  · obtain ⟨old, hold, rfl⟩ := List.mem_map.mp hmem
    exact (h.tasks old hold).overtake
  · obtain ⟨old, hold, rfl⟩ := List.mem_map.mp hmem
    refine ⟨fun waiter hwaiter => ?_, (h.journals old hold).answer⟩
    obtain ⟨oldWaiter, holdWaiter, rfl⟩ := Option.map_eq_some_iff.mp hwaiter
    exact ((h.journals old hold).waiter oldWaiter holdWaiter).overtake
  · obtain ⟨⟨old, answer⟩, hold, heq⟩ := List.mem_map.mp hmem
    obtain ⟨rfl, rfl⟩ := Prod.mk.inj heq
    exact (h.selects old result hold).overtake

/-- The record is in the first copy of its key, and journals in flight are overtaken. -/
theorem BusyNode.Kept.takesEffect (h : s.Kept view)
    (hof : ∀ other key, view'.of other key = if other = tableName ∧ key = record.key then
      ⟨record, true⟩ :: (view.of other key).tail else view.of other key) :
    (s.takesEffect tableName record).Kept view' := by
  refine ⟨fun journal hmem hovertaken => ?_, fun journal hmem => ?_,
    fun {other key found} hwritten => ?_⟩
  · obtain ⟨old, -, rfl⟩ := List.mem_map.mp hmem
    exact absurd hovertaken (by simp [JournalRequest.overtake])
  · obtain ⟨old, hold, rfl⟩ := List.mem_map.mp hmem
    exact h.confirmed old hold
  · rw [hof]
    have hset : s.written.set tableName record other key = some found := hwritten
    rw [Last.set] at hset
    split at hset
    · rename_i hkey
      obtain rfl := Option.some.inj hset
      rw [if_pos hkey]
      exact ⟨hkey.2.symm, Or.inl rfl⟩
    · rename_i hkey
      rw [if_neg hkey]
      exact h.written hset

theorem BusyNode.Reads.takesEffect (h : s.Reads view)
    (hquiet : ∀ task ∈ s.tasks, task.unlisted = none)
    (hlater : ∀ other, s.last tableName record.key = some other → time other < time record)
    (hcoherent : CoherentView s.stored (s.last.set tableName record) view') :
    (s.takesEffect tableName record).Reads view' := by
  have hbehind : ∀ {other : Bytes} {found : Record}, Behind time (s.last other found.key) found →
      Behind time ((s.takesEffect tableName record).last other found.key) found := by
    intro other found hfound
    rw [last_takesEffect]
    exact hfound.set hlater
  constructor
  case coherent => exact last_takesEffect ▸ hcoherent
  case batches =>
    intro journal hmem other found hfound
    obtain ⟨old, hold, rfl⟩ := List.mem_map.mp hmem
    exact hbehind (h.batches old hold other found hfound)
  case stored =>
    intro journal hmem
    obtain ⟨old, hold, rfl⟩ := List.mem_map.mp hmem
    exact h.stored old hold
  case waiters =>
    intro journal hmem waiter hwaiter
    obtain ⟨old, hold, rfl⟩ := List.mem_map.mp hmem
    obtain ⟨oldWaiter, holdWaiter, rfl⟩ := Option.map_eq_some_iff.mp hwaiter
    rw [last_takesEffect]
    exact (h.waiters old hold oldWaiter holdWaiter).overtake
  case tasks =>
    intro task hmem
    obtain ⟨old, hold, rfl⟩ := List.mem_map.mp hmem
    rw [last_takesEffect]
    exact (h.tasks old hold).overtake (hquiet old hold) hlater
  case asked =>
    intro request hmem
    obtain ⟨⟨old, answer⟩, hold, heq⟩ := List.mem_map.mp hmem
    obtain ⟨rfl, rfl⟩ := Prod.mk.inj heq
    rw [last_takesEffect]
    exact (h.asked old hold).overtake
  case replied =>
    intro request result hmem
    obtain ⟨⟨old, answer⟩, hold, heq⟩ := List.mem_map.mp hmem
    obtain ⟨rfl, rfl⟩ := Prod.mk.inj heq
    rw [last_takesEffect, record_overtake]
    exact (h.replied old result hold).overtake
  case acknowledged =>
    intro other found hmem
    exact hbehind (h.acknowledged other found hmem)
  case answered => exact h.answered
  case keyed =>
    intro other key found hfound
    rw [last_takesEffect, Last.set] at hfound
    split at hfound
    · rename_i hkey
      obtain rfl := Option.some.inj hfound
      exact hkey.2.symm
    · exact h.keyed hfound

/-- An INSERT over the first copy of its key, or where there is none. -/
theorem BusyNode.Carries.write (h : s.Carries memory fresh view)
    (hquiet : ∀ task ∈ s.tasks, task.unlisted = none)
    (hview : view.Writes tableName record view' ∨
      view' = view.add tableName ⟨record, true⟩ ∧ view.of tableName record.key = [])
    (hlater : fresh → ∀ other, s.last tableName record.key = some other →
      time other < time record) :
    (s.takesEffect tableName record).Carries memory fresh view' := by
  refine ⟨h.threads.takesEffect, h.kept.takesEffect fun other key => ?_, fun hfresh => ?_⟩
  · rcases hview with hwrites | ⟨rfl, hmiss⟩
    · exact hwrites.of other key
    · rw [View.of_add]
      split
      · rename_i hkey
        rw [hkey.1, hkey.2, hmiss]
        rfl
      · rfl
  · have hreads := h.reads hfresh
    have hstored : ∀ other ∈ ofKey record.key (s.stored tableName), time other < time record := by
      intro other hmem
      obtain ⟨last, hlast, hle⟩ := (hreads.coherent tableName record.key).le hmem
      exact hle.trans_lt (hlater hfresh last hlast)
    refine hreads.takesEffect hquiet (hlater hfresh) ?_
    rcases hview with hwrites | ⟨rfl, hmiss⟩
    · exact hreads.coherent.write hwrites hstored
    · exact hreads.coherent.write_new hmiss hstored

theorem takesEffect_quiet (hquiet : ∀ task ∈ s.tasks, task.unlisted = none) :
    ∀ task ∈ (s.takesEffect tableName record).tasks, task.unlisted = none := by
  intro task hmem
  obtain ⟨old, hold, rfl⟩ := List.mem_map.mp hmem
  rw [Task.unlisted_overtake]
  exact hquiet old hold

/-! ## Journals -/

/-- Journals are sent, with what is modified, or go. -/
theorem BusyNode.Inv.changeJournals (h : s.Inv memory fresh view) {journals : List JournalRequest}
    (hjournals : ∀ journal ∈ journals, journal ∈ s.journals ∨ journal.Ok memory ∧
      journal.answer = none ∧ (∀ tableName record, (tableName, record) ∈ journal.batch ↔
        ⟨record, true⟩ ∈ view tableName) ∧
      (fresh → ∀ waiter ∈ journal.waiter, waiter.Reads s.last)) :
    ({ s with journals } : BusyNode).Inv memory fresh view := by
  refine ⟨⟨⟨h.threads.tasks, fun journal hmem => ?_, h.threads.selects⟩,
    ⟨fun journal hmem hovertaken => ?_, fun journal hmem hanswer => ?_, h.kept.written⟩,
    fun hfresh => { h.reads hfresh with
      batches := fun journal hmem tableName record hrecord => ?_
      stored := fun journal hmem hanswer => ?_
      waiters := fun journal hmem => ?_ }⟩,
    ⟨h.holds.size, h.holds.count, h.holds.shows, h.holds.phase⟩⟩
  · exact (hjournals journal hmem).elim (h.threads.journals journal) And.left
  · rcases hjournals journal hmem with hold | ⟨-, -, hbatch, -⟩
    · exact h.kept.batches journal hold hovertaken
    · exact fun tableName record => (hbatch tableName record).mpr
  · rcases hjournals journal hmem with hold | ⟨-, hnone, -⟩
    · exact h.kept.confirmed journal hold hanswer
    · exact absurd (hnone.symm.trans hanswer) (by simp)
  · rcases hjournals journal hmem with hold | ⟨-, -, hbatch, -⟩
    · exact (h.reads hfresh).batches journal hold tableName record hrecord
    · have hlast := (h.reads hfresh).coherent.of_modified ((hbatch tableName record).mp hrecord)
      exact ⟨record, hlast, Or.inr rfl⟩
  · rcases hjournals journal hmem with hold | ⟨-, hnone, -⟩
    · exact (h.reads hfresh).stored journal hold hanswer
    · exact absurd (hnone.symm.trans hanswer) (by simp)
  · rcases hjournals journal hmem with hold | ⟨-, -, -, hwaiter⟩
    · exact (h.reads hfresh).waiters journal hold
    · exact hwaiter hfresh

theorem BusyNode.Inv.eraseJournal (h : s.Inv memory fresh view) (journal : JournalRequest) :
    ({ s with journals := s.journals.erase journal } : BusyNode).Inv memory fresh view :=
  h.changeJournals fun _ hmem => Or.inl (List.mem_of_mem_erase hmem)

/-- `journaling` can always send its batch. -/
theorem BusyNode.Inv.send (h : s.Inv memory fresh view) {waiter : Option Waiter}
    (hok : ∀ w ∈ waiter, w.Ok memory) (hreads : fresh → ∀ w ∈ waiter, w.Reads s.last) :
    ∃ s', s.send waiter = some s' ∧ s'.Inv memory fresh view := by
  obtain ⟨hnamed, hnodup⟩ := h.holds.phase.named
  obtain ⟨batch, hbatch, hmem⟩ := h.holds.shows.journalBatch hnamed hnodup
  have hsent : ({ s with journals := ⟨batch, waiter, none, false⟩ :: s.journals } : BusyNode).Inv
      memory fresh view := by
    refine h.changeJournals fun journal hjournal => ?_
    rcases List.mem_cons.mp hjournal with rfl | hjournal
    · exact Or.inr ⟨⟨hok, Or.inl rfl⟩, rfl, hmem, hreads⟩
    · exact Or.inl hjournal
  rw [BusyNode.send, hbatch, Option.bind_eq_bind, Option.bind_some]
  split
  · exact ⟨_, rfl, hsent.spawn rfl trivial fun _ => trivial⟩
  · exact ⟨_, rfl, hsent⟩

theorem SelectRequest.Asked.store {stored : Stored} {last : Last} {records : List (Bytes × Record)}
    (h : request.Asked stored last) (hbehind : ∀ tableName record, (tableName, record) ∈ records →
      Behind time (last tableName record.key) record) :
      request.Asked (stored.store records) last := by
  obtain ⟨late, hsplit, hlate⟩ := ofKey_store stored records request.tableName request.key
  refine ⟨fun other hmem hkey => ?_, fun hcurrent => ?_⟩
  · rw [hsplit]
    exact (h.seen other hmem hkey).append
  · rw [hsplit]
    refine argmax_append_of_behind (fun record hmem => ?_) (h.current hcurrent)
    obtain ⟨hrecord, hkey⟩ := hlate record hmem
    rw [← hkey]
    exact hbehind request.tableName record hrecord

theorem Task.Reads.store {stored : Stored} {last : Last} {records : List (Bytes × Record)}
    (h : task.Reads stored last) (hbehind : ∀ tableName record, (tableName, record) ∈ records →
      Behind time (last tableName record.key) record) : task.Reads (stored.store records) last := by
  have htail : ∀ tail : Tail, tail.Reads stored last → tail.Reads (stored.store records) last := by
    intro tail htail
    cases tail with
    | miss request => exact SelectRequest.Asked.store htail hbehind
    | insert listing tableName record =>
      cases listing with
      | none => exact htail
      | some listing => exact htail
    | fill listing request result => exact htail
    | answer request result => exact htail
    | done => trivial
  cases task with
  | post tail => exact htail tail h
  | raise tail => exact htail tail h
  | look waiter => exact h
  | wait waiter => exact h

/-- The filesystem does its part of a journal. -/
theorem BusyNode.Inv.storeBatch (h : s.Inv memory fresh view) (hmem : journal ∈ s.journals)
    {outcome : JournalOutcome} (houtcome : outcome.Of journal.batch) :
    ({ s with
      journals := { journal with answer := some outcome.answer } :: s.journals.erase journal
      stored := s.stored.store outcome.kept
      confirmed := if outcome.answer = some 0 then journal.batch ++ s.confirmed else s.confirmed } :
        BusyNode).Inv memory fresh view := by
  -- what was confirmed stays confirmed, and what is stored was written once
  have hconfirmed : s.confirmed ⊆
      if outcome.answer = some 0 then journal.batch ++ s.confirmed else s.confirmed := by
    split
    · exact List.subset_append_right _ _
    · exact List.Subset.refl _
  have hbehind : fresh → ∀ tableName record, (tableName, record) ∈ outcome.kept →
      Behind time (s.last tableName record.key) record :=
    fun hfresh tableName record hkept =>
      (h.reads hfresh).batches journal hmem tableName record (houtcome.1 hkept)
  refine ⟨⟨⟨h.threads.tasks, fun other hother => ?_, h.threads.selects⟩,
    ⟨fun other hother => ?_, fun other hother hanswer => ?_, fun hwritten => ?_⟩,
    fun hfresh => { h.reads hfresh with
      coherent := (h.reads hfresh).coherent.store (hbehind hfresh)
      batches := fun other hother => ?_
      stored := fun other hother hanswer tableName record hrecord => ?_
      waiters := fun other hother => ?_
      tasks := fun task htask => ((h.reads hfresh).tasks task htask).store (hbehind hfresh)
      asked := fun request hrequest => ((h.reads hfresh).asked request hrequest).store
        (hbehind hfresh) }⟩,
    ⟨h.holds.size, h.holds.count, h.holds.shows, h.holds.phase⟩⟩
  · rcases List.mem_cons.mp hother with rfl | hother
    · refine ⟨(h.threads.journals journal hmem).waiter, Or.inr ?_⟩
      rcases houtcome.2 with ⟨hanswer, -⟩ | hanswer | hanswer
      · exact Or.inr (Or.inl (congrArg some hanswer))
      · exact Or.inl (congrArg some hanswer)
      · exact Or.inr (Or.inr (congrArg some hanswer))
    · exact h.threads.journals other (List.mem_of_mem_erase hother)
  · rcases List.mem_cons.mp hother with rfl | hother
    · exact h.kept.batches journal hmem
    · exact h.kept.batches other (List.mem_of_mem_erase hother)
  · rcases List.mem_cons.mp hother with rfl | hother
    · rw [if_pos (Option.some.inj hanswer)]
      exact List.subset_append_left _ _
    · exact List.Subset.trans (h.kept.confirmed other (List.mem_of_mem_erase hother) hanswer)
        hconfirmed
  · exact ⟨(h.kept.written hwritten).1, (h.kept.written hwritten).2.imp_right (hconfirmed ·)⟩
  · rcases List.mem_cons.mp hother with rfl | hother
    · exact (h.reads hfresh).batches journal hmem
    · exact (h.reads hfresh).batches other (List.mem_of_mem_erase hother)
  · rcases List.mem_cons.mp hother with rfl | hother
    · -- an answer of success says that the whole batch was stored
      rcases houtcome.2 with ⟨-, hkept⟩ | hfails | hfails
      · exact mem_store.mpr (Or.inr (hkept hrecord))
      · exact absurd (hfails.symm.trans (Option.some.inj hanswer)) (by simp)
      · exact absurd (hfails.symm.trans (Option.some.inj hanswer)) (by decide)
    · exact mem_store.mpr (Or.inl ((h.reads hfresh).stored other (List.mem_of_mem_erase hother)
        hanswer tableName record hrecord))
  · rcases List.mem_cons.mp hother with rfl | hother
    · exact (h.reads hfresh).waiters journal hmem
    · exact (h.reads hfresh).waiters other (List.mem_of_mem_erase hother)

/-- A journal that was not overtaken succeeds, and all copies go. -/
theorem BusyNode.Inv.wipe (h : s.Inv memory fresh view) (hmem : journal ∈ s.journals)
    (hanswer : journal.answer = some (some 0)) (hovertaken : journal.overtaken = false) :
    ({ s with journals := s.journals.erase journal } : BusyNode).Carries memory fresh
      View.empty := by
  have herased := (h.eraseJournal journal).toCarries
  refine ⟨herased.threads, ⟨fun other hother _ tableName record hrecord =>
    absurd hrecord List.not_mem_nil, herased.kept.confirmed, fun {tableName key record} hwritten =>
      ?_⟩, fun hfresh =>
      { herased.reads hfresh with
        coherent := (h.reads hfresh).coherent.wipe fun tableName record hmodified => ?_ }⟩
  · obtain ⟨hkey, hhead | hconfirmed⟩ := h.kept.written hwritten
    · have hmodified := (View.mem_of.mp (List.mem_of_mem_head? hhead)).1
      have hbatch := h.kept.batches journal hmem hovertaken tableName record hmodified
      exact ⟨hkey, Or.inr (h.kept.confirmed journal hmem hanswer hbatch)⟩
    · exact ⟨hkey, Or.inr hconfirmed⟩
  · exact (h.reads hfresh).stored journal hmem hanswer tableName record
      (h.kept.batches journal hmem hovertaken tableName record hmodified)

end Changes

end Lissandra
