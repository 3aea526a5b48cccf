import Lissandra.BusyNodeChanges

/-! # The steps of a busy node

The steps that keep the invariant.  A step is `Undisturbed` where no thread writes pages, or
throws them away, between the post and the `list_add` of another one, where no INSERT took
effect while the journal that succeeds was in flight, and where records can be told apart in
a page.  It is `InOrder` where moreover an INSERT gets a later timestamp than what was
written before, and no answer of the filesystem comes to memory after an INSERT of its key.
-/
namespace Lissandra

/-! ## Conditions on a step -/

/-- No thread has a page to list. -/
def BusyNode.Quiet (s : BusyNode) : Prop := ∀ task ∈ s.tasks, task.listing = none

instance (s : BusyNode) : Decidable s.Quiet := inferInstanceAs (Decidable (∀ task ∈ s.tasks, _))

/-- A value that a page can hold. -/
def Plain (value : Bytes) : Prop := value ≠ [] ∧ semicolon ∉ value

instance (value : Bytes) : Decidable (Plain value) := inferInstanceAs (Decidable (_ ∧ _))

def BusyNode.Undisturbed (s : BusyNode) : BusyNode.Action → Prop
  | .insert now later input => input.value.bytes.length ≤ s.node.valueSize →
    s.Quiet ∧ Plain input.value.bytes ∧ (NodeOp.processInsert now later input).Fits s.node
  | .selectCallback _ (some result) => ¬(result.timestamp = -1 ∨ result.timestamp = -2) →
    s.Quiet ∧ Plain result.value.bytes ∧ (NodeOp.selectCallback (some result)).Fits s.node
  | .journalCallback journal => journal.answer = some (some 0) → s.Quiet ∧ journal.overtaken = false
  | _ => True

/-- The record is later than the one of its key that was written last. -/
def BusyNode.Later (s : BusyNode) (tableName : Bytes) (record : Record) : Prop :=
  ∀ other ∈ s.last tableName record.key, time other < time record

instance (s : BusyNode) (tableName : Bytes) (record : Record) :
    Decidable (s.Later tableName record) :=
  inferInstanceAs (Decidable (∀ other ∈ _, _))

def BusyNode.InOrder (s : BusyNode) : BusyNode.Action → Prop
  | .insert now later input => input.value.bytes.length ≤ s.node.valueSize →
    s.Later (toUppercase input.tableName.bytes) (writtenRecord s.node now later input)
  | .selectCallback request (some result) => ¬(result.timestamp = -1 ∨ result.timestamp = -2) →
    request.overtaken = false
  | .journalCallback journal => journal.answer = some (some 0) → ∀ waiter ∈ journal.waiter,
    (waiter.request = none → s.Later waiter.register.tableName waiter.register.record) ∧
      ∀ request ∈ waiter.request, request.overtaken = false
  | _ => True

instance (s : BusyNode) (action : BusyNode.Action) : Decidable (s.Undisturbed action) := by
  unfold BusyNode.Undisturbed
  split <;> infer_instance

instance (s : BusyNode) (action : BusyNode.Action) : Decidable (s.InOrder action) := by
  unfold BusyNode.InOrder
  split <;> infer_instance

section Steps
variable {memory : MainMemory} {fresh : Prop} {s s' : BusyNode} {view : View} {task : Task}
  {tail : Tail} {request : SelectRequest} {tableName : Bytes} {key : UInt16} {record : Record}
  {journal : JournalRequest} {waiter : Option Waiter}

theorem BusyNode.Quiet.unlisted (h : s.Quiet) : ∀ task ∈ s.tasks, task.unlisted = none :=
  fun task hmem => Task.unlisted_eq_none_iff.mpr (h task hmem)

/-- What the requests have seen is not newer than what they are answered with. -/
theorem SelectRequest.Seen.answered {answered : AnsweredRecord} (h : request.Seen (some record))
    (htimestamp : answered.timestamp = record.timestamp) (hvalue : answered.value = record.value) :
    AnsweredFresh request answered := by
  intro other hmem hkey
  obtain ⟨_, hlast, hbehind⟩ := h other hmem hkey
  obtain rfl := Option.some.inj hlast
  rw [htimestamp, hvalue]
  rcases hbehind with hlt | rfl
  · exact Or.inr hlt
  · exact Or.inl ⟨rfl, rfl⟩

theorem register_record (tableName : Bytes) (timestamp : Int64) (key : UInt16) (value : CString)
    (modified : Bool) :
    (⟨tableName, timestamp, key.toNat, value, modified⟩ : JournalRegister).record =
      ⟨timestamp, key, value.bytes⟩ := by
  simp [JournalRegister.record]

/-! ## Threads -/

/-- What follows a post. -/
theorem BusyNode.Inv.runTail (h : s.Inv memory fresh view) (hmem : task ∈ s.tasks)
    (hunlisted : task.unlisted = tail.unlisted) (hok : tail.Ok)
    (hreads : fresh → tail.Reads s.stored s.last)
    (hrun : ({ s with tasks := s.tasks.erase task } : BusyNode).runTail tail = some s') :
    ∃ view', s'.Inv memory fresh view' := by
  cases tail with
  | insert listing tableName record =>
    cases listing with
    | none =>
      -- the record took effect in the section
      obtain rfl := Option.some.inj hrun
      exact ⟨view, (h.erase hmem hunlisted).acknowledge hreads⟩
    | some listing =>
      -- its page was not listed, so no other thread has written one since
      obtain ⟨hpage, hholds, hmiss, hquiet⟩ := h.holds.pending hmem hunlisted
      obtain ⟨node, hadd, hwell, hsizes⟩ := hpage.listAdd
      have hshows := hpage.listAdd_shows h.holds.shows hholds hadd
      have htable : listing.tableName = tableName := hok
      rw [htable] at hmiss hshows
      rw [BusyNode.runTail, hadd] at hrun
      obtain rfl := Option.some.inj hrun
      have herased :
          ({ s with node, tasks := s.tasks.erase task } : BusyNode).Carries memory fresh view :=
        (h.toCarries.changeTasks fun _ hother => Or.inl
          (List.mem_of_mem_erase hother)).changeNode node
      have hcarries := herased.write hquiet (Or.inr ⟨rfl, hmiss rfl⟩) hreads
      refine ⟨_, BusyNode.Inv.acknowledge
        ⟨hcarries, .of_wellFormed (hsizes.totalPageSize.trans h.holds.size)
          (hsizes.totalPageCount.trans h.holds.count) hshows hwell (takesEffect_quiet hquiet)⟩
        fun _ => ?_⟩
      rw [last_takesEffect]
      exact ⟨record, Last.set_self _ _ _, Or.inr rfl⟩
  | miss request =>
    obtain rfl := Option.some.inj hrun
    refine ⟨view, (h.erase hmem hunlisted).changeSelects (fun other result hother => ?_)
      fun other hother => ?_⟩
    · rcases List.mem_cons.mp hother with heq | hother
      · exact absurd (congrArg Prod.snd heq) (by simp)
      · exact Or.inl hother
    · rcases List.mem_cons.mp hother with heq | hother
      · obtain rfl : other = request := congrArg Prod.fst heq
        exact Or.inr hreads
      · exact Or.inl hother
  | fill listing request result =>
    obtain ⟨hpage, hholds, -, hquiet⟩ := h.holds.pending hmem hunlisted
    obtain ⟨node, hadd, hwell, hsizes⟩ := hpage.listAdd
    have hshows := hpage.listAdd_shows h.holds.shows hholds hadd
    have htable : listing.tableName = request.tableName := hok
    rw [htable] at hshows
    rw [BusyNode.runTail, hadd] at hrun
    obtain rfl := Option.some.inj hrun
    have hlast : fresh → s.last request.tableName (request.record result).key =
        some (request.record result) := fun hfresh => (hreads hfresh).2
    have herased :
        ({ s with node, tasks := s.tasks.erase task } : BusyNode).Carries memory fresh view :=
      (h.toCarries.changeTasks fun _ hother => Or.inl
        (List.mem_of_mem_erase hother)).changeNode node
    have hcarries := herased.fill hlast
    refine ⟨_, BusyNode.Inv.spawn ⟨hcarries, .of_wellFormed
      (hsizes.totalPageSize.trans h.holds.size) (hsizes.totalPageCount.trans h.holds.count) hshows
      hwell hquiet⟩ rfl trivial fun hfresh => (hreads hfresh).1.seen⟩
  | answer request result =>
    obtain rfl := Option.some.inj hrun
    have hseen : fresh → request.Seen (some (request.record result)) := hreads
    exact ⟨view, (h.erase hmem hunlisted).answer fun hfresh => (hseen hfresh).answered rfl rfl⟩
  | done =>
    obtain rfl := Option.some.inj hrun
    exact ⟨view, h.erase hmem hunlisted⟩

theorem BusyNode.Inv.runTask (h : s.Inv memory fresh view) (hmem : task ∈ s.tasks)
    (hrun : ({ s with tasks := s.tasks.erase task } : BusyNode).runTask task = some s') :
    ∃ view', s'.Inv memory fresh view' := by
  have hok := h.threads.tasks task hmem
  have hreads : fresh → task.Reads s.stored s.last := fun hfresh => (h.reads hfresh).tasks task hmem
  cases task with
  | post tail =>
    rw [BusyNode.runTask] at hrun
    split at hrun
    · obtain rfl := Option.some.inj hrun
      exact ⟨view, h.advance hmem rfl id id⟩
    · exact h.runTail hmem rfl hok hreads hrun
  | raise tail => exact (h.semaphore (s.semaphore + 1)).runTail hmem rfl hok hreads hrun
  | look waiter =>
    have herased := h.erase hmem rfl
    rw [BusyNode.runTask] at hrun
    split at hrun
    · obtain ⟨_, hsend, hinv⟩ := herased.send hok hreads
      obtain rfl := Option.some.inj (hsend.symm.trans hrun)
      exact ⟨view, hinv⟩
    · obtain rfl := Option.some.inj hrun
      exact ⟨view, herased.spawn rfl hok hreads⟩
  | wait waiter =>
    have herased := h.erase hmem rfl
    rw [BusyNode.runTask] at hrun
    split at hrun
    · exact absurd hrun (by simp)
    · obtain ⟨_, hsend, hinv⟩ := (herased.semaphore (s.semaphore - 1)).send hok hreads
      obtain rfl := Option.some.inj (hsend.symm.trans hrun)
      exact ⟨view, hinv⟩

/-! ## INSERT -/

theorem BusyNode.Holds.writable (h : s.Holds memory view) {timestamp : Int64} {value : Bytes}
    (hplain : Plain value) (hfits : Fits s.node.memory (memoryText timestamp key.toNat value)) :
    Writable memory ⟨timestamp, key, value⟩ := by
  rw [memoryText_eq] at hfits
  exact ⟨⟨hplain.1, hplain.2⟩, h.count ▸ hfits.1, h.size ▸ hfits.2⟩

/-- `process_insert`, from the wait to the post. -/
theorem BusyNode.Inv.insert (h : s.Inv memory fresh view) {now later : Int64} {input : InsertInput}
    {ending : Option SectionEnd} (hundisturbed : s.Undisturbed (.insert now later input))
    (hlater : fresh → s.InOrder (.insert now later input))
    (hsection : insertSection s.node now later input = some ending) :
    ∃ view', (s.insertEnding now later input ending).Inv memory fresh view' := by
  by_cases hlen : input.value.bytes.length ≤ s.node.valueSize
  · obtain ⟨hquiet, hplain, hfits⟩ := hundisturbed hlen
    have hlater : fresh → s.Later (toUppercase input.tableName.bytes)
      (writtenRecord s.node now later input) :=
      fun hfresh => hlater hfresh hlen
    rcases (h.holds.wellFormed hquiet.unlisted).insertSection_shows h.holds.shows
      ⟨hplain.1, hplain.2⟩ hfits with hcase | ⟨node, view', hcase, hwell, hsizes, hwrites, hshows⟩ |
        ⟨hmiss, hcase | ⟨written, listing, listed, view₁, hnew, hcase⟩⟩
    · -- The value is too long.
      obtain rfl := Option.some.inj (hsection.symm.trans hcase)
      exact ⟨view, h.spawn rfl trivial fun _ => trivial⟩
    · -- The page of the key is written over.
      obtain rfl := Option.some.inj (hsection.symm.trans hcase)
      have hrecord := h.holds.shows.writtenRecord_of_hit now later hwrites.of_ne_nil
      rw [hrecord] at hlater
      rw [BusyNode.insertEnding]
      simp only [hrecord]
      have hcarries := (h.toCarries.changeNode node).write hquiet.unlisted (Or.inl hwrites) hlater
      refine ⟨view', BusyNode.Inv.spawn
        ⟨hcarries, .of_wellFormed (hsizes.totalPageSize.trans h.holds.size)
          (hsizes.totalPageCount.trans h.holds.count) hshows hwell
        (takesEffect_quiet hquiet.unlisted)⟩ rfl trivial fun _ => ?_⟩
      rw [last_takesEffect]
      exact ⟨_, Last.set_self _ _ _, Or.inr rfl⟩
    · -- Nothing can be evicted, and a journal comes first.
      obtain rfl := Option.some.inj (hsection.symm.trans hcase)
      refine ⟨view, h.spawn rfl (fun waiter hwaiter => ?_) fun _ waiter hwaiter => ?_⟩
      · obtain rfl := Option.some.inj hwaiter
        refine ⟨?_, toUppercase_toUppercase _, ?_, rfl, fun _ hrequest => absurd hrequest (by simp)⟩
        · rw [register_record]
        · rw [register_record]
          exact h.holds.writable hplain hfits.1
      · obtain rfl := Option.some.inj hwaiter
        exact fun _ hrequest => absurd hrequest (by simp)
    · -- The record gets a page of its own.
      have hrecord := h.holds.shows.writtenRecord_of_miss now later hmiss
      rw [hrecord] at hlater
      have hcarries := h.toCarries.evicts hnew.evicts
      have hmiss₁ := View.of_eq_nil hnew.evicts hmiss
      rcases hcase with hcase | hcase
      · obtain rfl := Option.some.inj (hsection.symm.trans hcase)
        rw [BusyNode.insertEnding]
        simp only [hrecord]
        refine ⟨view₁, (hcarries.changeNode written).changeTasks fun task hmem => ?_,
          .of_unlisted (hnew.writtenSizes.totalPageSize.trans h.holds.size)
            (hnew.writtenSizes.totalPageCount.trans h.holds.count) hnew.writtenShows hnew.unlisted
            hnew.holds (fun _ => hnew.name ▸ hmiss₁) hquiet.unlisted rfl⟩
        rcases List.mem_cons.mp hmem with rfl | hmem
        · exact Or.inr ⟨hnew.name, hlater⟩
        · exact Or.inl hmem
      · obtain rfl := Option.some.inj (hsection.symm.trans hcase)
        rw [BusyNode.insertEnding]
        simp only [hrecord]
        have hwritten := (hcarries.changeNode listed).write hquiet.unlisted (Or.inr ⟨rfl, hmiss₁⟩)
          hlater
        refine ⟨_, BusyNode.Inv.spawn ⟨hwritten, .of_wellFormed
          (hnew.sizes.totalPageSize.trans h.holds.size)
          (hnew.sizes.totalPageCount.trans h.holds.count) hnew.shows hnew.wellFormed
          (takesEffect_quiet hquiet.unlisted)⟩ rfl trivial fun _ => ?_⟩
        rw [last_takesEffect]
        exact ⟨_, Last.set_self _ _ _, Or.inr rfl⟩
  · have hnone : insertSection s.node now later input = some none := if_neg hlen
    obtain rfl := Option.some.inj (hsection.symm.trans hnone)
    exact ⟨view, h.spawn rfl trivial fun _ => trivial⟩

/-! ## SELECT -/

/-- `process_select`, from the wait to the post: a hit is the record that was written last,
and a miss will be answered with it. -/
theorem BusyNode.Inv.select (h : s.Inv memory fresh view) {input : SelectInput} {lookup : Lookup}
    (hrequest : request = ⟨toUppercase input.tableName.bytes, input.key, s.acknowledged, false⟩)
    (hlookup : processSelect s.node input = some lookup) :
    (match lookup with
      | .hit tableName found => (s.answer request (foundRecord tableName found)).spawn (.post .done)
      | .miss => s.spawn (.post (.miss request))).Inv memory fresh view := by
  subst hrequest
  have hcoherent := fun hfresh => (h.reads hfresh).coherent (toUppercase input.tableName.bytes)
    input.key
  have hseen : fresh → (⟨toUppercase input.tableName.bytes, input.key, s.acknowledged, false⟩ :
      SelectRequest).Seen (s.last (toUppercase input.tableName.bytes) input.key) := by
    intro hfresh other hmem hkey
    have hkey : other.key = input.key := hkey
    rw [← hkey]
    exact (h.reads hfresh).acknowledged _ other hmem
  rw [h.holds.shows.processSelect_eq, Option.some.injEq] at hlookup
  cases hhead : (view.of (toUppercase input.tableName.bytes) input.key).head? with
  | some copy =>
    rw [hhead] at hlookup
    subst hlookup
    refine (h.answer fun hfresh => ?_).spawn rfl trivial fun _ => trivial
    have hlast := (hcoherent hfresh).head copy hhead
    have hseen := hseen hfresh
    rw [hlast] at hseen
    exact hseen.answered rfl rfl
  | none =>
    rw [hhead] at hlookup
    subst hlookup
    refine h.spawn rfl trivial fun hfresh => ?_
    have hcoherent := hcoherent hfresh
    rw [List.head?_eq_none_iff.mp hhead] at hcoherent
    have hmiss : newest (ofKey input.key (s.stored (toUppercase input.tableName.bytes))) =
        s.last (toUppercase input.tableName.bytes) input.key := hcoherent.miss
    refine ⟨?_, fun _ => hmiss⟩
    change SelectRequest.Seen _ (newest
      (ofKey input.key (s.stored (toUppercase input.tableName.bytes))))
    rw [hmiss]
    exact hseen hfresh

/-- The filesystem answers a SELECT. -/
theorem BusyNode.Inv.replySelect (h : s.Inv memory fresh view) {result : Option RecordT}
    (hmem : (request, none) ∈ s.selects)
    (hanswers : ∀ record ∈ result, s.stored.Answers request.tableName request.key record) :
    ({ s with selects := (request, some result) :: s.selects.erase (request, none) } : BusyNode).Inv
      memory fresh view := by
  refine h.changeSelects (fun other found hother => ?_) fun other hother => ?_
  · rcases List.mem_cons.mp hother with hpair | hother
    · obtain ⟨rfl, hresult⟩ := Prod.mk.inj hpair
      have hanswers := hanswers found (Option.some.inj hresult).symm
      rw [Stored.Answers] at hanswers
      refine Or.inr ⟨?_, fun hfresh => ?_⟩
      · cases hnewest : newest (ofKey other.key (s.stored other.tableName)) with
        | none =>
          rw [hnewest] at hanswers
          exact Or.inl hanswers
        | some record =>
          rw [hnewest] at hanswers
          exact Or.inr ⟨hanswers.1, hanswers.2.2.1⟩
      · obtain ⟨hseen, hcurrent⟩ := (h.reads hfresh).asked other hmem
        cases hnewest : newest (ofKey other.key (s.stored other.tableName)) with
        | none =>
          rw [hnewest] at hanswers hseen
          refine ⟨fun old hold hkey => ?_, fun _ hvalue => absurd hanswers hvalue⟩
          obtain ⟨_, hnone, -⟩ := hseen old hold hkey
          exact absurd hnone (by simp)
        | some record =>
          rw [hnewest] at hanswers hseen hcurrent
          obtain ⟨-, htimestamp, -, hvalue⟩ := hanswers
          have hrecord : other.record found = record := by
            rw [SelectRequest.record, htimestamp, hvalue,
              ← (mem_ofKey.mp (List.argmax_mem hnewest)).2]
          rw [hrecord]
          exact ⟨hseen, fun hfalse _ => (hcurrent hfalse).symm⟩
    · exact Or.inl (List.mem_of_mem_erase hother)
  · rcases List.mem_cons.mp hother with heq | hother
    · exact absurd (congrArg Prod.snd heq) (by simp)
    · exact Or.inl (List.mem_of_mem_erase hother)

/-- `select_callback`, from the wait to the post. -/
theorem BusyNode.Inv.selectCallback (h : s.Inv memory fresh view) {result : Option RecordT}
    {ending : Option SectionEnd} (hok : ∀ record ∈ result, ResultOk request record)
    (hreplied : fresh → ∀ record ∈ result, request.Replied s.last (request.record record))
    (hundisturbed : s.Undisturbed (.selectCallback request result))
    (hcurrent : fresh → s.InOrder (.selectCallback request result))
    (hsection : Lissandra.selectCallback s.node result = some ending) :
    ∃ view', (s.callbackEnding request result ending).Inv memory fresh view' := by
  cases result with
  | none =>
    obtain rfl := Option.some.inj hsection
    exact ⟨view, h.spawn rfl trivial fun _ => trivial⟩
  | some result =>
    have hreplied := fun hfresh => hreplied hfresh result rfl
    by_cases hresult : result.timestamp = -1 ∨ result.timestamp = -2
    · rw [Lissandra.selectCallback, if_pos hresult] at hsection
      obtain rfl := Option.some.inj hsection
      exact ⟨view, h.spawn rfl trivial fun hfresh => (hreplied hfresh).seen⟩
    · obtain ⟨hquiet, hplain, hfits⟩ := hundisturbed hresult
      have hvalue : result.timestamp ≠ -1 := fun heq => hresult (Or.inl heq)
      obtain ⟨htable, hkey⟩ := (hok result rfl).resolve_left hvalue
      have hlast : fresh → s.last request.tableName request.key = some (request.record result) :=
        fun hfresh => (hreplied hfresh).current (hcurrent hfresh hresult) hvalue
      rcases (h.holds.wellFormed hquiet.unlisted).selectCallback_shows h.holds.shows hresult hkey
        ⟨hplain.1, hplain.2⟩ hfits with hcase | ⟨written, listing, listed, view₁, hnew, hcase⟩
      · -- Nothing can be evicted, and a journal comes first.
        obtain rfl := Option.some.inj (hsection.symm.trans hcase)
        refine ⟨view, h.spawn rfl (fun waiter hwaiter => ?_)
          fun hfresh waiter hwaiter other hother => ?_⟩
        · obtain rfl := Option.some.inj hwaiter
          refine ⟨by rw [register_record], toUppercase_toUppercase _, ?_, rfl,
            fun other hother => ?_⟩
          · rw [register_record]
            refine h.holds.writable hplain ?_
            rw [← hkey]
            exact hfits
          · obtain rfl := Option.some.inj hother
            rw [register_record]
            exact ⟨htable.symm, rfl, hvalue⟩
        · obtain rfl := Option.some.inj hwaiter
          obtain rfl := Option.some.inj hother
          rw [register_record]
          exact hreplied hfresh
      · have hcarries := h.toCarries.evicts hnew.evicts
        rw [htable] at hnew
        rcases hcase with hcase | hcase
        · obtain rfl := Option.some.inj (hsection.symm.trans hcase)
          refine ⟨view₁, (hcarries.changeNode written).changeTasks fun task hmem => ?_,
            .of_unlisted (hnew.writtenSizes.totalPageSize.trans h.holds.size)
              (hnew.writtenSizes.totalPageCount.trans h.holds.count) hnew.writtenShows hnew.unlisted
              hnew.holds (fun hfalse => absurd hfalse (by simp)) hquiet.unlisted rfl⟩
          rcases List.mem_cons.mp hmem with rfl | hmem
          · exact Or.inr ⟨hnew.name, fun hfresh => ⟨hreplied hfresh, hlast hfresh⟩⟩
          · exact Or.inl hmem
        · obtain rfl := Option.some.inj (hsection.symm.trans hcase)
          have hlastRecord : fresh → s.last request.tableName (request.record result).key =
              some (request.record result) := hlast
          have hfilled := (hcarries.changeNode listed).fill hlastRecord
          exact ⟨_, BusyNode.Inv.spawn ⟨hfilled, .of_wellFormed
            (hnew.sizes.totalPageSize.trans h.holds.size)
            (hnew.sizes.totalPageCount.trans h.holds.count) hnew.shows hnew.wellFormed
            hquiet.unlisted⟩ rfl trivial fun hfresh => (hreplied hfresh).seen⟩

/-! ## JOURNAL -/

/-- `journal_callback` after a success. -/
theorem BusyNode.Inv.journalCallback (h : s.Inv memory fresh view) {node : MemoryNode}
    (hmem : journal ∈ s.journals) (hanswer : journal.answer = some (some 0))
    (hundisturbed : s.Undisturbed (.journalCallback journal))
    (hinOrder : fresh → s.InOrder (.journalCallback journal))
    (hcallback : Lissandra.journalCallback s.node (some 0) (journal.waiter.map Waiter.register) =
      some node) :
    ∃ view', (({ s with node, journals := s.journals.erase journal } : BusyNode).settle
      journal.waiter).Inv memory fresh view' := by
  obtain ⟨hquiet, hovertaken⟩ := hundisturbed hanswer
  have hinOrder := fun hfresh => hinOrder hfresh hanswer
  -- nothing was overtaken, so every modified copy was in the batch that the filesystem has
  have hwiped := (h.wipe hmem hanswer hovertaken).changeNode node
  have hwell := h.holds.wellFormed hquiet.unlisted
  have hwaiter := (h.threads.journals journal hmem).waiter
  cases hcase : journal.waiter with
  | none =>
    rw [hcase] at hcallback
    obtain ⟨node', hrun, hwell', hsizes, hshows⟩ :=
      @WellFormed.journalCallback_success s.node 0 hwell none fun _ hnone => absurd hnone (by simp)
    obtain rfl := Option.some.inj (hcallback.symm.trans hrun)
    exact ⟨_, hwiped, .of_wellFormed (hsizes.totalPageSize.trans h.holds.size)
      (hsizes.totalPageCount.trans h.holds.count) hshows hwell' hquiet.unlisted⟩
  | some waiter =>
    obtain ⟨hkey, hupper, ⟨hlegible, hfits⟩, hmodified, hrequest⟩ := hwaiter waiter hcase
    rw [hcase] at hcallback
    have hregister : ∀ reg ∈ some waiter.register, reg.key = waiter.register.record.key.toNat ∧
        toUppercase reg.tableName = reg.tableName ∧ Legible reg.value.bytes ∧
        Fits s.node.memory (memoryText reg.timestamp waiter.register.record.key.toNat
          reg.value.bytes) := by
      intro reg hreg
      obtain rfl := Option.some.inj hreg
      refine ⟨hkey, hupper, hlegible, ?_⟩
      rw [memoryText_eq]
      exact ⟨h.holds.count.symm ▸ hfits.1, h.holds.size.symm ▸ hfits.2⟩
    obtain ⟨node', hrun, hwell', hsizes, hshows⟩ := hwell.journalCallback_success hregister
    obtain rfl := Option.some.inj (hcallback.symm.trans hrun)
    have hinOrder := fun hfresh => hinOrder hfresh waiter hcase
    obtain ⟨reg, request⟩ := waiter
    cases request with
    | none =>
      -- an INSERT waited for the journal, and takes effect now
      have htrue : reg.modified = true := hmodified
      rw [registerView, htrue] at hshows
      have hwritten := hwiped.write hquiet.unlisted (Or.inr ⟨rfl, View.of_empty⟩)
        fun hfresh => (hinOrder hfresh).1 rfl
      refine ⟨_, BusyNode.Inv.acknowledge ⟨hwritten, .of_wellFormed
        (hsizes.totalPageSize.trans h.holds.size) (hsizes.totalPageCount.trans h.holds.count) hshows
        hwell' (takesEffect_quiet hquiet.unlisted)⟩ fun _ => ?_⟩
      rw [last_takesEffect]
      exact ⟨reg.record, Last.set_self _ _ _, Or.inr rfl⟩
    | some request =>
      -- a SELECT waited with the record that the filesystem had answered
      have hfalse : reg.modified = false := hmodified
      rw [registerView, hfalse] at hshows
      obtain ⟨htable, hkeys, hvalue⟩ := hrequest request rfl
      have hreplied := fun hfresh => (h.reads hfresh).waiters journal hmem ⟨reg, some request⟩ hcase
        request rfl
      have hlast : fresh → s.last reg.tableName reg.record.key = some reg.record := by
        intro hfresh
        rw [← htable, ← hkeys]
        exact (hreplied hfresh).current ((hinOrder hfresh).2 request rfl) hvalue
      have hfilled := hwiped.fill hlast
      exact ⟨_, BusyNode.Inv.answer
        ⟨hfilled, .of_wellFormed (hsizes.totalPageSize.trans h.holds.size)
          (hsizes.totalPageCount.trans h.holds.count) hshows hwell' hquiet.unlisted⟩
        fun hfresh => (hreplied hfresh).seen.answered rfl rfl⟩

/-! ## Every step -/

/-- **One step.** -/
theorem BusyNode.Inv.step (h : s.Inv memory fresh view) {action : BusyNode.Action}
    (hundisturbed : s.Undisturbed action) (hinOrder : fresh → s.InOrder action)
    (hstep : s.step action = some s') : ∃ view', s'.Inv memory fresh view' := by
  cases action with
  | insert now later input =>
    rw [BusyNode.step] at hstep
    split at hstep
    · exact absurd hstep (by simp)
    · obtain ⟨ending, hsection, rfl⟩ := Option.map_eq_some_iff.mp hstep
      exact (h.semaphore (s.semaphore - 1)).insert hundisturbed hinOrder hsection
  | select input =>
    rw [BusyNode.step] at hstep
    split at hstep
    · exact absurd hstep (by simp)
    · obtain ⟨lookup, hlookup, rfl⟩ := Option.map_eq_some_iff.mp hstep
      exact ⟨view, (h.semaphore (s.semaphore - 1)).select rfl hlookup⟩
  | journal =>
    obtain rfl := Option.some.inj hstep
    exact ⟨view, h.spawn rfl (fun _ hnone => absurd hnone (by simp)) fun _ _ hnone =>
      absurd hnone (by simp)⟩
  | run task =>
    rw [BusyNode.step] at hstep
    split at hstep
    · rename_i hmem
      exact h.runTask hmem hstep
    · exact absurd hstep (by simp)
  | fsSelect request result =>
    rw [BusyNode.step] at hstep
    split at hstep
    · rename_i hanswers
      obtain rfl := Option.some.inj hstep
      exact ⟨view, h.replySelect hanswers.1 hanswers.2⟩
    · exact absurd hstep (by simp)
  | selectCallback request result =>
    rw [BusyNode.step] at hstep
    split at hstep
    · rename_i hmem
      obtain ⟨ending, hsection, rfl⟩ := Option.map_eq_some_iff.mp hstep
      refine ((h.semaphore (s.semaphore - 1)).eraseSelect (request, some result)).selectCallback
        (fun record hrecord => ?_) (fun hfresh record hrecord => ?_) hundisturbed hinOrder hsection
      · obtain rfl : result = some record := hrecord
        exact h.threads.selects request record hmem.1
      · obtain rfl : result = some record := hrecord
        exact (h.reads hfresh).replied request record hmem.1
    · exact absurd hstep (by simp)
  | fsJournal journal outcome =>
    rw [BusyNode.step] at hstep
    split at hstep
    · rename_i hjournal
      obtain rfl := Option.some.inj hstep
      exact ⟨view, h.storeBatch hjournal.1 hjournal.2.2⟩
    · exact absurd hstep (by simp)
  | journalCallback journal =>
    rw [BusyNode.step] at hstep
    split at hstep
    · rename_i hmem
      obtain ⟨result, hanswer, hstep⟩ := Option.bind_eq_some_iff.mp hstep
      obtain ⟨node, hcallback, hstep⟩ := Option.bind_eq_some_iff.mp hstep
      obtain rfl := Option.some.inj hstep
      split
      · rename_i hresult
        subst hresult
        obtain ⟨view', hinv⟩ := h.journalCallback hmem hanswer hundisturbed hinOrder hcallback
        exact ⟨view', hinv.spawn rfl trivial fun _ => trivial⟩
      · rename_i hresult
        have hfails : result = none ∨ result = some (-1) := by
          rcases (h.threads.journals journal hmem).answer with hnone | hnone | hzero | hfails
          · exact absurd (hnone.symm.trans hanswer) (by simp)
          · exact Or.inl (Option.some.inj (hanswer.symm.trans hnone))
          · exact absurd (Option.some.inj (hanswer.symm.trans hzero)) hresult
          · exact Or.inr (Option.some.inj (hanswer.symm.trans hfails))
        obtain rfl := Option.some.inj (hcallback.symm.trans (journalCallback_failure _ hfails))
        exact ⟨view, (h.eraseJournal journal).spawn rfl trivial fun _ => trivial⟩
    · exact absurd hstep (by simp)

/-- A memory that was set up. -/
theorem BusyNode.Start.inv (h : s.Start) : s.Inv s.node.memory fresh View.empty := by
  obtain ⟨allocated, value, now, hnode⟩ := h.node
  have hempty := segmentList_getValueCallback hnode
  have hlast : s.last = fun tableName key => newest (ofKey key (s.stored tableName)) := by
    funext tableName key
    rw [BusyNode.last, h.written, h.first, Option.none_or]
  refine ⟨⟨⟨?_, ?_, ?_⟩, ⟨?_, ?_, fun {tableName key record} hwritten => ?_⟩, fun _ => ?_⟩,
    .of_wellFormed rfl rfl (shows_empty hempty) (wellFormed_getValueCallback hnode) ?_⟩
  · simp [h.tasks]
  · simp [h.journals]
  · simp [h.selects]
  · simp [h.journals]
  · simp [h.journals]
  · exact absurd hwritten (by simp [h.written])
  · constructor
    case coherent => exact hlast ▸ coherentView_start s.stored
    case keyed =>
      intro tableName key record hrecord
      rw [hlast] at hrecord
      exact (mem_ofKey.mp (List.argmax_mem hrecord)).2
    all_goals simp [h.journals, h.tasks, h.selects, h.acknowledged, h.answered]
  · simp [h.tasks]

end Steps

end Lissandra
