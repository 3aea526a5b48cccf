import Lissandra.PageTable

/-! # What a memory node answers

A SELECT or an INSERT of the kernel waits on a response until `set_response` is called.
The call is made by the function of the request, by `select_callback`, or by
`journal_callback`, and which of them makes it hangs on `found_page` and on a
`journal_register_t` left in the response.  Here all calls for one request are collected,
over any memory, and compared with the single well-typed one that `handle_request` can
serialise (`answeredOnce_iff`).
-/
namespace Lissandra

/-! ## Responses -/

/-- A `record_t` that is answered. -/
structure AnsweredRecord where
  tableName : Bytes
  timestamp : Int64
  key : Int32
  value : Bytes
  fsArchiveWhereItWasFound : Bytes
  deriving DecidableEq

/-- What `set_response` is called with. -/
inductive Answer where
  | int (value : Int)
  | record (record : AnsweredRecord)
  deriving DecidableEq

/-- `"Nada"`. -/
def nada : Bytes := [78, 97, 100, 97]

/-- The loop of `generate_id`. -/
def generateIdFrom (i : Nat) : List Int → Nat
  | [] => i
  | id :: rest => if id ≠ i then i else generateIdFrom (i + 1) rest

/-- `generate_id`, where the ids in use are `g_response_ids`. -/
def generateId (responseIds : List Int) : Nat := generateIdFrom 0 responseIds

/-! ## The calls of `set_response` -/

/-- The end of `process_insert`.  `unassigned` says whether a `found_page` that was never
assigned differs from `NULL`. -/
def processInsertAnswers (unassigned : Bool) : Option SectionEnd → List Answer
  | none => if unassigned then [.int (-1)] else []
  | some (.journaling _) => []
  | some _ => [.int 0]

/-- The `record_t` of a hit. -/
def foundRecord (tableName : Bytes) (found : Found) : AnsweredRecord :=
  ⟨tableName, found.timestamp, found.key, found.value, nada⟩

/-- The hit of `process_select`. -/
def processSelectAnswer (tableName : Bytes) (found : Found) : Answer :=
  .record (foundRecord tableName found)

/-- The copy of a `record_t` that the filesystem answered. -/
def resultRecord (result : RecordT) : AnsweredRecord :=
  ⟨result.tableName.bytes, result.timestamp, result.key, result.value.bytes, nada⟩

/-- The `record_t` of a register. -/
def registerRecord (reg : JournalRegister) : AnsweredRecord :=
  ⟨reg.tableName, reg.timestamp, Int32.ofInt reg.key, reg.value.bytes, nada⟩

/-- The copy that `select_callback` makes of what the filesystem answered. -/
def selectCallbackRecord : Option RecordT → Answer
  | some record => .record (resultRecord record)
  | none => .record ⟨[69, 82, 82, 79, 82], -3, -3, [45, 51], nada⟩

/-- The end of `select_callback`. -/
def selectCallbackAnswers (unassigned : Bool) (result : Option RecordT) :
    Option SectionEnd → List Answer
  | none => if unassigned then [selectCallbackRecord result] else []
  | some (.journaling _) => []
  | some _ => [selectCallbackRecord result]

/-- The answers of `journal_callback`, to a response that has an id and perhaps a register. -/
def journalCallbackAnswers (id : Int) (multiinsertResult : Option Int32) :
    Option JournalRegister → List Answer
  | none => [.int ((multiinsertResult.getD (-1)).toInt)]
  | some reg =>
    if multiinsertResult = none ∨ multiinsertResult = some (-1) then
      if id ≠ -1337 then [.int (-4)] else []
    else if reg.modified then
      if id ≠ -1337 then [.int 0] else []
    else if id ≠ -1337 then [.record (registerRecord reg)]
    else []

/-! ## A request -/

/-- A SELECT or an INSERT, with what happens to it: what the clock says, what the
filesystem answers to a miss, and the memory that `select_callback` finds. -/
inductive Request where
  | insert (now later : Int64) (input : InsertInput)
  | select (input : SelectInput) (result : Option RecordT) (afterwards : MemoryNode)
  deriving DecidableEq

/-- The answers that come from the journal of a section that needs one.  It is sent from the
memory of the section. -/
def journalAnswers (node : MemoryNode) (id : Int) (journal : Option Int32) :
    Option SectionEnd → Option (List Answer)
  | some (.journaling reg) =>
    (journalBatch node).map fun _ => journalCallbackAnswers id journal (some reg)
  | _ => some []

/-- All answers to a request; `none` is a process that died before. -/
def Request.answers (node : MemoryNode) (id : Int) (unassigned : Bool) (journal : Option Int32) :
    Request → Option (List Answer)
  | .insert now later input => do
    let ending ← insertSection node now later input
    let answers ← journalAnswers node id journal ending
    some (processInsertAnswers unassigned ending ++ answers)
  | .select input result afterwards => do
    match ← processSelect node input with
    | .hit tableName found => some [processSelectAnswer tableName found]
    | .miss =>
      let ending ← selectCallback afterwards result
      let answers ← journalAnswers afterwards id journal ending
      some (selectCallbackAnswers unassigned result ending ++ answers)

/-- What `handle_request` serialises as the result of the request. -/
def Answer.WellTyped : Request → Answer → Prop
  | .insert .., .int _ => True
  | .select .., .record _ => True
  | _, _ => False

/-- One answer, of the type of the request. -/
def AnsweredOnce (node : MemoryNode) (id : Int) (unassigned : Bool) (journal : Option Int32)
    (request : Request) : Prop :=
  ∃ answer, request.answers node id unassigned journal = some [answer] ∧ answer.WellTyped request

/-! ## When there is one answer -/

/-- `replace_algorithm` has nothing to evict. -/
def NeedsJournal (node : MemoryNode) : Prop :=
  memoryFull node.memory = true ∧ getPagesByModified node.segmentList false = []

instance (node : MemoryNode) : Decidable (NeedsJournal node) := inferInstanceAs (Decidable (_ ∧ _))

/-- The journal is not answered with a failure. -/
def JournalSucceeds (journal : Option Int32) : Prop := journal ≠ none ∧ journal ≠ some (-1)

/-- What a SELECT that missed needs to be answered: a `found_page` that happens to differ
from `NULL` when there is no record, and else no journal, or one that is sent and succeeds. -/
def MissWillBeAnswered (afterwards : MemoryNode) (unassigned : Bool) (journal : Option Int32) :
    Option RecordT → Prop
  | none => unassigned = true
  | some record =>
    if record.timestamp = -1 ∨ record.timestamp = -2 then unassigned = true
    else (findPage afterwards (toUppercase record.tableName.bytes) record.key.toInt).isSome ∧
      (NeedsJournal afterwards → (journalBatch afterwards).isSome ∧ JournalSucceeds journal)

/-- What a request needs to be answered once, with an object of its type: that the memory
can be read, and for an INSERT that the value is not too long, or `found_page` happens to
differ from `NULL`. -/
def WillBeAnswered (node : MemoryNode) (unassigned : Bool) (journal : Option Int32) : Request → Prop
  | .insert _ _ input =>
    if input.value.bytes.length ≤ node.valueSize then
      ∃ found, findPage node (toUppercase input.tableName.bytes) input.key.toNat = some found ∧
        (found = none → NeedsJournal node → (journalBatch node).isSome)
    else unassigned = true
  | .select input result afterwards =>
    match findPage node (toUppercase input.tableName.bytes) input.key.toNat with
    | some (some (_, page)) => (pageRecord node.memory page.index).isSome
    | some none => MissWillBeAnswered afterwards unassigned journal result
    | none => False

section Answers
variable {node : MemoryNode} {unassigned : Bool} {journal : Option Int32}

/-- The id that stands for no response is never given to one. -/
theorem generateId_ne (responseIds : List Int) : (generateId responseIds : Int) ≠ -1337 := by
  omega

theorem sortedIndexes_eq_nil {memory : MainMemory} {indexes : List Int} :
    sortedIndexes memory indexes = [] ↔ indexes = [] := by
  rw [← List.length_eq_zero_iff, sortedIndexes, List.length_insertionSort, List.length_eq_zero_iff]

/-- A record gets its page unless there is none to evict. -/
theorem writePage_ending (timestamp : Int64) (key : Int) (value : CString) (modified : Bool)
    (tableName : Bytes) (postsFirst : Bool → Bool) :
    ∃ ending, writePage node timestamp key value modified tableName postsFirst = some ending ∧
      if NeedsJournal node then ending = .journaling ⟨tableName, timestamp, key, value, modified⟩
      else ∀ reg, ending ≠ .journaling reg := by
  rw [writePage]
  cases hfull : memoryFull node.memory with
  | false =>
    simp only [NeedsJournal, hfull, Bool.false_eq_true, false_and, if_false]
    split
    · exact ⟨_, rfl, fun _ h => SectionEnd.noConfusion h⟩
    · cases hfresh : (getSegmentByName node.segmentList tableName).isNone with
      | true => exact ⟨_, rfl, fun _ h => SectionEnd.noConfusion h⟩
      | false =>
        obtain ⟨segment, hsegment⟩ := Option.isSome_iff_exists.mp
          (Option.isNone_eq_false_iff.mp hfresh)
        simp only [listAdd, hsegment]
        exact ⟨_, rfl, fun _ h => SectionEnd.noConfusion h⟩
  | true =>
    simp only [NeedsJournal, hfull, true_and, if_true, replaceAlgorithm]
    cases hsorted : sortedIndexes node.memory
        ((getPagesByModified node.segmentList false).map Page.index) with
    | nil =>
      have hpages := List.map_eq_nil_iff.mp (sortedIndexes_eq_nil.mp hsorted)
      simp only [hpages, if_true]
      exact ⟨_, rfl, rfl⟩
    | cons replace rest =>
      have hpages : getPagesByModified node.segmentList false ≠ [] := by
        intro hpages
        rw [hpages, List.map_nil, sortedIndexes_eq_nil.mpr rfl] at hsorted
        exact List.cons_ne_nil _ _ hsorted.symm
      obtain ⟨page, hpage, rfl⟩ := List.mem_map.mp (mem_of_sortedIndexes hsorted)
      obtain ⟨segment, hsegment⟩ :=
        getSegmentByIndexGlobal_isSome (mem_indexesOf_getPagesByModified hpage).1
      simp only [hpages, if_false, eliminatePageInstanceByIndex, hsegment]
      exact ⟨_, rfl, fun _ h => SectionEnd.noConfusion h⟩

/-! ## One request -/

/-- The calls of `journal_callback` for a request that waits for a journal. -/
theorem journalCallbackAnswers_eq (responseIds : List Int) (reg : JournalRegister) :
    journalCallbackAnswers (generateId responseIds) journal (some reg) =
      if journal = none ∨ journal = some (-1) then [.int (-4)]
      else if reg.modified then [.int 0]
      else [.record (registerRecord reg)] := by
  simp [journalCallbackAnswers, generateId_ne]

theorem answeredOnce_insert_iff (responseIds : List Int) (now later : Int64) (input : InsertInput) :
    AnsweredOnce node (generateId responseIds) unassigned journal (.insert now later input) ↔
      WillBeAnswered node unassigned journal (.insert now later input) := by
  rw [AnsweredOnce, Request.answers, insertSection, WillBeAnswered]
  by_cases hlen : input.value.bytes.length ≤ node.valueSize
  · simp only [hlen, if_true]
    cases hfind : findPage node (toUppercase input.tableName.bytes) input.key.toNat with
    | none => simp
    | some found =>
      cases found with
      | some found => simp [journalAnswers, processInsertAnswers, Answer.WellTyped]
      | none =>
        obtain ⟨ending, hwrite, hending⟩ := @writePage_ending node now input.key.toNat
          input.value true (toUppercase input.tableName.bytes) id
        by_cases hneeds : NeedsJournal node
        · rw [if_pos hneeds] at hending
          subst hending
          cases hbatch : journalBatch node with
          | none => simp [hwrite, hneeds, hbatch, journalAnswers]
          | some batch =>
            simp only [hwrite, hbatch, journalAnswers, processInsertAnswers,
              journalCallbackAnswers_eq, Option.map_some, Option.bind_eq_bind, Option.bind_some,
              List.nil_append, if_true]
            split <;> simp [Answer.WellTyped]
        · rw [if_neg hneeds] at hending
          cases ending with
          | journaling reg => exact absurd rfl (hending reg)
          | finished node' =>
            simp [hwrite, hneeds, journalAnswers, processInsertAnswers, Answer.WellTyped]
          | listing node' listing =>
            simp [hwrite, hneeds, journalAnswers, processInsertAnswers, Answer.WellTyped]
  · simp only [hlen, if_false]
    cases unassigned <;> simp [journalAnswers, processInsertAnswers, Answer.WellTyped]

/-- What `select_callback` comes to for an answer with a record. -/
theorem selectCallback_record {record : RecordT}
    (hrecord : ¬(record.timestamp = -1 ∨ record.timestamp = -2)) :
    selectCallback node (some record) =
      (findPage node (toUppercase record.tableName.bytes) record.key.toInt).bind fun _ =>
        (writePage node record.timestamp record.key.toInt record.value false
          (toUppercase record.tableName.bytes) fun _ => false).map some :=
  if_neg hrecord

/-- The calls of `select_callback`, and of `journal_callback` after it. -/
theorem answeredOnce_miss_iff (responseIds : List Int) (result : Option RecordT) :
    (∃ answer, ((selectCallback node result).bind fun ending =>
        (journalAnswers node (generateId responseIds) journal ending).bind fun answers =>
          some (selectCallbackAnswers unassigned result ending ++ answers)) = some [answer] ∧
      ∃ record, answer = .record record) ↔ MissWillBeAnswered node unassigned journal result := by
  cases result with
  | none =>
    cases unassigned <;>
      simp [selectCallback, journalAnswers, selectCallbackAnswers, selectCallbackRecord,
        MissWillBeAnswered]
  | some record =>
    rw [MissWillBeAnswered]
    by_cases hrecord : record.timestamp = -1 ∨ record.timestamp = -2
    · rw [if_pos hrecord, selectCallback, if_pos hrecord]
      cases unassigned <;> simp [journalAnswers, selectCallbackAnswers, selectCallbackRecord]
    · rw [if_neg hrecord, selectCallback_record hrecord]
      cases findPage node (toUppercase record.tableName.bytes) record.key.toInt with
      | none => simp
      | some lookup =>
        obtain ⟨ending, hwrite, hending⟩ := @writePage_ending node record.timestamp
          record.key.toInt record.value false (toUppercase record.tableName.bytes) fun _ => false
        rw [hwrite]
        by_cases hneeds : NeedsJournal node
        · rw [if_pos hneeds] at hending
          subst hending
          cases hbatch : journalBatch node with
          | none => simp [hneeds, hbatch, journalAnswers]
          | some batch =>
            by_cases hfails : journal = none ∨ journal = some (-1)
            · simp [hneeds, hbatch, journalAnswers, selectCallbackAnswers,
                journalCallbackAnswers_eq, hfails, JournalSucceeds, ← not_or]
            · simp [hneeds, hbatch, journalAnswers, selectCallbackAnswers,
                journalCallbackAnswers_eq, hfails, JournalSucceeds, ← not_or]
        · rw [if_neg hneeds] at hending
          cases ending with
          | journaling reg => exact absurd rfl (hending reg)
          | finished node' =>
            simp [hneeds, journalAnswers, selectCallbackAnswers, selectCallbackRecord]
          | listing node' listing =>
            simp [hneeds, journalAnswers, selectCallbackAnswers, selectCallbackRecord]

theorem answeredOnce_select_iff (responseIds : List Int) (input : SelectInput)
    (result : Option RecordT) (afterwards : MemoryNode) :
    AnsweredOnce node (generateId responseIds) unassigned journal
      (.select input result afterwards) ↔
      WillBeAnswered node unassigned journal (.select input result afterwards) := by
  have htyped : ∀ answer : Answer, answer.WellTyped (.select input result afterwards) ↔
      ∃ record, answer = .record record := by
    intro answer
    cases answer <;> simp [Answer.WellTyped]
  simp only [AnsweredOnce, htyped, Request.answers, processSelect, WillBeAnswered]
  cases hfind : findPage node (toUppercase input.tableName.bytes) input.key.toNat with
  | none => simp
  | some found =>
    cases found with
    | some found =>
      obtain ⟨segment, page⟩ := found
      cases hpage : pageRecord node.memory page.index with
      | none => simp [hpage]
      | some found => simp [hpage, processSelectAnswer]
    | none => exact answeredOnce_miss_iff responseIds result

/-- **When a request gets one well-typed answer.** -/
theorem answeredOnce_iff (responseIds : List Int) (request : Request) :
    AnsweredOnce node (generateId responseIds) unassigned journal request ↔
      WillBeAnswered node unassigned journal request := by
  cases request with
  | insert now later input => exact answeredOnce_insert_iff responseIds now later input
  | select input result afterwards =>
    exact answeredOnce_select_iff responseIds input result afterwards

end Answers

/-! ## Requests without an answer, or with one of another type -/

/-- The memory of a node whose values have at most two bytes. -/
def emptyNode : MemoryNode := ⟨initMainMemory (List.replicate 23 7) 23 1, [], 2⟩

/-- The node after an INSERT, which leaves no page free. -/
def fullNode : MemoryNode :=
  ⟨emptyNode.memory.strcpy 0 (memoryText 1560000000000 1 [97]), [⟨[84], [⟨0, true⟩]⟩], 2⟩

def longInsert : InsertInput := ⟨.ofBytes [84], 1, .ofBytes [97, 97, 97], 0⟩

/-- A record that the filesystem answers to a SELECT of the key 2. -/
def answeredResult : RecordT := ⟨.ofBytes [84], 1550000000000, 2, .ofBytes [98], none⟩

/-- An INSERT of a long value is not answered where the memory at `found_page` was 0, and a
SELECT is answered with an `int` when its journal fails. -/
theorem answered_otherwise :
    Request.answers emptyNode (generateId []) false (some 0) (.insert 1 2 longInsert) = some [] ∧
    Request.answers fullNode (generateId []) true none
      (.select ⟨⟨[84], by decide⟩, 2⟩ (some answeredResult) fullNode) = some [.int (-4)] ∧
    ¬ ∀ node unassigned journal request, AnsweredOnce node (generateId []) unassigned journal
      request := by
  have hlong : Request.answers emptyNode (generateId []) false (some 0) (.insert 1 2 longInsert) =
      some [] := by decide +kernel
  refine ⟨hlong, by decide +kernel, fun hall => ?_⟩
  obtain ⟨answer, hanswer, -⟩ := hall emptyNode false (some 0) (.insert 1 2 longInsert)
  rw [hlong] at hanswer
  exact absurd (Option.some.inj hanswer) (List.cons_ne_nil _ _).symm

end Lissandra
