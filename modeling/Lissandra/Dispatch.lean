import Lissandra.Describer
import Lissandra.MemoryCriteria
import Lissandra.Scheduler

/-! # The request of a statement

`exec_remote` looks a table up in `g_table_metadata` twice: first for whether it is there, then
for its consistency.  An update may come in between, and then the second lookup returns -1.  But
`consistency_t` is a packed enumeration without negative constants, so what is compared with -1
is 255: the table that is gone is not noticed, no case of the `switch` is for it, and the
variable for the memory keeps what the stack had (`uninitialised`).

The statistics of the statement are left out.  `none` is an address at which there is no memory.
-/
namespace Lissandra

/-! ## Lookups -/

/-- `table_exists_in_metadata`. -/
def tableExistsInMetadata (tableName : CString) : List TableMetadataT → Bool
  | [] => false
  | metadata :: rest =>
    if metadata.isNamed tableName then true else tableExistsInMetadata tableName rest

/-- `consistency_t`: one byte without a sign. -/
def Consistency.toEnum : Consistency → UInt8
  | .strongConsistency => 0
  | .strongHashConsistency => 1
  | .eventualConsistency => 2

/-- The case of a `switch` for a `consistency_t`. -/
def Consistency.ofEnum (consistency : UInt8) : Option Consistency :=
  if consistency = 0 then some .strongConsistency
  else if consistency = 1 then some .strongHashConsistency
  else if consistency = 2 then some .eventualConsistency
  else none

/-- `get_consistency_from_table`. -/
def getConsistencyFromTable (tableName : CString) : List TableMetadataT → UInt8
  | [] => -1
  | metadata :: rest =>
    if metadata.isNamed tableName then metadata.consistency.toEnum
    else getConsistencyFromTable tableName rest

@[simp] theorem Consistency.ofEnum_toEnum (consistency : Consistency) :
    Consistency.ofEnum consistency.toEnum = some consistency := by
  cases consistency <;> rfl

/-- What the second lookup returns for a table that is there. -/
theorem getConsistencyFromTable_of_exists {tableName : CString}
    {metadata : List TableMetadataT} (h : tableExistsInMetadata tableName metadata) :
    ∃ consistency : Consistency,
      getConsistencyFromTable tableName metadata = consistency.toEnum := by
  induction metadata with
  | nil => cases h
  | cons first rest ih =>
    rw [tableExistsInMetadata] at h
    rw [getConsistencyFromTable]
    split_ifs at h ⊢ with hnamed
    · exact ⟨first.consistency, rfl⟩
    · exact ih h

/-- The second lookup returns the byte of -1 for a table that is gone. -/
theorem getConsistencyFromTable_of_gone {tableName : CString}
    {metadata : List TableMetadataT} (h : tableExistsInMetadata tableName metadata = false) :
    getConsistencyFromTable tableName metadata = 255 := by
  induction metadata with
  | nil => rfl
  | cons first rest ih =>
    rw [tableExistsInMetadata] at h
    rw [getConsistencyFromTable]
    split_ifs at h ⊢ with hnamed
    exact ih h

/-- No byte is -1. -/
theorem promoted_ne (consistency : UInt8) : (consistency.toNat : Int) ≠ -1 := by
  omega

/-! ## Statements -/

/-- The statements that go to a memory. -/
inductive RemoteStatement where
  | select (input : SelectInput)
  | insert (input : InsertInput)
  | create (input : CreateInput)
  | describe (input : DescribeInput)
  | drop (input : DropInput)

namespace RemoteStatement

/-- The `network_operation` and the `input` of the request. -/
def content : RemoteStatement → Sigma Content
  | .select input => ⟨.selectIn, input⟩
  | .insert input => ⟨.insertIn, input⟩
  | .create input => ⟨.createIn, input⟩
  | .describe input => ⟨.describeIn, input⟩
  | .drop input => ⟨.dropIn, input⟩

/-- The table of the first lookup. -/
def validated : RemoteStatement → Option CString
  | .select input => some input.tableName
  | .insert input => some input.tableName
  | .create _ => none
  | .describe _ => none
  | .drop input => some input.tableName

/-- The table of the second lookup, and the key. -/
def routed : RemoteStatement → Option (CString × UInt16)
  | .select input => some (input.tableName, input.key)
  | .insert input => some (input.tableName, input.key)
  | .create _ => none
  | .describe _ => none
  | .drop _ => none

/-- A table of the second lookup is one of the first. -/
theorem validated_of_routed {statement : RemoteStatement} {tableName : CString} {key : UInt16}
    (h : statement.routed = some (tableName, key)) : statement.validated = some tableName := by
  cases statement with
  | select input => cases h; rfl
  | insert input => cases h; rfl
  | create input => cases h
  | describe input => cases h
  | drop input => cases h

/-- The table of a SELECT or an INSERT that is there at the first lookup is there at the
second. -/
def StaysListed (statement : RemoteStatement) (before after : List TableMetadataT) : Prop :=
  ∀ route ∈ statement.routed,
    tableExistsInMetadata route.1 before → tableExistsInMetadata route.1 after

instance (statement : RemoteStatement) (before after : List TableMetadataT) :
    Decidable (statement.StaysListed before after) :=
  Option.decidableForallMem statement.routed

end RemoteStatement

/-! ## `exec_remote` -/

/-- A `do_simple_request` of the kernel. -/
structure KernelRequest where
  memory : MemoryPointer
  ip : CString
  port : Int32
  content : Sigma Content

/-- What `exec_remote` writes to, besides the lists of memories. -/
structure Dispatch where
  pcb : Pcb
  requests : List KernelRequest
  execSemaphores : Nat → Nat

namespace Dispatch

/-- The process fails, and the thread of its slot goes on. -/
def fail (d : Dispatch) : Dispatch :=
  { d with
    pcb := { d.pcb with errors := true, programCounter := d.pcb.statements.length }
    execSemaphores :=
      Function.update d.execSemaphores d.pcb.processor (d.execSemaphores d.pcb.processor + 1) }

/-- The end of `exec_remote`, with the `assigned_memory`. -/
def send (d : Dispatch) (content : Sigma Content) (s : KernelMemories)
    (assignedMemory : Option MemoryPointer) : Option (KernelMemories × Dispatch) :=
  match assignedMemory with
  | none => some (s, d.fail)
  | some pointer => do
    let memory ← s.heap pointer
    some (s, { d with requests := d.requests ++ [⟨pointer, memory.ip, memory.port, content⟩] })

/-- The `switch` over the consistency. -/
def assign (s : KernelMemories) (consistency : UInt8) (key : UInt16) (random : Nat)
    (uninitialised : Option MemoryPointer) : Option (Option MemoryPointer × KernelMemories) :=
  match Consistency.ofEnum consistency with
  | some criterion => s.assignedMemory (some criterion) key random
  | none => some (uninitialised, s)

/-- `exec_remote`.  The list of tables is `before` at the first lookup and `after` at the
second. -/
def execRemote (d : Dispatch) (s : KernelMemories) (statement : RemoteStatement)
    (before after : List TableMetadataT) (random : Nat) (uninitialised : Option MemoryPointer) :
    Option (KernelMemories × Dispatch) :=
  if statement.validated.any fun tableName => !tableExistsInMetadata tableName before then
    some (s, d.fail)
  else
    match statement.routed with
    | some (tableName, key) => do
      let consistency := getConsistencyFromTable tableName after
      -- The byte is promoted to an int before it is compared.
      if (consistency.toNat : Int) = -1 then some (s, d.fail)
      else
        let (assignedMemory, s) ← assign s consistency key random uninitialised
        d.send statement.content s assignedMemory
    | none => do
      let (assignedMemory, s) ← s.assignedMemory none 0 random
      d.send statement.content s assignedMemory

/-- One request is sent, for SELECT and INSERT to a memory of the list of the criterion of the
table. -/
structure Sends (d : Dispatch) (s : KernelMemories) (statement : RemoteStatement)
    (after : List TableMetadataT) (request : KernelRequest) (d' : Dispatch) : Prop where
  content : request.content = statement.content
  criterion : ∀ route ∈ statement.routed, ∃ consistency : Consistency,
    getConsistencyFromTable route.1 after = consistency.toEnum ∧
      request.memory ∈ s.added consistency
  other : statement.routed = none → request.memory ∈ s.memories
  sent : d' = { d with requests := d.requests ++ [request] }

/-- Either one request is sent, or the process has failed and its slot is posted once. -/
def WellDefined (d : Dispatch) (s : KernelMemories) (statement : RemoteStatement)
    (after : List TableMetadataT) (d' : Dispatch) : Prop :=
  (∃ request, d.Sends s statement after request d') ∨ d' = d.fail

/-! ## Well defined dispatch -/

/-- The lists of memories as the kernel keeps them: what they point to is allocated, and `ec_next`
starts at -1. -/
structure MemoryLists extends KernelMemories where
  allocated : ∀ pointer, pointer ∈ memories ∨ (∃ consistency, pointer ∈ toKernelMemories.added
    consistency) → ∃ memory, heap pointer = some memory
  startsBefore : -1 ≤ ecNext

section Lists
variable {list : List MemoryPointer} {index : Int}

/-- A selection by an index that is in range. -/
theorem listGet_selects
    (hindex : list.length ≠ 0 → 0 ≤ index ∧ index < (list.length : Int)) :
    ∃ selected, (if list.length = 0 then some none else (listGet list index).map some)
        = some selected ∧ ∀ pointer ∈ selected, pointer ∈ list := by
  split_ifs with hempty
  · exact ⟨none, rfl, by simp⟩
  · obtain ⟨hle, hlt⟩ := hindex hempty
    obtain ⟨pointer, hmem, hget⟩ := KernelMemories.listGet_of_bounds hle hlt
    rw [hget]
    exact ⟨some pointer, rfl, by simpa using hmem⟩

theorem aliveMemories_of_allocated (heap : MemoryHeap) (list : List MemoryPointer)
    (h : ∀ pointer ∈ list, ∃ memory, heap pointer = some memory) :
    ∃ alive, aliveMemories heap list = some alive ∧ ∀ pointer ∈ alive, pointer ∈ list := by
  induction list with
  | nil => exact ⟨[], rfl, by simp⟩
  | cons first rest ih =>
    obtain ⟨memory, hmemory⟩ := h first List.mem_cons_self
    obtain ⟨alive, halive, hsub⟩ := ih fun pointer hmem => h pointer (List.mem_cons_of_mem _ hmem)
    refine ⟨if memory.alive then first :: alive else alive, ?_, ?_⟩
    · rw [aliveMemories, hmemory, halive]
      rfl
    · intro pointer hmem
      split_ifs at hmem
      · rcases List.mem_cons.mp hmem with rfl | hmem
        · exact List.mem_cons_self
        · exact List.mem_cons_of_mem _ (hsub pointer hmem)
      · exact List.mem_cons_of_mem _ (hsub pointer hmem)

end Lists

/-- `get_any_ec_memory` moves `ec_next` to an index of its list. -/
def MemoryLists.move (lists : MemoryLists) (hne : lists.memoriesAddedEc.length ≠ 0) :
    MemoryLists where
  toKernelMemories := { lists.toKernelMemories with ecNext := lists.nextEc }
  allocated pointer hmem := lists.allocated pointer <| by
    refine hmem.imp_right ?_
    rintro ⟨consistency, hmem⟩
    refine ⟨consistency, ?_⟩
    cases consistency <;> exact hmem
  startsBefore := by
    have := (KernelMemories.nextEc_bounds lists.startsBefore hne).1
    show -1 ≤ lists.nextEc
    omega

/-- A memory of the list of a criterion is selected, or none. -/
theorem assignedMemory_criterion (lists : MemoryLists) (criterion : Consistency) (key : UInt16)
    (random : Nat) :
    ∃ selected, ∃ lists' : MemoryLists,
      lists.assignedMemory (some criterion) key random
        = some (selected, lists'.toKernelMemories) ∧
      lists'.heap = lists.heap ∧ ∀ pointer ∈ selected, pointer ∈ lists.added criterion := by
  cases criterion with
  | strongConsistency =>
    have hindex : lists.memoriesAddedSc.length ≠ 0 →
        (0 : Int) ≤ 0 ∧ (0 : Int) < lists.memoriesAddedSc.length := by omega
    obtain ⟨selected, hselected, hmem⟩ := listGet_selects hindex
    refine ⟨selected, lists, ?_, rfl, hmem⟩
    show lists.getAnyScMemory.map _ = _
    rw [KernelMemories.getAnyScMemory, hselected]
    rfl
  | strongHashConsistency =>
    have hindex : lists.memoriesAddedShc.length ≠ 0 →
        0 ≤ hash key.toNat lists.memoriesAddedShc.length ∧
          hash key.toNat lists.memoriesAddedShc.length < lists.memoriesAddedShc.length := by
      intro hne
      constructor
      · exact Int.tmod_nonneg _ (Int.natCast_nonneg _)
      · exact Int.tmod_lt_of_pos _ (by omega)
    obtain ⟨selected, hselected, hmem⟩ := listGet_selects hindex
    refine ⟨selected, lists, ?_, rfl, hmem⟩
    show (lists.getAnyShcMemory key).map _ = _
    rw [KernelMemories.getAnyShcMemory, hselected]
    rfl
  | eventualConsistency =>
    show ∃ selected, ∃ lists' : MemoryLists, lists.getAnyEcMemory = _ ∧ _
    unfold KernelMemories.getAnyEcMemory
    split_ifs with hempty
    · exact ⟨none, lists, rfl, rfl, by simp⟩
    · obtain ⟨hle, hlt⟩ := KernelMemories.nextEc_bounds lists.startsBefore hempty
      obtain ⟨pointer, hmem, hget⟩ := KernelMemories.listGet_of_bounds hle hlt
      rw [hget]
      refine ⟨some pointer, lists.move hempty, rfl, rfl, ?_⟩
      rintro other ⟨⟩
      exact hmem

/-- Any memory is selected, or none. -/
theorem assignedMemory_any (lists : MemoryLists) (key : UInt16) (random : Nat) :
    ∃ selected, lists.assignedMemory none key random = some (selected, lists.toKernelMemories) ∧
      ∀ pointer ∈ selected, pointer ∈ lists.memories := by
  obtain ⟨alive, halive, hsub⟩ := aliveMemories_of_allocated lists.heap
    lists.memories fun pointer hmem => lists.allocated pointer (.inl hmem)
  show ∃ selected, (lists.getAnyMemory random).map _ = _ ∧ _
  simp only [KernelMemories.getAnyMemory, halive, Option.bind_eq_bind, Option.bind_some]
  split_ifs with hempty
  · exact ⟨none, rfl, by simp⟩
  · have hlt : random % alive.length < alive.length :=
      Nat.mod_lt _ (List.length_pos_iff.mpr hempty)
    rw [List.getElem?_eq_getElem hlt]
    exact ⟨some alive[random % alive.length], rfl, by simpa using hsub _ (List.getElem_mem hlt)⟩

section Send
variable {d : Dispatch} {statement : RemoteStatement} {before after : List TableMetadataT}

/-- The end of `exec_remote`, with a memory that is allocated or none. -/
theorem send_spec (d : Dispatch) (s : KernelMemories) (content : Sigma Content)
    (selected : Option MemoryPointer)
    (h : ∀ pointer ∈ selected, ∃ memory, s.heap pointer = some memory) :
    ∃ d', d.send content s selected = some (s, d') ∧
      ((∃ request, request.content = content ∧ request.memory ∈ selected ∧
        d' = { d with requests := d.requests ++ [request] }) ∨ d' = d.fail) := by
  cases selected with
  | none => exact ⟨d.fail, rfl, .inr rfl⟩
  | some pointer =>
    obtain ⟨memory, hmemory⟩ := h pointer rfl
    refine ⟨_, ?_, .inl ⟨⟨pointer, memory.ip, memory.port, content⟩, rfl, rfl, rfl⟩⟩
    simp [send, hmemory]

/-- A statement whose table is in none of the lookups of its kind, or in all of them. -/
theorem execRemote_wellDefined (lists : MemoryLists) (d : Dispatch) (random : Nat)
    (uninitialised : Option MemoryPointer) (hlisted : statement.StaysListed before after) :
    ∃ s' d', d.execRemote lists.toKernelMemories statement before after random uninitialised
        = some (s', d') ∧
      d.WellDefined lists.toKernelMemories statement after d' := by
  by_cases hunknown : statement.validated.any fun tableName =>
      !tableExistsInMetadata tableName before
  · exact ⟨_, d.fail, if_pos hunknown, .inr rfl⟩
  rw [execRemote, if_neg hunknown]
  cases hroute : statement.routed with
  | none =>
    obtain ⟨selected, hselected, hmem⟩ := assignedMemory_any lists 0 random
    obtain ⟨d', hsend, hd'⟩ := send_spec d lists.toKernelMemories statement.content
      selected fun pointer hpointer =>
        lists.allocated pointer (.inl (hmem pointer hpointer))
    refine ⟨lists.toKernelMemories, d', by simp [hselected, hsend], ?_⟩
    refine hd'.imp_left ?_
    rintro ⟨request, hcontent, hrequest, rfl⟩
    exact ⟨request, hcontent, by simp [hroute], fun _ => hmem _ hrequest, rfl⟩
  | some route =>
    obtain ⟨tableName, key⟩ := route
    have hvalidated := RemoteStatement.validated_of_routed hroute
    have hbefore : tableExistsInMetadata tableName before := by
      simpa [hvalidated] using hunknown
    have hafter : tableExistsInMetadata tableName after := hlisted (tableName, key) hroute hbefore
    obtain ⟨criterion, hcriterion⟩ := getConsistencyFromTable_of_exists hafter
    obtain ⟨selected, lists', hselected, hheap, hmem⟩ :=
      assignedMemory_criterion lists criterion key random
    obtain ⟨d', hsend, hd'⟩ := send_spec d lists'.toKernelMemories statement.content
      selected fun pointer hpointer => by
        rw [hheap]
        exact lists.allocated pointer (.inr ⟨criterion, hmem pointer hpointer⟩)
    refine ⟨lists'.toKernelMemories, d', ?_, ?_⟩
    · simp only [hcriterion, promoted_ne, if_false, assign, Consistency.ofEnum_toEnum, hselected]
      exact hsend
    · refine hd'.imp_left ?_
      rintro ⟨request, hcontent, hrequest, rfl⟩
      refine ⟨request, hcontent, ?_, by simp [hroute], rfl⟩
      intro other hother
      obtain rfl : (tableName, key) = other := by simpa [hroute] using hother
      exact ⟨criterion, hcriterion, hmem _ hrequest⟩

/-- A table that is gone at the second lookup is not noticed: the request goes to what was on the
stack. -/
theorem execRemote_of_gone {tableName : CString} {key : UInt16} (d : Dispatch)
    (s : KernelMemories) (statement : RemoteStatement) (before after : List TableMetadataT)
    (random : Nat) (uninitialised : Option MemoryPointer)
    (hroute : statement.routed = some (tableName, key))
    (hbefore : tableExistsInMetadata tableName before)
    (hafter : tableExistsInMetadata tableName after = false) :
    d.execRemote s statement before after random uninitialised
      = d.send statement.content s uninitialised := by
  have hknown : ¬ statement.validated.any fun tableName =>
      !tableExistsInMetadata tableName before := by
    simp [RemoteStatement.validated_of_routed hroute, hbefore]
  have hcode : Consistency.ofEnum 255 = none := rfl
  rw [execRemote, if_neg hknown, hroute]
  simp only [getConsistencyFromTable_of_gone hafter, promoted_ne, if_false, assign, hcode]
  rfl

/-- What was on the stack may be an address. -/
theorem not_wellDefined_of_gone {s s' : KernelMemories} {d d' : Dispatch}
    {pointer : MemoryPointer} (tableName : CString) (key : UInt16)
    (hroute : statement.routed = some (tableName, key))
    (hafter : tableExistsInMetadata tableName after = false)
    (hsend : d.send statement.content s (some pointer) = some (s', d')) :
    ¬ d.WellDefined s statement after d' := by
  obtain ⟨memory, -, heq⟩ := Option.bind_eq_some_iff.mp hsend
  obtain ⟨-, rfl⟩ := Prod.mk.inj (Option.some.inj heq)
  rintro (⟨request, hsends⟩ | hfail)
  · obtain ⟨consistency, hconsistency, -⟩ := hsends.criterion (tableName, key) hroute
    have hcode := congrArg Consistency.ofEnum hconsistency
    rw [getConsistencyFromTable_of_gone hafter, Consistency.ofEnum_toEnum] at hcode
    cases hcode
  · have hlength := congrArg (fun d => d.requests.length) hfail
    simp [fail] at hlength

end Send

/-- **When the dispatch is well defined.**  Whatever is on the stack, `exec_remote` sends one
request, for SELECT and INSERT to a memory of the criterion of the table, or has the process fail
and posts its slot once: unless a SELECT or INSERT finds its table at the first lookup and no
longer at the second. -/
theorem execRemote_wellDefined_iff (lists : MemoryLists) (d : Dispatch)
    (statement : RemoteStatement) (before after : List TableMetadataT) (random : Nat) :
    (∀ uninitialised, ∃ s' d',
      d.execRemote lists.toKernelMemories statement before after random uninitialised
        = some (s', d') ∧ d.WellDefined lists.toKernelMemories statement after d') ↔
      statement.StaysListed before after := by
  constructor
  · rintro hdefined ⟨tableName, key⟩ hroute hbefore
    by_contra hafter
    rw [Bool.not_eq_true] at hafter
    obtain ⟨s', d', hrun, hd'⟩ := hdefined (some 0)
    rw [execRemote_of_gone d _ _ _ _ random _ hroute hbefore hafter] at hrun
    exact not_wellDefined_of_gone tableName key hroute hafter hrun hd'
  · intro hlisted uninitialised
    exact execRemote_wellDefined lists d random uninitialised hlisted

/-- A kernel with one memory that has no criterion. -/
def unassignedMemory : KernelMemories where
  heap := Function.update (fun _ => none) 7 (some ⟨1, .ofBytes [49], 8001, true, 0⟩)
  memories := [7]
  memoriesAddedSc := []
  memoriesAddedShc := []
  memoriesAddedEc := []
  ecNext := -1
  gossips := []
  assigned := []

/-- A process with a SELECT, in the first slot. -/
def selectDispatch : Dispatch where
  pcb := { getNewPcb [generateStatement .select] 1 0 with state := .exec }
  requests := []
  execSemaphores _ := 0

/-- A SELECT of a table that is dropped between the lookups is sent to a memory that has no
criterion, whose address was on the stack. -/
theorem execRemote_not_wellDefined :
    ∃ s' d', selectDispatch.execRemote unassignedMemory (.select ⟨.ofBytes [65], 3⟩)
        [letterTable 65] [] 0 (some 7) = some (s', d') ∧
      d'.requests.map KernelRequest.memory = [7] ∧
      ¬ selectDispatch.WellDefined unassignedMemory (.select ⟨.ofBytes [65], 3⟩) [] d' := by
  have hrun := execRemote_of_gone selectDispatch unassignedMemory (.select ⟨.ofBytes [65], 3⟩)
    [letterTable 65] [] 0 (some 7) rfl rfl rfl
  have hsend : selectDispatch.send (RemoteStatement.select ⟨.ofBytes [65], 3⟩).content
      unassignedMemory (some 7) = some (unassignedMemory, { selectDispatch with
        requests := [⟨7, .ofBytes [49], 8001, .selectIn, ⟨.ofBytes [65], 3⟩⟩] }) := rfl
  refine ⟨unassignedMemory, _, hrun.trans hsend, rfl, ?_⟩
  exact not_wellDefined_of_gone (.ofBytes [65]) 3 rfl rfl hsend

end Dispatch
end Lissandra
