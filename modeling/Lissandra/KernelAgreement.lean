import Lissandra.JournalCompletion
import Lissandra.MemoryCriteria

/-! # The kernel's memories by address and by value

What the kernel does with the list of STRONG HASH CONSISTENCY is modelled twice: over addresses,
where a gossip can free what the list points to (`KernelMemories`), and over the memories themselves
(`HashedMemories`).  While nothing that a list points to is freed, both find, add and ask the same
memories (`SameMemories`).

`_local_journal_callback` is modelled twice too: point by point (`Journaling`), and in two steps
(`HashedMemories`).  A call that is not disturbed between its points does the same in both
(`SameJournaling.localJournalCallback`, `SameJournaling.compare`).
-/
namespace Lissandra

/-! ## Lists of memories -/

/-- The memories at the addresses of a list. -/
def Points (heap : MemoryHeap) (pointers : List MemoryPointer) (memories : List MemoryT) : Prop :=
  pointers.map heap = memories.map some

section Points
variable {heap : MemoryHeap} {pointers : List MemoryPointer} {memories : List MemoryT}
  {pointer : MemoryPointer} {memory : MemoryT}

theorem Points.length_eq (h : Points heap pointers memories) :
    pointers.length = memories.length := by
  have hlength := congrArg List.length h
  rwa [List.length_map, List.length_map] at hlength

theorem Points.getElem? (h : Points heap pointers memories) {i : Nat}
    (hi : i < memories.length) : ∃ memory pointer, memories[i]? = some memory ∧
      pointers[i]? = some pointer ∧ heap pointer = some memory := by
  have hpointers : i < pointers.length := h.length_eq.symm ▸ hi
  have hget := congrArg (fun list => list[i]?) h
  simp only [List.getElem?_map, List.getElem?_eq_getElem hi,
    List.getElem?_eq_getElem hpointers, Option.map_some] at hget
  exact ⟨_, _, List.getElem?_eq_getElem hi, List.getElem?_eq_getElem hpointers,
    Option.some.inj hget⟩

theorem Points.concat (h : Points heap pointers memories) (hpointer : heap pointer = some memory) :
    Points heap (pointers ++ [pointer]) (memories ++ [memory]) := by
  rw [Points, List.map_append, List.map_append, h, List.map_singleton, hpointer]
  rfl

/-- **`get_memory_by_id`** finds the address of what it finds. -/
theorem findMemory_agrees (h : Points heap pointers memories) (id : Int32) :
    (getMemoryById memories id = none ∧ findMemory heap id pointers = some none) ∨
      ∃ memory pointer, getMemoryById memories id = some memory ∧
        findMemory heap id pointers = some (some pointer) ∧ heap pointer = some memory := by
  induction pointers generalizing memories with
  | nil =>
    obtain rfl := List.map_eq_nil_iff.mp h.symm
    exact .inl ⟨rfl, rfl⟩
  | cons pointer rest ih =>
    obtain ⟨memory, later, rfl, hmemory, hlater⟩ := List.map_eq_cons_iff.mp h.symm
    unfold findMemory getMemoryById
    rw [← hmemory, Option.bind_eq_bind, Option.bind_some]
    by_cases hid : memory.id = id
    · rw [if_pos hid, List.find?_cons_of_pos (by simpa using hid)]
      exact .inr ⟨memory, pointer, rfl, rfl, hmemory.symm⟩
    · rw [if_neg hid, List.find?_cons_of_neg (by simpa using hid)]
      exact ih hlater.symm

end Points

/-- The same memories, known and assigned. -/
structure SameMemories (s : KernelMemories) (h : HashedMemories) : Prop where
  memories : Points s.heap s.memories h.memories
  memoriesAddedShc : Points s.heap s.memoriesAddedShc h.memoriesAddedShc

namespace SameMemories
variable {s : KernelMemories} {h : HashedMemories}

/-- **`get_any_shc_memory`** selects the same memory. -/
theorem getAnyShcMemory (hsame : SameMemories s h) (key : UInt16) :
    (Lissandra.getAnyShcMemory h.memoriesAddedShc key = none ∧
        s.getAnyShcMemory key = some none) ∨
      ∃ memory pointer, Lissandra.getAnyShcMemory h.memoriesAddedShc key = some memory ∧
        s.getAnyShcMemory key = some (some pointer) ∧ s.heap pointer = some memory := by
  unfold KernelMemories.getAnyShcMemory Lissandra.getAnyShcMemory
  rw [hsame.memoriesAddedShc.length_eq]
  split
  · exact .inl ⟨rfl, rfl⟩
  · rename_i hne
    -- the remainder of a key that is not negative is an index of the list
    have hindex : hash key.toNat h.memoriesAddedShc.length =
        ((key.toNat % h.memoriesAddedShc.length : Nat) : Int) := rfl
    obtain ⟨memory, pointer, hmemory, hselected, hpointer⟩ :=
      hsame.memoriesAddedShc.getElem? (Nat.mod_lt key.toNat (Nat.pos_of_ne_zero hne))
    rw [hindex, listGet, if_neg (by omega), Int.toNat_natCast]
    exact .inr ⟨memory, pointer, hmemory, by rw [hselected]; rfl, hpointer⟩

/-- **`add_shc_memory`** adds the same memory, or none. -/
theorem addShcMemory (hsame : SameMemories s h) (id : Int32) :
    ∃ s', s.addShcMemory id = some s' ∧ SameMemories s' (h.addShcMemory id) := by
  unfold KernelMemories.addShcMemory KernelMemories.assignable HashedMemories.addShcMemory
  rcases findMemory_agrees hsame.memories id with ⟨hnone, hfind⟩ | ⟨memory, pointer, hknown, hfind,
    hpointer⟩
  · rw [hnone, hfind]
    exact ⟨s, rfl, hsame⟩
  · rw [hknown, hfind]
    simp only [Option.bind_eq_bind, Option.bind_some, hpointer]
    cases halive : memory.alive with
    | false => exact ⟨s, rfl, hsame⟩
    | true =>
      rcases findMemory_agrees hsame.memoriesAddedShc id with ⟨hnew, hadded⟩ | ⟨_, _, hold,
        hadded, -⟩
      · rw [hnew, hadded]
        have hlonger := hsame.memoriesAddedShc.concat hpointer
        refine ⟨_, rfl, ?_⟩
        simp only [Bool.true_eq_false, if_false, Option.isSome_none, Bool.false_eq_true]
        split
        · exact ⟨hsame.memories, hlonger⟩
        · exact ⟨hsame.memories, hlonger⟩
      · rw [hold, hadded]
        exact ⟨s, rfl, hsame⟩

/-- **`exec_remote`** of a table with this consistency asks the memory that it assigns. -/
theorem execRemote (hsame : SameMemories s h) (key : UInt16) (random : Nat) (request : ShcRequest) :
    ∃ s', s.execRemote (some .strongHashConsistency) key random = some s' ∧
      SameMemories s' (h.execRemote key request) ∧
      ((s' = s ∧ h.execRemote key request = h) ∨
        ∃ pointer memory, s.heap pointer = some memory ∧
          s'.assigned = s.assigned ++ [pointer] ∧
          (h.execRemote key request).requests = (memory.id, request) :: h.requests) := by
  unfold KernelMemories.execRemote HashedMemories.execRemote
  rcases hsame.getAnyShcMemory key with ⟨hnone, hselected⟩ | ⟨memory, pointer, hmemory, hselected,
    hpointer⟩
  · simp only [KernelMemories.assignedMemory, hselected, hnone, Option.map_some,
      Option.bind_eq_bind, Option.bind_some]
    exact ⟨s, rfl, hsame, .inl ⟨rfl, trivial⟩⟩
  · simp only [KernelMemories.assignedMemory, hselected, hmemory, hpointer, Option.map_some,
      Option.bind_eq_bind, Option.bind_some]
    exact ⟨_, rfl, ⟨hsame.memories, hsame.memoriesAddedShc⟩,
      .inr ⟨pointer, memory, hpointer, rfl, rfl⟩⟩

end SameMemories

/-! ## Journaling -/

/-- The globals of a journaling. -/
structure SameJournaling {n : Nat} (j : Journaling n) (h : HashedMemories) : Prop where
  expected : h.journalExpected = j.gJournalExpected
  actual : h.journalActual = j.gJournalActual
  result : h.journalResult = j.gJournalResult.toInt

/-- **`journaling`** of the memories of the list. -/
theorem journaling_agrees (h : HashedMemories) :
    SameJournaling (journaling h.memoriesAddedShc.length) h.journaling := by
  unfold journaling HashedMemories.journaling
  dsimp only
  split
  · rename_i hzero
    exact ⟨hzero, rfl, rfl⟩
  · exact ⟨rfl, rfl, rfl⟩

namespace SameJournaling
variable {n : Nat} {j : Journaling n} {h : HashedMemories} {answer : Fin n → Option Int32}
  {i : Fin n}

/-- **`_local_journal_callback`** up to its `sem_post`: the answer is counted and told. -/
theorem localJournalCallback (hsame : SameJournaling j h) (hcalled : j.point i = .called)
    {reply : Answer} (hreply : reply = .int (-1) ↔ Failed (answer i)) :
    ∃ j', [i, i].foldlM (Journaling.step answer) j = some j' ∧ j'.point i = .recorded ∧
      SameJournaling j' (h.localJournalCallback reply) := by
  have hcounted : ∃ j₁, j.step answer i = some j₁ ∧ j₁.point i = .counted ∧
      j₁.gJournalExpected = j.gJournalExpected ∧ j₁.gJournalActual = j.gJournalActual + 1 ∧
      j₁.gJournalResult = j.gJournalResult := by
    rw [Journaling.step, hcalled]
    exact ⟨_, rfl, Function.update_self .., rfl, rfl, rfl⟩
  obtain ⟨j₁, hstep, hpoint, hexpected, hactual, hresult⟩ := hcounted
  rw [List.foldlM_cons, hstep, Option.bind_eq_bind, Option.bind_some, List.foldlM_cons,
    Journaling.step, hpoint]
  dsimp only
  by_cases hfailed : Failed (answer i)
  · rw [if_pos hfailed]
    refine ⟨_, rfl, Function.update_self .., hsame.expected.trans hexpected.symm, ?_, ?_⟩
    · exact (congrArg (· + 1) hsame.actual).trans hactual.symm
    · exact if_pos (hreply.mpr hfailed)
  · rw [if_neg hfailed]
    refine ⟨_, rfl, Function.update_self .., hsame.expected.trans hexpected.symm, ?_, ?_⟩
    · exact (congrArg (· + 1) hsame.actual).trans hactual.symm
    · refine (if_neg fun heq => hfailed (hreply.mp heq)).trans (hsame.result.trans ?_)
      exact congrArg Int32.toInt hresult.symm

/-- **`_local_journal_callback`** from its comparison on: the semaphore is posted as often. -/
theorem compare (hsame : SameJournaling j h) (hrecorded : j.point i = .recorded) :
    ∃ k j' h', (List.replicate k i).foldlM (Journaling.step answer) j = some j' ∧
      j'.point i = .finished ∧ h.runThread .compare = some h' ∧ SameJournaling j' h' ∧
      h'.journalSemaphore + j.posts = h.journalSemaphore + j'.posts := by
  by_cases hlast : j.gJournalActual = j.gJournalExpected
  · have hcompare : h.journalActual = h.journalExpected := by
      rw [hsame.actual, hsame.expected, hlast]
    have hcompleting : j.step answer i = some (j.goto i .completing) := by
      simp [Journaling.step, hrecorded, hlast]
    have hposting : ∃ j₂, (j.goto i .completing).step answer i = some j₂ ∧
        j₂.point i = .posting ∧ SameJournaling j₂ h ∧ j₂.posts = j.posts := by
      simp only [Journaling.step, Journaling.goto_point, Function.update_self]
      exact ⟨_, rfl, Function.update_self .., ⟨hsame.expected, hsame.actual, hsame.result⟩, rfl⟩
    obtain ⟨j₂, hstep, hpoint, hposted, hposts⟩ := hposting
    have hfinished : j₂.step answer i =
        some { j₂.goto i .finished with posts := j₂.posts + 1 } := by
      simp [Journaling.step, hpoint]
    refine ⟨3, { j₂.goto i .finished with posts := j₂.posts + 1 },
      { h with journalSemaphore := h.journalSemaphore + 1 }, ?_, Function.update_self .., ?_,
      ⟨hposted.expected, hposted.actual, hposted.result⟩, ?_⟩
    · simp only [List.replicate, List.foldlM_cons, hcompleting, hstep, hfinished,
        Option.bind_eq_bind, Option.bind_some, List.foldlM_nil]
      rfl
    · simp [HashedMemories.runThread, hcompare]
    · dsimp only
      omega
  · have hcompare : h.journalActual ≠ h.journalExpected := by
      rw [hsame.actual, hsame.expected]
      exact hlast
    refine ⟨1, j.goto i .finished, h, ?_, Function.update_self .., ?_, ?_, rfl⟩
    · simp [Journaling.step, hrecorded, hlast]
    · simp [HashedMemories.runThread, hcompare]
    · exact ⟨hsame.expected, hsame.actual, hsame.result⟩

end SameJournaling
end Lissandra
