import Lissandra.Console
import Lissandra.HashedMemories
import Lissandra.RoundRobin
import Lissandra.Runs
import Mathlib.Logic.Function.Basic

/-! # Memories and their criteria

The kernel knows memories by their address: `g_memories`, the lists of the three criteria, the
gossip requests in flight and the statements that wait for an answer all point to the same
`memory_t`.  What one of them writes the others see.

Until the first gossip is answered there is a memory without a number, of id -1, and the answer
frees it.  Nothing looks for it in the lists of the criteria, since `ADD MEMORY` asks for a
number that is not negative; but the number is a `long` when it is checked and an `int` when it
is used.

A step is the body of one of the functions.  The journaling that some of them ask for does not
touch the lists and is left out.  `none` is a `NULL` or a freed address that is dereferenced.
-/
namespace Lissandra

/-- The address of a `memory_t`. -/
abbrev MemoryPointer := Nat

/-- The memories that are allocated. -/
abbrev MemoryHeap := MemoryPointer → Option MemoryT

/-! ## Lists of addresses -/

/-- The loop of `get_memory_by_id`. -/
def findMemory (heap : MemoryHeap) (id : Int32) : List MemoryPointer → Option (Option MemoryPointer)
  | [] => some none
  | pointer :: rest => do
    let memory ← heap pointer
    if memory.id = id then some (some pointer) else findMemory heap id rest

/-- `remove_memory_from_consistency`. -/
def removeMemoryFromConsistency (heap : MemoryHeap) (id : Int32) :
    List MemoryPointer → Option (List MemoryPointer)
  | [] => some []
  | pointer :: rest => do
    let memory ← heap pointer
    if memory.id = id then some rest
    else (removeMemoryFromConsistency heap id rest).map (pointer :: ·)

/-- `list_filter(g_memories, is_memory_alive)`. -/
def aliveMemories (heap : MemoryHeap) : List MemoryPointer → Option (List MemoryPointer)
  | [] => some []
  | pointer :: rest => do
    let memory ← heap pointer
    let alive ← aliveMemories heap rest
    some (if memory.alive then pointer :: alive else alive)

/-- `list_get`. -/
def listGet (list : List MemoryPointer) (index : Int) : Option MemoryPointer :=
  if index < 0 then none else list[index.toNat]?

/-! ## The kernel -/

/-- The memories of the kernel, its gossip requests in flight, and the memories that statements in
flight are assigned to. -/
structure KernelMemories where
  heap : MemoryHeap
  memories : List MemoryPointer
  memoriesAddedSc : List MemoryPointer
  memoriesAddedShc : List MemoryPointer
  memoriesAddedEc : List MemoryPointer
  ecNext : Int
  gossips : List MemoryPointer
  assigned : List MemoryPointer

/-- What happens next.  `random` is what `random()` says, and an answer comes with the addresses
that `malloc` has for its memories. -/
inductive KernelAction where
  | processAdd (input : AddInput)
  | gossip (random : Nat)
  | postGossip (i : Nat) (received : List (MemoryT × MemoryPointer)) (now : Int64)
  | failGossip (i : Nat) (now : Int64)
  | execRemote (consistency : Option Consistency) (key : UInt16) (random : Nat)
  | requestAnswered (i : Nat)
  | requestFailed (i : Nat) (now : Int64)

namespace KernelMemories
variable (s : KernelMemories)

/-- The list of a criterion. -/
def added : Consistency → List MemoryPointer
  | .strongConsistency => s.memoriesAddedSc
  | .strongHashConsistency => s.memoriesAddedShc
  | .eventualConsistency => s.memoriesAddedEc

/-- A memory is written. -/
def write (pointer : MemoryPointer) (memory : MemoryT) : KernelMemories :=
  { s with heap := Function.update s.heap pointer (some memory) }

/-- `free`. -/
def free (pointer : MemoryPointer) : KernelMemories :=
  { s with heap := Function.update s.heap pointer none }

/-! ### ADD MEMORY -/

/-- The checks that the three criteria have in common: the memory, unless it is refused. -/
def assignable (list : List MemoryPointer) (id : Int32) : Option (Option MemoryPointer) := do
  match ← findMemory s.heap id s.memories with
  | none => some none
  | some pointer =>
    let memory ← s.heap pointer
    if memory.alive = false then some none
    else
      match ← findMemory s.heap id list with
      | some _ => some none
      | none => some (some pointer)

/-- `add_sc_memory`. -/
def addScMemory (id : Int32) : Option KernelMemories := do
  match ← s.assignable s.memoriesAddedSc id with
  | none => some s
  | some pointer =>
    if 0 < s.memoriesAddedSc.length then some s
    else some { s with memoriesAddedSc := s.memoriesAddedSc ++ [pointer] }

/-- `add_shc_memory`. -/
def addShcMemory (id : Int32) : Option KernelMemories := do
  match ← s.assignable s.memoriesAddedShc id with
  | none => some s
  | some pointer => some { s with memoriesAddedShc := s.memoriesAddedShc ++ [pointer] }

/-- `add_ec_memory`. -/
def addEcMemory (id : Int32) : Option KernelMemories := do
  match ← s.assignable s.memoriesAddedEc id with
  | none => some s
  | some pointer => some { s with memoriesAddedEc := s.memoriesAddedEc ++ [pointer] }

/-- `process_add`. -/
def processAdd (input : AddInput) : Option KernelMemories :=
  match input.consistency with
  | .strongConsistency => s.addScMemory input.memoryNumber
  | .strongHashConsistency => s.addShcMemory input.memoryNumber
  | .eventualConsistency => s.addEcMemory input.memoryNumber

/-! ### Dead memories -/

/-- `remove_memory`. -/
def removeMemory (id : Int32) : Option KernelMemories := do
  let memoriesAddedSc ← removeMemoryFromConsistency s.heap id s.memoriesAddedSc
  let memoriesAddedShc ← removeMemoryFromConsistency s.heap id s.memoriesAddedShc
  let memoriesAddedEc ← removeMemoryFromConsistency s.heap id s.memoriesAddedEc
  some { s with memoriesAddedSc, memoriesAddedShc, memoriesAddedEc }

/-- A memory that did not answer. -/
def memoryFailed (pointer : MemoryPointer) (now : Int64) : Option KernelMemories := do
  let memory ← s.heap pointer
  (s.write pointer { memory with alive := false, timestamp := now }).removeMemory memory.id

/-! ### Gossiping -/

/-- `gossip`, with `get_random_memory` for an alive memory and, if there is none, for any. -/
def gossip (random : Nat) : Option KernelMemories := do
  let alive ← aliveMemories s.heap s.memories
  let gossipable := if alive = [] then s.memories else alive
  let pointer ← gossipable[random % gossipable.length]?
  some { s with gossips := s.gossips ++ [pointer] }

/-- `update_memory`. -/
def updateMemory (memory : MemoryT) (address : MemoryPointer) : Option KernelMemories := do
  match ← findMemory s.heap memory.id s.memories with
  | some pointer =>
    let existing ← s.heap pointer
    if existing.timestamp.toInt < memory.timestamp.toInt then
      let s := s.write pointer { memory with id := existing.id }
      if memory.alive = false then s.removeMemory existing.id else some s
    else some s
  | none =>
    if (s.heap address).isSome then none
    else some { s.write address memory with memories := s.memories ++ [address] }

/-- The loop over the received memories. -/
def updateMemories : KernelMemories → List (MemoryT × MemoryPointer) → Option KernelMemories
  | s, [] => some s
  | s, (memory, address) :: rest => do
    let s ← s.updateMemory memory address
    updateMemories s rest

/-- `post_gossip` with an answer. -/
def postGossip (i : Nat) (received : List (MemoryT × MemoryPointer)) (now : Int64) :
    Option KernelMemories := do
  let pointer ← s.gossips[i]?
  let selected ← s.heap pointer
  let s := { s with gossips := s.gossips.eraseIdx i }
  let s := if selected.id = -1 then { s with memories := s.memories.drop 1 }.free pointer
    else s.write pointer { selected with alive := true, timestamp := now }
  updateMemories s received

/-- `post_gossip` with `NULL`. -/
def failGossip (i : Nat) (now : Int64) : Option KernelMemories := do
  let pointer ← s.gossips[i]?
  { s with gossips := s.gossips.eraseIdx i }.memoryFailed pointer now

/-! ### Statements -/

/-- `get_any_memory`. -/
def getAnyMemory (random : Nat) : Option (Option MemoryPointer) := do
  let alive ← aliveMemories s.heap s.memories
  if alive = [] then some none else (alive[random % alive.length]?).map some

/-- `get_any_sc_memory`. -/
def getAnyScMemory : Option (Option MemoryPointer) :=
  if s.memoriesAddedSc.length = 0 then some none else (listGet s.memoriesAddedSc 0).map some

/-- `get_any_shc_memory`. -/
def getAnyShcMemory (key : UInt16) : Option (Option MemoryPointer) :=
  if s.memoriesAddedShc.length = 0 then some none
  else (listGet s.memoriesAddedShc (hash key.toNat s.memoriesAddedShc.length)).map some

/-- The `ec_next` of the next call. -/
def nextEc : Int := if (s.memoriesAddedEc.length : Int) - 1 ≤ s.ecNext then 0 else s.ecNext + 1

/-- `get_any_ec_memory`, which moves `ec_next`. -/
def getAnyEcMemory : Option (Option MemoryPointer × KernelMemories) :=
  if s.memoriesAddedEc.length = 0 then some (none, s)
  else (listGet s.memoriesAddedEc s.nextEc).map fun pointer =>
    (some pointer, { s with ecNext := s.nextEc })

/-- The `assigned_memory` of `exec_remote`, for a statement with this criterion or for one that any
memory is good for. -/
def assignedMemory (consistency : Option Consistency) (key : UInt16) (random : Nat) :
    Option (Option MemoryPointer × KernelMemories) :=
  match consistency with
  | some .strongConsistency => s.getAnyScMemory.map fun selected => (selected, s)
  | some .strongHashConsistency => (s.getAnyShcMemory key).map fun selected => (selected, s)
  | some .eventualConsistency => s.getAnyEcMemory
  | none => (s.getAnyMemory random).map fun selected => (selected, s)

/-- `exec_remote` up to the request, which goes to the address of the memory. -/
def execRemote (consistency : Option Consistency) (key : UInt16) (random : Nat) :
    Option KernelMemories := do
  let (selected, s) ← s.assignedMemory consistency key random
  match selected with
  | none => some s
  | some pointer =>
    let _ ← s.heap pointer
    some { s with assigned := s.assigned ++ [pointer] }

/-- `on_select`, `on_insert`, `on_create`, `on_describe` and `on_drop` without an answer: all of
them do the same with the assigned memory. -/
def requestFailed (i : Nat) (now : Int64) : Option KernelMemories := do
  let pointer ← s.assigned[i]?
  { s with assigned := s.assigned.eraseIdx i }.memoryFailed pointer now

/-- One step. -/
def step : KernelAction → Option KernelMemories
  | .processAdd input => s.processAdd input
  | .gossip random => s.gossip random
  | .postGossip i received now => s.postGossip i received now
  | .failGossip i now => s.failGossip i now
  | .execRemote consistency key random => s.execRemote consistency key random
  | .requestAnswered i => some { s with assigned := s.assigned.eraseIdx i }
  | .requestFailed i now => s.requestFailed i now

/-- `init_gossiping` and `init_memory_list`. -/
structure Start : Prop where
  memory : ∃ pointer memory, s.memories = [pointer] ∧ memory.id = -1 ∧ memory.alive = true ∧
    s.heap = Function.update (fun _ => none) pointer (some memory)
  sc : s.memoriesAddedSc = []
  shc : s.memoriesAddedShc = []
  ec : s.memoriesAddedEc = []
  ecNext : s.ecNext = -1
  gossips : s.gossips = []
  assigned : s.assigned = []

end KernelMemories

/-! ## Valid lists -/

/-- The memories of a list are allocated and alive, and their ids are different and of a kind. -/
structure ValidList (heap : MemoryHeap) (kind : Int32 → Prop)
    (list : List MemoryPointer) : Prop where
  alive : ∀ pointer ∈ list, ∃ memory, heap pointer = some memory ∧ memory.alive = true ∧
    kind memory.id
  nodup : (list.map fun pointer => (heap pointer).map MemoryT.id).Nodup

section Lists
variable {heap heap' : MemoryHeap} {list rest : List MemoryPointer} {pointer : MemoryPointer}
  {id : Int32} {memory old : MemoryT} {kind : Int32 → Prop}

theorem findMemory_some (h : findMemory heap id list = some (some pointer)) :
    pointer ∈ list ∧ ∃ memory, heap pointer = some memory ∧ memory.id = id := by
  induction list with
  | nil => cases h
  | cons first rest ih =>
    obtain ⟨memory, hmemory, h⟩ := Option.bind_eq_some_iff.mp h
    split at h
    · rename_i hid
      obtain rfl := Option.some.inj (Option.some.inj h)
      exact ⟨List.mem_cons_self, memory, hmemory, hid⟩
    · obtain ⟨hmem, hfound⟩ := ih h
      exact ⟨List.mem_cons_of_mem _ hmem, hfound⟩

theorem findMemory_none (h : findMemory heap id list = some none) :
    ∀ pointer ∈ list, (heap pointer).map MemoryT.id ≠ some id := by
  induction list with
  | nil => exact fun pointer hmem => absurd hmem List.not_mem_nil
  | cons first rest ih =>
    obtain ⟨memory, hmemory, h⟩ := Option.bind_eq_some_iff.mp h
    split at h
    · cases h
    · rename_i hid
      rintro pointer (_ | ⟨_, hmem⟩)
      · rw [hmemory]
        exact fun heq => hid (Option.some.inj heq)
      · exact ih h pointer hmem

/-- What is left by a removal, and that the id is gone where ids are different. -/
theorem removeMemoryFromConsistency_spec (h : removeMemoryFromConsistency heap id list = some rest)
    (hnodup : (list.map fun pointer => (heap pointer).map MemoryT.id).Nodup) :
    rest.Sublist list ∧ ∀ pointer ∈ rest, (heap pointer).map MemoryT.id ≠ some id := by
  induction list generalizing rest with
  | nil =>
    obtain rfl := Option.some.inj h
    exact ⟨.slnil, fun pointer hmem => absurd hmem List.not_mem_nil⟩
  | cons first others ih =>
    obtain ⟨hfirst, hothers⟩ := List.nodup_cons.mp hnodup
    obtain ⟨memory, hmemory, h⟩ := Option.bind_eq_some_iff.mp h
    split at h
    · rename_i hid
      obtain rfl := Option.some.inj h
      refine ⟨List.sublist_cons_self _ _, fun pointer hmem hsame =>
        hfirst (List.mem_map.mpr ⟨pointer, hmem, ?_⟩)⟩
      rw [hsame, ← hid]
      exact (congrArg (Option.map MemoryT.id) hmemory).symm
    · rename_i hid
      obtain ⟨left, hleft, rfl⟩ := Option.map_eq_some_iff.mp h
      obtain ⟨hsub, hgone⟩ := ih hleft hothers
      refine ⟨hsub.cons_cons first, ?_⟩
      rintro pointer (_ | ⟨_, hmem⟩)
      · rw [hmemory]
        exact fun heq => hid (Option.some.inj heq)
      · exact hgone pointer hmem

theorem validList_nil (heap : MemoryHeap) (kind : Int32 → Prop) : ValidList heap kind [] :=
  ⟨fun _ hmem => absurd hmem List.not_mem_nil, List.nodup_nil⟩

/-- The addresses of the list are not written. -/
theorem ValidList.congr (h : ValidList heap kind list)
    (hsame : ∀ pointer ∈ list, heap' pointer = heap pointer) : ValidList heap' kind list := by
  refine ⟨fun pointer hmem => hsame pointer hmem ▸ h.alive pointer hmem, ?_⟩
  rw [List.map_congr_left fun pointer hmem => congrArg (Option.map MemoryT.id) (hsame pointer hmem)]
  exact h.nodup

/-- An address outside the list is written or freed. -/
theorem ValidList.update_of_not_mem (h : ValidList heap kind list) (hmem : pointer ∉ list)
    (content : Option MemoryT) : ValidList (Function.update heap pointer content) kind list := by
  refine h.congr fun other hother => ?_
  have hne : other ≠ pointer := fun heq => hmem (heq ▸ hother)
  rw [Function.update_of_ne hne]

/-- Writing a memory without its id changes no ids. -/
theorem map_id_update (hold : heap pointer = some old) (hid : memory.id = old.id)
    (other : MemoryPointer) : (Function.update heap pointer (some memory) other).map MemoryT.id =
    (heap other).map MemoryT.id := by
  by_cases hother : other = pointer
  · subst hother
    rw [Function.update_self, hold, Option.map_some, Option.map_some, hid]
  · rw [Function.update_of_ne hother]

/-- A memory is alive again, or still. -/
theorem ValidList.revive (h : ValidList heap kind list) (hold : heap pointer = some old)
    (hid : memory.id = old.id) (halive : memory.alive = true) :
    ValidList (Function.update heap pointer (some memory)) kind list := by
  refine ⟨fun other hmem => ?_, ?_⟩
  · by_cases hother : other = pointer
    · subst hother
      obtain ⟨old', hold', -, hkind⟩ := h.alive other hmem
      obtain rfl := Option.some.inj (hold.symm.trans hold')
      exact ⟨memory, Function.update_self _ _ _, halive, hid ▸ hkind⟩
    · rw [Function.update_of_ne hother]
      exact h.alive other hmem
  · rw [List.map_congr_left fun other _ => map_id_update hold hid other]
    exact h.nodup

/-- A memory that dies is taken out of the list. -/
theorem ValidList.kill (h : ValidList heap kind list) (hold : heap pointer = some old)
    (hid : memory.id = old.id) (hremove : removeMemoryFromConsistency
      (Function.update heap pointer (some memory)) old.id list = some rest) :
    ValidList (Function.update heap pointer (some memory)) kind rest := by
  have hnodup : (list.map fun other => (Function.update heap pointer (some memory) other).map
    MemoryT.id).Nodup := by
    rw [List.map_congr_left fun other _ => map_id_update hold hid other]
    exact h.nodup
  obtain ⟨hsub, hgone⟩ := removeMemoryFromConsistency_spec hremove hnodup
  refine ⟨fun other hmem => ?_, hnodup.sublist (hsub.map _)⟩
  by_cases hother : other = pointer
  · have hne := hgone other hmem
    rw [map_id_update hold hid, hother, hold] at hne
    exact absurd rfl hne
  · rw [Function.update_of_ne hother]
    exact h.alive other (hsub.subset hmem)

/-- An alive memory with an id that the list does not have. -/
theorem ValidList.append (h : ValidList heap kind list) (hmemory : heap pointer = some memory)
    (halive : memory.alive = true) (hkind : kind memory.id)
    (hnew : findMemory heap memory.id list = some none) :
    ValidList heap kind (list ++ [pointer]) := by
  refine ⟨fun other hmem => ?_, ?_⟩
  · rcases List.mem_append.mp hmem with hold | hlast
    · exact h.alive other hold
    · obtain rfl := List.mem_singleton.mp hlast
      exact ⟨memory, hmemory, halive, hkind⟩
  · rw [List.map_append, List.nodup_append]
    refine ⟨h.nodup, List.nodup_singleton _, ?_⟩
    rintro id hid _ hlast rfl
    obtain ⟨other, hother, heq⟩ := List.mem_map.mp hid
    rw [List.map_singleton, List.mem_singleton, hmemory] at hlast
    exact findMemory_none hnew other hother (heq.trans hlast)

end Lists

/-! ## Valid kernels -/

/-- What the selections rely on, where the memories in the lists have ids of a kind. -/
structure KernelMemories.Valid (kind : Int32 → Prop) (s : KernelMemories) : Prop where
  sc : ValidList s.heap kind s.memoriesAddedSc
  shc : ValidList s.heap kind s.memoriesAddedShc
  ec : ValidList s.heap kind s.memoriesAddedEc
  one : s.memoriesAddedSc.length ≤ 1
  ecNext : -1 ≤ s.ecNext

/-- The memory that an answer frees is in the list of no criterion. -/
def KernelMemories.FreesUnassigned (s : KernelMemories) : KernelAction → Prop
  | .postGossip i _ _ => ∀ pointer ∈ s.gossips[i]?, ∀ memory ∈ s.heap pointer, memory.id = -1 →
    pointer ∉ s.memoriesAddedSc ∧ pointer ∉ s.memoriesAddedShc ∧ pointer ∉ s.memoriesAddedEc
  | _ => True

instance (s : KernelMemories) : (action : KernelAction) → Decidable (s.FreesUnassigned action)
  | .postGossip i _ _ =>
    inferInstanceAs (Decidable (∀ pointer ∈ s.gossips[i]?, ∀ memory ∈ s.heap pointer,
      memory.id = -1 → pointer ∉ s.memoriesAddedSc ∧ pointer ∉ s.memoriesAddedShc ∧
        pointer ∉ s.memoriesAddedEc))
  | .processAdd _ | .gossip _ | .failGossip .. | .execRemote .. | .requestAnswered _
  | .requestFailed .. => inferInstanceAs (Decidable True)

namespace KernelMemories
variable {s s' : KernelMemories} {pointer address : MemoryPointer} {memory old : MemoryT}
  {id : Int32} {now : Int64} {list : List MemoryPointer} {action : KernelAction}
  {kind : Int32 → Prop}

/-- A memory that `ADD MEMORY` does not refuse. -/
theorem assignable_spec (h : s.assignable list id = some (some pointer))
    (hvalid : ValidList s.heap kind list) (hkind : kind id) :
    ValidList s.heap kind (list ++ [pointer]) := by
  obtain ⟨found, hfound, h⟩ := Option.bind_eq_some_iff.mp h
  cases found with
  | none => cases h
  | some other =>
    obtain ⟨memory, hmemory, h⟩ := Option.bind_eq_some_iff.mp h
    split at h
    · cases h
    · rename_i halive
      obtain ⟨double, hdouble, h⟩ := Option.bind_eq_some_iff.mp h
      cases double with
      | some double => cases h
      | none =>
        obtain rfl := Option.some.inj (Option.some.inj h)
        obtain ⟨-, memory', hmemory', hid⟩ := findMemory_some hfound
        obtain rfl := Option.some.inj (hmemory.symm.trans hmemory')
        subst hid
        exact hvalid.append hmemory (by simpa using halive) hkind hdouble

/-- What `ADD MEMORY` does: it is refused, or the memory that is found goes to the end of the list
of its criterion. -/
inductive Assigns (s : KernelMemories) (id : Int32) : KernelMemories → Prop
  | refused : Assigns s id s
  | sc {pointer : MemoryPointer}
      (found : s.assignable s.memoriesAddedSc id = some (some pointer))
      (empty : s.memoriesAddedSc.length = 0) :
      Assigns s id { s with memoriesAddedSc := s.memoriesAddedSc ++ [pointer] }
  | shc {pointer : MemoryPointer}
      (found : s.assignable s.memoriesAddedShc id = some (some pointer)) :
      Assigns s id { s with memoriesAddedShc := s.memoriesAddedShc ++ [pointer] }
  | ec {pointer : MemoryPointer}
      (found : s.assignable s.memoriesAddedEc id = some (some pointer)) :
      Assigns s id { s with memoriesAddedEc := s.memoriesAddedEc ++ [pointer] }

theorem assigns_of_processAdd {input : AddInput} (h : s.processAdd input = some s') :
    s.Assigns input.memoryNumber s' := by
  unfold KernelMemories.processAdd at h
  split at h
  all_goals
    obtain ⟨found, hfound, h⟩ := Option.bind_eq_some_iff.mp h
    cases found with
    | none =>
      obtain rfl := Option.some.inj h
      exact .refused
    | some pointer => ?_
  · dsimp only at h
    split at h
    · obtain rfl := Option.some.inj h
      exact .refused
    · obtain rfl := Option.some.inj h
      exact .sc hfound (by omega)
  · obtain rfl := Option.some.inj h
    exact .shc hfound
  · obtain rfl := Option.some.inj h
    exact .ec hfound

theorem Valid.assigns (h : s.Valid kind) (hkind : kind id) (hassigns : s.Assigns id s') :
    s'.Valid kind := by
  cases hassigns with
  | refused => exact h
  | @sc pointer found empty =>
    refine ⟨assignable_spec found h.sc hkind, h.shc, h.ec, ?_, h.ecNext⟩
    show (s.memoriesAddedSc ++ [pointer]).length ≤ 1
    rw [List.length_append, List.length_singleton]
    omega
  | shc found => exact ⟨h.sc, assignable_spec found h.shc hkind, h.ec, h.one, h.ecNext⟩
  | ec found => exact ⟨h.sc, h.shc, assignable_spec found h.ec hkind, h.one, h.ecNext⟩

/-- An address in no list is written or freed. -/
theorem Valid.update_of_not_mem (h : s.Valid kind) (content : Option MemoryT)
    (hmem : pointer ∉ s.memoriesAddedSc ∧ pointer ∉ s.memoriesAddedShc ∧
      pointer ∉ s.memoriesAddedEc) :
    Valid kind { s with heap := Function.update s.heap pointer content } :=
  ⟨h.sc.update_of_not_mem hmem.1 content, h.shc.update_of_not_mem hmem.2.1 content,
    h.ec.update_of_not_mem hmem.2.2 content, h.one, h.ecNext⟩

/-- No list has an address that is not allocated. -/
theorem Valid.not_mem_of_none (h : s.Valid kind) (hnone : s.heap address = none) :
    address ∉ s.memoriesAddedSc ∧ address ∉ s.memoriesAddedShc ∧ address ∉ s.memoriesAddedEc := by
  have hlist : ∀ {list}, ValidList s.heap kind list → address ∉ list := by
    intro list hvalid hmem
    obtain ⟨memory, hmemory, -⟩ := hvalid.alive address hmem
    cases hnone.symm.trans hmemory
  exact ⟨hlist h.sc, hlist h.shc, hlist h.ec⟩

theorem Valid.revive (h : s.Valid kind) (hold : s.heap pointer = some old)
    (hid : memory.id = old.id) (halive : memory.alive = true) :
    (s.write pointer memory).Valid kind :=
  ⟨h.sc.revive hold hid halive, h.shc.revive hold hid halive, h.ec.revive hold hid halive, h.one,
    h.ecNext⟩

/-- A memory that dies is removed from all lists. -/
theorem Valid.kill (h : s.Valid kind) (hold : s.heap pointer = some old) (hid : memory.id = old.id)
    (hrun : (s.write pointer memory).removeMemory old.id = some s') : s'.Valid kind := by
  obtain ⟨sc, hsc, hrun⟩ := Option.bind_eq_some_iff.mp hrun
  obtain ⟨shc, hshc, hrun⟩ := Option.bind_eq_some_iff.mp hrun
  obtain ⟨ec, hec, hrun⟩ := Option.bind_eq_some_iff.mp hrun
  obtain rfl := Option.some.inj hrun
  have hnodup : (s.memoriesAddedSc.map fun other =>
      (Function.update s.heap pointer (some memory) other).map MemoryT.id).Nodup := by
    rw [List.map_congr_left fun other _ => map_id_update hold hid other]
    exact h.sc.nodup
  have hshorter := (removeMemoryFromConsistency_spec hsc hnodup).1.length_le
  exact ⟨h.sc.kill hold hid hsc, h.shc.kill hold hid hshc, h.ec.kill hold hid hec,
    hshorter.trans h.one, h.ecNext⟩

theorem Valid.memoryFailed (h : s.Valid kind) (hrun : s.memoryFailed pointer now = some s') :
    s'.Valid kind := by
  obtain ⟨memory, hmemory, hrun⟩ := Option.bind_eq_some_iff.mp hrun
  refine h.kill hmemory ?_ hrun
  rfl

/-- What `update_memory` does with a memory: it takes the place of an older version, which takes it
out of the lists if it is dead; the version that is there is not older; or its id is new. -/
inductive Updates (s : KernelMemories) (memory : MemoryT) (address : MemoryPointer) :
    KernelMemories → Prop
  | dead {pointer : MemoryPointer} {existing : MemoryT} {s' : KernelMemories}
      (found : findMemory s.heap memory.id s.memories = some (some pointer))
      (there : s.heap pointer = some existing) (same : memory.id = existing.id)
      (newer : existing.timestamp.toInt < memory.timestamp.toInt)
      (removed : (s.write pointer memory).removeMemory existing.id = some s') :
      Updates s memory address s'
  | alive {pointer : MemoryPointer} {existing : MemoryT}
      (found : findMemory s.heap memory.id s.memories = some (some pointer))
      (there : s.heap pointer = some existing) (same : memory.id = existing.id)
      (newer : existing.timestamp.toInt < memory.timestamp.toInt) (alive : memory.alive = true) :
      Updates s memory address (s.write pointer memory)
  | older {pointer : MemoryPointer} {existing : MemoryT}
      (found : findMemory s.heap memory.id s.memories = some (some pointer))
      (there : s.heap pointer = some existing)
      (older : memory.timestamp.toInt ≤ existing.timestamp.toInt) :
      Updates s memory address s
  | new (unknown : findMemory s.heap memory.id s.memories = some none)
      (free : s.heap address = none) :
      Updates s memory address { s.write address memory with memories := s.memories ++ [address] }

theorem updates_of_updateMemory (h : s.updateMemory memory address = some s') :
    s.Updates memory address s' := by
  obtain ⟨found, hfound, h⟩ := Option.bind_eq_some_iff.mp h
  cases found with
  | some pointer =>
    obtain ⟨existing, hexisting, h⟩ := Option.bind_eq_some_iff.mp h
    obtain ⟨-, named, hnamed, hid⟩ := findMemory_some hfound
    obtain rfl := Option.some.inj (hexisting.symm.trans hnamed)
    have hsame : ({ memory with id := existing.id } : MemoryT) = memory := by rw [hid]
    dsimp only at h
    rw [hsame] at h
    split at h
    · rename_i hnewer
      split at h
      · exact .dead hfound hexisting hid.symm hnewer h
      · rename_i halive
        obtain rfl := Option.some.inj h
        exact .alive hfound hexisting hid.symm hnewer (by simpa using halive)
    · rename_i holder
      obtain rfl := Option.some.inj h
      exact .older hfound hexisting (not_lt.mp holder)
  | none =>
    dsimp only at h
    split at h
    · cases h
    · rename_i hfree
      obtain rfl := Option.some.inj h
      exact .new hfound (by simpa using hfree)

theorem Valid.updateMemory (h : s.Valid kind) (hrun : s.updateMemory memory address = some s') :
    s'.Valid kind := by
  cases updates_of_updateMemory hrun with
  | dead found there same newer removed => exact h.kill there same removed
  | alive found there same newer alive => exact h.revive there same alive
  | older found there older => exact h
  | new unknown free =>
    -- the address of a memory that is new in the table is in no list
    obtain ⟨hsc, hshc, hec, hone, hecNext⟩ := h.update_of_not_mem (some memory)
      (h.not_mem_of_none free)
    exact ⟨hsc, hshc, hec, hone, hecNext⟩

theorem Valid.updateMemories {received : List (MemoryT × MemoryPointer)} (h : s.Valid kind)
    (hrun : s.updateMemories received = some s') : s'.Valid kind := by
  induction received generalizing s with
  | nil =>
    obtain rfl := Option.some.inj hrun
    exact h
  | cons first rest ih =>
    obtain ⟨updated, hupdated, hrun⟩ := Option.bind_eq_some_iff.mp hrun
    exact ih (h.updateMemory hupdated) hrun

theorem Valid.postGossip (h : s.Valid kind) {i : Nat} {received : List (MemoryT × MemoryPointer)}
    (hfrees : s.FreesUnassigned (.postGossip i received now))
    (hrun : s.postGossip i received now = some s') : s'.Valid kind := by
  obtain ⟨pointer, hpointer, hrun⟩ := Option.bind_eq_some_iff.mp hrun
  obtain ⟨selected, hselected, hrun⟩ := Option.bind_eq_some_iff.mp hrun
  refine Valid.updateMemories ?_ hrun
  split
  · rename_i hid
    have hfreed := h.update_of_not_mem none (hfrees pointer hpointer selected hselected hid)
    exact ⟨hfreed.sc, hfreed.shc, hfreed.ec, hfreed.one, hfreed.ecNext⟩
  · have hrevived := @Valid.revive s pointer { selected with alive := true, timestamp := now }
      selected kind h hselected rfl rfl
    exact ⟨hrevived.sc, hrevived.shc, hrevived.ec, hrevived.one, hrevived.ecNext⟩

theorem nextEc_eq (s : KernelMemories) :
    s.nextEc = nextTurn s.memoriesAddedEc.length s.ecNext := rfl

theorem nextEc_bounds (h : -1 ≤ s.ecNext) (hne : s.memoriesAddedEc.length ≠ 0) :
    0 ≤ s.nextEc ∧ s.nextEc < s.memoriesAddedEc.length :=
  nextTurn_bounds h hne

/-- What a selection moves: `ec_next`, where it is for eventual consistency and there are
memories. -/
theorem assignedMemory_moves {consistency : Option Consistency} {key : UInt16} {random : Nat}
    {selected : Option MemoryPointer}
    (h : s.assignedMemory consistency key random = some (selected, s')) :
    (s' = s ∧ (consistency = some .eventualConsistency → s.memoriesAddedEc.length = 0)) ∨
      (s' = { s with ecNext := s.nextEc } ∧ consistency = some .eventualConsistency ∧
        s.memoriesAddedEc.length ≠ 0) := by
  have hsame : ∀ {selection : Option (Option MemoryPointer)},
      selection.map (fun selected => (selected, s)) = some (selected, s') → s' = s := by
    intro selection hselection
    obtain ⟨chosen, -, heq⟩ := Option.map_eq_some_iff.mp hselection
    exact (Prod.mk.inj heq).2.symm
  unfold KernelMemories.assignedMemory at h
  split at h
  · exact .inl ⟨hsame h, nofun⟩
  · exact .inl ⟨hsame h, nofun⟩
  · unfold KernelMemories.getAnyEcMemory at h
    split at h
    · rename_i hempty
      obtain ⟨-, rfl⟩ := Prod.mk.inj (Option.some.inj h)
      exact .inl ⟨rfl, fun _ => hempty⟩
    · rename_i hne
      obtain ⟨pointer, -, heq⟩ := Option.map_eq_some_iff.mp h
      obtain ⟨-, rfl⟩ := Prod.mk.inj heq
      exact .inr ⟨rfl, rfl, hne⟩
  · exact .inl ⟨hsame h, nofun⟩

/-- What a statement moves, apart from the memories that statements are assigned to. -/
theorem execRemote_moves {consistency : Option Consistency} {key : UInt16} {random : Nat}
    (h : s.execRemote consistency key random = some s') :
    ∃ assigned, (s' = { s with assigned } ∧
        (consistency = some .eventualConsistency → s.memoriesAddedEc.length = 0)) ∨
      (s' = { s with ecNext := s.nextEc, assigned } ∧ consistency = some .eventualConsistency ∧
        s.memoriesAddedEc.length ≠ 0) := by
  obtain ⟨⟨selected, moved⟩, hselected, h⟩ := Option.bind_eq_some_iff.mp h
  have hmoved : ∃ assigned, s' = { moved with assigned } := by
    cases selected with
    | none =>
      obtain rfl := Option.some.inj h
      exact ⟨moved.assigned, rfl⟩
    | some pointer =>
      obtain ⟨-, -, h⟩ := Option.bind_eq_some_iff.mp h
      obtain rfl := Option.some.inj h
      exact ⟨_, rfl⟩
  obtain ⟨assigned, rfl⟩ := hmoved
  refine ⟨assigned, ?_⟩
  rcases assignedMemory_moves hselected with ⟨rfl, hempty⟩ | ⟨rfl, hec, hne⟩
  · exact .inl ⟨rfl, hempty⟩
  · exact .inr ⟨rfl, hec, hne⟩

theorem Valid.execRemote (h : s.Valid kind) {consistency : Option Consistency} {key : UInt16}
    {random : Nat} (hrun : s.execRemote consistency key random = some s') : s'.Valid kind := by
  obtain ⟨assigned, ⟨rfl, -⟩ | ⟨rfl, -, hne⟩⟩ := execRemote_moves hrun
  · exact ⟨h.sc, h.shc, h.ec, h.one, h.ecNext⟩
  · obtain ⟨hle, -⟩ := nextEc_bounds h.ecNext hne
    refine ⟨h.sc, h.shc, h.ec, h.one, ?_⟩
    show -1 ≤ s.nextEc
    omega

/-- **One step** keeps the lists valid. -/
theorem Valid.step (h : s.Valid kind)
    (hkind : ∀ input, action = .processAdd input → kind input.memoryNumber)
    (hfrees : s.FreesUnassigned action) (hrun : s.step action = some s') : s'.Valid kind := by
  cases action with
  | processAdd input => exact h.assigns (hkind input rfl) (assigns_of_processAdd hrun)
  | gossip random =>
    obtain ⟨alive, -, hrun⟩ := Option.bind_eq_some_iff.mp hrun
    obtain ⟨pointer, -, hrun⟩ := Option.bind_eq_some_iff.mp hrun
    obtain rfl := Option.some.inj hrun
    exact ⟨h.sc, h.shc, h.ec, h.one, h.ecNext⟩
  | postGossip i received now => exact h.postGossip hfrees hrun
  | failGossip i now =>
    obtain ⟨pointer, -, hrun⟩ := Option.bind_eq_some_iff.mp hrun
    refine Valid.memoryFailed ?_ hrun
    exact ⟨h.sc, h.shc, h.ec, h.one, h.ecNext⟩
  | execRemote consistency key random => exact h.execRemote hrun
  | requestAnswered i =>
    obtain rfl := Option.some.inj hrun
    exact ⟨h.sc, h.shc, h.ec, h.one, h.ecNext⟩
  | requestFailed i now =>
    obtain ⟨pointer, -, hrun⟩ := Option.bind_eq_some_iff.mp hrun
    refine Valid.memoryFailed ?_ hrun
    exact ⟨h.sc, h.shc, h.ec, h.one, h.ecNext⟩

theorem Start.valid (h : s.Start) (kind : Int32 → Prop) : s.Valid kind := by
  refine ⟨?_, ?_, ?_, ?_, h.ecNext.ge⟩
  · rw [h.sc]
    exact validList_nil _ _
  · rw [h.shc]
    exact validList_nil _ _
  · rw [h.ec]
    exact validList_nil _ _
  · rw [h.sc]
    exact Nat.zero_le _

/-! ## Selections -/

/-- The selection does not index outside of its list, and what it returns is a memory that is
alive. -/
def SelectsAlive (s : KernelMemories) (selection : Option (Option MemoryPointer)) : Prop :=
  ∃ selected, selection = some selected ∧
    ∀ pointer ∈ selected, ∃ memory, s.heap pointer = some memory ∧ memory.alive = true

theorem listGet_of_bounds {index : Int} (hle : 0 ≤ index) (hlt : index < list.length) :
    ∃ pointer ∈ list, listGet list index = some pointer := by
  obtain ⟨i, rfl⟩ := Int.eq_ofNat_of_zero_le hle
  have hi : i < list.length := by omega
  refine ⟨list[i], List.getElem_mem hi, ?_⟩
  unfold listGet
  rw [if_neg (Int.not_lt.mpr hle), Int.toNat_natCast, List.getElem?_eq_getElem hi]

/-- A selection from a valid list. -/
theorem selectsAlive_listGet (h : ValidList s.heap kind list) {index : Int} (hle : 0 ≤ index)
    (hlt : index < list.length) : s.SelectsAlive ((listGet list index).map some) := by
  obtain ⟨pointer, hmem, hget⟩ := listGet_of_bounds hle hlt
  refine ⟨some pointer, by rw [hget]; rfl, fun other hother => ?_⟩
  obtain rfl := Option.some.inj hother
  obtain ⟨memory, hmemory, halive, -⟩ := h.alive pointer hmem
  exact ⟨memory, hmemory, halive⟩

theorem selectsAlive_none : s.SelectsAlive (some none) := ⟨none, rfl, nofun⟩

theorem Valid.selectsAlive_sc (h : s.Valid kind) : s.SelectsAlive s.getAnyScMemory := by
  unfold getAnyScMemory
  split
  · exact selectsAlive_none
  · exact selectsAlive_listGet h.sc le_rfl (by omega)

theorem Valid.selectsAlive_shc (h : s.Valid kind) (key : UInt16) :
    s.SelectsAlive (s.getAnyShcMemory key) := by
  unfold KernelMemories.getAnyShcMemory
  split
  · exact selectsAlive_none
  · refine selectsAlive_listGet h.shc ?_ ?_
    · exact Int.tmod_nonneg _ (Int.natCast_nonneg _)
    · exact Int.tmod_lt_of_pos _ (by omega)

theorem Valid.selectsAlive_ec (h : s.Valid kind) :
    s.SelectsAlive (s.getAnyEcMemory.map Prod.fst) := by
  unfold KernelMemories.getAnyEcMemory
  split
  · exact selectsAlive_none
  · rename_i hne
    obtain ⟨hle, hlt⟩ := nextEc_bounds h.ecNext hne
    rw [Option.map_map]
    exact selectsAlive_listGet h.ec hle hlt

end KernelMemories

/-- The runs in which no answer frees a memory that has a criterion. -/
abbrev UnassignedRun (start s : KernelMemories) : Prop :=
  Run KernelMemories.step (fun s action _ => s.FreesUnassigned action) start s

/-- **The lists of the criteria.**  In every state of a run in which no gossip answer frees a memory
that is in one of the lists, SC has at most one memory, no list has two memories with one id, all
memories in the lists are alive, and each of the selections returns an alive memory or, from an
empty list, none. -/
theorem criteria_valid {start s : KernelMemories} (hstart : start.Start)
    (hrun : UnassignedRun start s) : s.memoriesAddedSc.length ≤ 1 ∧
    (∀ consistency, ((s.added consistency).map fun pointer =>
        (s.heap pointer).map MemoryT.id).Nodup ∧
      ∀ pointer ∈ s.added consistency, ∃ memory, s.heap pointer = some memory ∧
      memory.alive = true) ∧
    s.SelectsAlive s.getAnyScMemory ∧
    (∀ key, s.SelectsAlive (s.getAnyShcMemory key)) ∧
    s.SelectsAlive (s.getAnyEcMemory.map Prod.fst) := by
  have h : s.Valid fun _ => True := by
    refine hrun.invariant (hstart.valid _) fun _ _ _ h htaken hfrees => ?_
    exact h.step (fun _ _ => trivial) hfrees htaken
  refine ⟨h.one, fun consistency => ?_, h.selectsAlive_sc, h.selectsAlive_shc, h.selectsAlive_ec⟩
  have hlist : ValidList s.heap (fun _ => True) (s.added consistency) := by
    cases consistency with
    | strongConsistency => exact h.sc
    | strongHashConsistency => exact h.shc
    | eventualConsistency => exact h.ec
  refine ⟨hlist.nodup, fun pointer hmem => ?_⟩
  obtain ⟨memory, hmemory, halive, -⟩ := hlist.alive pointer hmem
  exact ⟨memory, hmemory, halive⟩

/-! ## Runs -/

/-- No answer frees a memory that has a criterion where no `ADD MEMORY` is about number -1. -/
theorem unassignedRun_of_numbers {start s : KernelMemories} (hstart : start.Start)
    (hrun : Run KernelMemories.step
      (fun _ action _ => ∀ input, action = .processAdd input → input.memoryNumber ≠ -1) start s) :
    UnassignedRun start s := by
  have hboth : s.Valid (fun id => id ≠ -1) ∧ UnassignedRun start s := by
    induction hrun with
    | refl => exact ⟨hstart.valid _, .refl⟩
    | @step s₁ s₂ action _ taken hnumbers ih =>
      obtain ⟨hvalid, hunassigned⟩ := ih
      have hfrees : s₁.FreesUnassigned action := by
        cases action with
        | postGossip i received now =>
          intro pointer _ memory hmemory hid
          -- no list has a memory of this number
          have hlist : ∀ {list}, ValidList s₁.heap (fun id => id ≠ -1) list → pointer ∉ list := by
            intro list hlist hmem
            obtain ⟨memory', hmemory', -, hne⟩ := hlist.alive pointer hmem
            obtain rfl := Option.some.inj (hmemory'.symm.trans hmemory)
            exact hne hid
          exact ⟨hlist hvalid.sc, hlist hvalid.shc, hlist hvalid.ec⟩
        | processAdd input => trivial
        | gossip random => trivial
        | failGossip i now => trivial
        | execRemote consistency key random => trivial
        | requestAnswered i => trivial
        | requestFailed i now => trivial
      exact ⟨hvalid.step hnumbers hfrees taken, hunassigned.step action taken hfrees⟩
  exact hboth.2

/-- The kernel before it has gossiped. -/
def firstKernel : KernelMemories where
  heap := Function.update (fun _ => none) 0 (some ⟨-1, .ofBytes [49], 8001, true, 0⟩)
  memories := [0]
  memoriesAddedSc := []
  memoriesAddedShc := []
  memoriesAddedEc := []
  ecNext := -1
  gossips := []
  assigned := []

theorem firstKernel_start : firstKernel.Start :=
  ⟨⟨0, _, rfl, rfl, rfl, rfl⟩, rfl, rfl, rfl, rfl, rfl, rfl⟩

/-- Two memories that answer, are assigned to criteria, and one of which fails. -/
def assignedMemories : List KernelAction :=
  [.gossip 0, .postGossip 0 [(⟨1, .ofBytes [49], 8001, true, 5⟩, 1),
    (⟨2, .ofBytes [50], 8002, true, 6⟩, 2)] 10, .processAdd ⟨1, .strongConsistency⟩,
    .processAdd ⟨1, .strongHashConsistency⟩, .processAdd ⟨2, .strongHashConsistency⟩,
    .processAdd ⟨1, .eventualConsistency⟩, .processAdd ⟨2, .eventualConsistency⟩,
    .execRemote (some .eventualConsistency) 0 0, .execRemote (some .eventualConsistency) 0 0,
    .requestFailed 1 20]

theorem assignedMemories_runs :
    (runSteps KernelMemories.step (fun s action _ => s.FreesUnassigned action) firstKernel
        assignedMemories).map
      (fun s => (s.memoriesAddedSc, s.memoriesAddedShc, s.memoriesAddedEc, s.ecNext)) =
      some ([1], [1], [1], 1) := by decide +kernel

/-- The memory that failed has no criterion any more, and the next selection is another one. -/
theorem criteria_valid_assignedMemories :
    ∃ s, UnassignedRun firstKernel s ∧ s.memoriesAddedEc = [1] ∧ s.ecNext = 1 ∧
      s.SelectsAlive (s.getAnyEcMemory.map Prod.fst) := by
  obtain ⟨s, hsteps, heq⟩ := Option.map_eq_some_iff.mp assignedMemories_runs
  have hrun : UnassignedRun firstKernel s := run_of_runSteps hsteps
  simp only [Prod.mk.injEq] at heq
  exact ⟨s, hrun, heq.2.2.1, heq.2.2.2, (criteria_valid firstKernel_start hrun).2.2.2.2⟩

/-- `ADD MEMORY 4294967295 TO SC`. -/
def addMainMemory : CString := .ofBytes
  [65, 68, 68, 32, 77, 69, 77, 79, 82, 89, 32, 52, 50, 57, 52, 57, 54, 55, 50, 57, 53, 32, 84, 79,
    32, 83, 67]

/-- The command is accepted, and the first answer frees the memory that it put into the list. -/
theorem added_memory_freed :
    processCommand addMainMemory .kernel = some (some (.add ⟨-1, .strongConsistency⟩)) ∧
    ∃ start s : KernelMemories, start.Start ∧ Run KernelMemories.step (fun _ _ _ => True) start s ∧
      s.getAnyScMemory = some (some 0) ∧ s.heap 0 = none := by
  refine ⟨by decide +kernel, ?_⟩
  have hrun : (runSteps KernelMemories.step (fun _ _ _ => True) firstKernel
      [.gossip 0, .processAdd ⟨-1, .strongConsistency⟩,
        .postGossip 0 [(⟨1, .ofBytes [49], 8001, true, 5⟩, 1)] 10]).map
      (fun s => (s.getAnyScMemory, s.heap 0)) = some (some (some 0), none) := by decide +kernel
  obtain ⟨s, hsteps, heq⟩ := Option.map_eq_some_iff.mp hrun
  obtain ⟨hselected, hfreed⟩ := Prod.mk.inj heq
  exact ⟨firstKernel, s, firstKernel_start, run_of_runSteps hsteps, hselected, hfreed⟩

end Lissandra
