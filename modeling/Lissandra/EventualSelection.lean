import Lissandra.MemoryCriteria

/-! # Selections for eventual consistency

`get_any_ec_memory` takes turns, and `ec_next` is never reset: it stays where it was while memories
die, are added again or have the list shrink below it.  Where the list stays what it is, the
calls from then on return its memories in turns, from some memory on.

Between the calls anything else may happen that does not change the list.
-/
namespace Lissandra
namespace KernelMemories
variable {start s s₁ s' : KernelMemories} {action : KernelAction} {id : Int32} {now : Int64}
  {pointer address : MemoryPointer} {memory : MemoryT} {calls : List MemoryPointer}

/-! ## What a step does to the list -/

/-- Memories are taken out of the list, or one that it does not have is appended. -/
structure EcChange (s s' : KernelMemories) : Prop where
  list : s'.memoriesAddedEc.Sublist s.memoriesAddedEc ∨
    ∃ pointer ∉ s.memoriesAddedEc, s'.memoriesAddedEc = s.memoriesAddedEc ++ [pointer]
  cursor : s'.ecNext = s.ecNext

theorem ecChange_of_eq (hlist : s'.memoriesAddedEc = s.memoriesAddedEc)
    (hcursor : s'.ecNext = s.ecNext) : EcChange s s' :=
  ⟨.inl (hlist ▸ List.Sublist.refl _), hcursor⟩

theorem removeMemoryFromConsistency_sublist {heap : MemoryHeap} {list rest : List MemoryPointer}
    (h : removeMemoryFromConsistency heap id list = some rest) : rest.Sublist list := by
  induction list generalizing rest with
  | nil =>
    obtain rfl := Option.some.inj h
    exact .slnil
  | cons first others ih =>
    obtain ⟨memory, -, h⟩ := Option.bind_eq_some_iff.mp h
    split at h
    · obtain rfl := Option.some.inj h
      exact List.sublist_cons_self _ _
    · obtain ⟨left, hleft, rfl⟩ := Option.map_eq_some_iff.mp h
      exact (ih hleft).cons_cons first

theorem removeMemory_ec (h : s.removeMemory id = some s') :
    s'.memoriesAddedEc.Sublist s.memoriesAddedEc ∧ s'.ecNext = s.ecNext := by
  obtain ⟨sc, -, h⟩ := Option.bind_eq_some_iff.mp h
  obtain ⟨shc, -, h⟩ := Option.bind_eq_some_iff.mp h
  obtain ⟨ec, hec, h⟩ := Option.bind_eq_some_iff.mp h
  obtain rfl := Option.some.inj h
  exact ⟨removeMemoryFromConsistency_sublist hec, rfl⟩

theorem memoryFailed_ec (h : s.memoryFailed pointer now = some s') :
    s'.memoriesAddedEc.Sublist s.memoriesAddedEc ∧ s'.ecNext = s.ecNext := by
  obtain ⟨memory, -, h⟩ := Option.bind_eq_some_iff.mp h
  have hremoved := removeMemory_ec h
  exact hremoved

theorem updateMemory_ec (h : s.updateMemory memory address = some s') :
    s'.memoriesAddedEc.Sublist s.memoriesAddedEc ∧ s'.ecNext = s.ecNext := by
  cases updates_of_updateMemory h with
  | dead found there same newer removed =>
    have hremoved := removeMemory_ec removed
    exact hremoved
  | alive found there same newer alive => exact ⟨.refl _, rfl⟩
  | older found there older => exact ⟨.refl _, rfl⟩
  | new unknown free => exact ⟨.refl _, rfl⟩

theorem updateMemories_ec {received : List (MemoryT × MemoryPointer)}
    (h : s.updateMemories received = some s') :
    s'.memoriesAddedEc.Sublist s.memoriesAddedEc ∧ s'.ecNext = s.ecNext := by
  induction received generalizing s with
  | nil =>
    obtain rfl := Option.some.inj h
    exact ⟨.refl _, rfl⟩
  | cons first rest ih =>
    obtain ⟨updated, hupdated, h⟩ := Option.bind_eq_some_iff.mp h
    obtain ⟨hfirst, hcursor⟩ := updateMemory_ec hupdated
    obtain ⟨hrest, hsame⟩ := ih h
    exact ⟨hrest.trans hfirst, hsame.trans hcursor⟩

theorem postGossip_ec {i : Nat} {received : List (MemoryT × MemoryPointer)}
    (h : s.postGossip i received now = some s') :
    s'.memoriesAddedEc.Sublist s.memoriesAddedEc ∧ s'.ecNext = s.ecNext := by
  obtain ⟨pointer, -, h⟩ := Option.bind_eq_some_iff.mp h
  obtain ⟨selected, -, h⟩ := Option.bind_eq_some_iff.mp h
  dsimp only at h
  split at h
  · have hupdated := updateMemories_ec h
    exact hupdated
  · have hupdated := updateMemories_ec h
    exact hupdated

/-- A memory that is added is not in the list yet. -/
theorem not_mem_of_assignable {list : List MemoryPointer}
    (h : s.assignable list id = some (some pointer)) : pointer ∉ list := by
  obtain ⟨found, hfound, h⟩ := Option.bind_eq_some_iff.mp h
  cases found with
  | none => cases h
  | some other =>
    obtain ⟨memory, -, h⟩ := Option.bind_eq_some_iff.mp h
    split at h
    · cases h
    · obtain ⟨double, hdouble, h⟩ := Option.bind_eq_some_iff.mp h
      cases double with
      | some double => cases h
      | none =>
        obtain rfl := Option.some.inj (Option.some.inj h)
        obtain ⟨-, named, hnamed, hid⟩ := findMemory_some hfound
        intro hmem
        refine findMemory_none hdouble _ hmem ?_
        rw [hnamed, ← hid]
        rfl

theorem processAdd_ec {input : AddInput} (h : s.processAdd input = some s') : EcChange s s' := by
  cases assigns_of_processAdd h with
  | refused => exact ecChange_of_eq rfl rfl
  | sc found empty => exact ecChange_of_eq rfl rfl
  | shc found => exact ecChange_of_eq rfl rfl
  | @ec pointer found => exact ⟨.inr ⟨pointer, not_mem_of_assignable found, rfl⟩, rfl⟩

/-! ## Calls -/

/-- What `get_any_ec_memory` returns in a step, where it is called and there are memories. -/
def selectedEc (s : KernelMemories) : KernelAction → List MemoryPointer
  | .execRemote (some .eventualConsistency) _ _ =>
    match s.getAnyEcMemory with
    | some (some pointer, _) => [pointer]
    | _ => []
  | _ => []

/-- What the calls of a run return, during which the list stays what it is. -/
inductive EcCalls (s : KernelMemories) : List MemoryPointer → KernelMemories → Prop
  | start : EcCalls s [] s
  | step {calls : List MemoryPointer} {s₁ s₂ : KernelMemories} (action : KernelAction)
      (before : EcCalls s calls s₁) (taken : s₁.step action = some s₂)
      (unchanged : s₂.memoriesAddedEc = s₁.memoriesAddedEc) :
      EcCalls s (calls ++ s₁.selectedEc action) s₂

/-- **A call** with memories in the list. -/
theorem getAnyEcMemory_spec (h : -1 ≤ s.ecNext) (hne : s.memoriesAddedEc ≠ []) :
    ∃ pointer, s.memoriesAddedEc[s.nextEc.toNat]? = some pointer ∧
      s.getAnyEcMemory = some (some pointer, { s with ecNext := s.nextEc }) := by
  have hlength : s.memoriesAddedEc.length ≠ 0 := by simpa using hne
  obtain ⟨hle, hlt⟩ := nextEc_bounds h hlength
  have hindex : s.nextEc.toNat < s.memoriesAddedEc.length := by omega
  refine ⟨s.memoriesAddedEc[s.nextEc.toNat], List.getElem?_eq_getElem hindex, ?_⟩
  rw [getAnyEcMemory, if_neg hlength, listGet, if_neg (by omega),
    List.getElem?_eq_getElem hindex]
  rfl

/-- **One step.**  `ec_next` moves where `get_any_ec_memory` is called with memories in the list,
and the list does not change there; elsewhere it may. -/
theorem step_ec (hstart : -1 ≤ s.ecNext) (h : s.step action = some s') :
    (EcChange s s' ∧ s.selectedEc action = []) ∨
      (s'.memoriesAddedEc = s.memoriesAddedEc ∧ s'.ecNext = s.nextEc ∧
        ∃ pointer, s.memoriesAddedEc[s.nextEc.toNat]? = some pointer ∧
          s.selectedEc action = [pointer]) := by
  cases action with
  | processAdd input => exact .inl ⟨processAdd_ec h, rfl⟩
  | gossip random =>
    obtain ⟨alive, -, h⟩ := Option.bind_eq_some_iff.mp h
    obtain ⟨pointer, -, h⟩ := Option.bind_eq_some_iff.mp h
    obtain rfl := Option.some.inj h
    exact .inl ⟨ecChange_of_eq rfl rfl, rfl⟩
  | postGossip i received now =>
    obtain ⟨hlist, hcursor⟩ := postGossip_ec h
    exact .inl ⟨⟨.inl hlist, hcursor⟩, rfl⟩
  | failGossip i now =>
    obtain ⟨pointer, -, h⟩ := Option.bind_eq_some_iff.mp h
    obtain ⟨hlist, hcursor⟩ := memoryFailed_ec h
    exact .inl ⟨⟨.inl hlist, hcursor⟩, rfl⟩
  | requestAnswered i =>
    obtain rfl := Option.some.inj h
    exact .inl ⟨ecChange_of_eq rfl rfl, rfl⟩
  | requestFailed i now =>
    obtain ⟨pointer, -, h⟩ := Option.bind_eq_some_iff.mp h
    obtain ⟨hlist, hcursor⟩ := memoryFailed_ec h
    exact .inl ⟨⟨.inl hlist, hcursor⟩, rfl⟩
  | execRemote consistency key random =>
    obtain ⟨assigned, ⟨rfl, hempty⟩ | ⟨rfl, rfl, hne⟩⟩ := execRemote_moves h
    · refine .inl ⟨ecChange_of_eq rfl rfl, ?_⟩
      match consistency with
      | none => rfl
      | some .strongConsistency => rfl
      | some .strongHashConsistency => rfl
      | some .eventualConsistency => rw [selectedEc, getAnyEcMemory, if_pos (hempty rfl)]
    · have hsome : s.memoriesAddedEc ≠ [] := fun hnil => hne (List.length_eq_zero_iff.mpr hnil)
      obtain ⟨pointer, hget, hcall⟩ := getAnyEcMemory_spec hstart hsome
      refine .inr ⟨rfl, rfl, pointer, hget, ?_⟩
      rw [selectedEc, hcall]

/-- Steps in a row during which the list stays what it is, with what their calls return. -/
def runCalls : KernelMemories → List KernelAction → Option (List MemoryPointer × KernelMemories)
  | s, [] => some ([], s)
  | s, action :: actions => do
    let next ← (s.step action).filter fun next => next.memoriesAddedEc = s.memoriesAddedEc
    let (calls, last) ← next.runCalls actions
    some (s.selectedEc action ++ calls, last)

theorem EcCalls.trans {more : List MemoryPointer} (h : EcCalls s calls s₁)
    (hmore : EcCalls s₁ more s') : EcCalls s (calls ++ more) s' := by
  induction hmore with
  | start =>
    rw [List.append_nil]
    exact h
  | step action _ taken unchanged ih =>
    rw [← List.append_assoc]
    exact ih.step action taken unchanged

theorem ecCalls_of_runCalls {actions : List KernelAction}
    (h : s.runCalls actions = some (calls, s')) : EcCalls s calls s' := by
  induction actions generalizing s calls with
  | nil =>
    obtain ⟨rfl, rfl⟩ := Prod.mk.inj (Option.some.inj h)
    exact .start
  | cons action actions ih =>
    obtain ⟨next, hnext, h⟩ := Option.bind_eq_some_iff.mp h
    obtain ⟨taken, hsame⟩ := Option.filter_eq_some_iff.mp hnext
    obtain ⟨⟨more, last⟩, hmore, h⟩ := Option.bind_eq_some_iff.mp h
    obtain ⟨rfl, rfl⟩ := Prod.mk.inj (Option.some.inj h)
    exact (EcCalls.start.step action taken (of_decide_eq_true hsame)).trans (ih hmore)

/-! ## Histories -/

/-- No memory is twice in the list, and the cursor starts before it. -/
structure EcList (s : KernelMemories) : Prop where
  nodup : s.memoriesAddedEc.Nodup
  cursor : -1 ≤ s.ecNext

theorem EcList.step (h : s.EcList) (hstep : s.step action = some s') : s'.EcList := by
  rcases step_ec h.cursor hstep with ⟨⟨hlist, hcursor⟩, -⟩ | ⟨hlist, hcursor, pointer, hget, -⟩
  · refine ⟨?_, hcursor ▸ h.cursor⟩
    rcases hlist with hsub | ⟨pointer, hnew, happend⟩
    · exact h.nodup.sublist hsub
    · rw [happend, List.nodup_append]
      refine ⟨h.nodup, List.nodup_singleton _, ?_⟩
      rintro other hother _ hlast rfl
      obtain rfl := List.mem_singleton.mp hlast
      exact hnew hother
  · refine ⟨hlist ▸ h.nodup, ?_⟩
    have hne : s.memoriesAddedEc.length ≠ 0 := by
      obtain ⟨hlt, -⟩ := List.getElem?_eq_some_iff.mp hget
      omega
    have hbounds := (nextEc_bounds h.cursor hne).1
    omega

theorem EcList.of_run (hstart : start.Start)
    (hrun : Run KernelMemories.step (fun _ _ _ => True) start s) : s.EcList := by
  refine hrun.invariant ⟨?_, hstart.ecNext.ge⟩ fun _ _ _ h htaken _ => h.step htaken
  rw [hstart.ec]
  exact List.nodup_nil

/-- **The calls of a run** return the memories in turns. -/
theorem EcCalls.visits (h : s.EcList) (hne : s.memoriesAddedEc ≠ []) (hcalls : EcCalls s calls s') :
    s'.EcList ∧ s'.memoriesAddedEc = s.memoriesAddedEc ∧
      Visits s.memoriesAddedEc s.nextEc.toNat calls ∧
      s'.nextEc = ((s.nextEc.toNat + calls.length) % s.memoriesAddedEc.length : Nat) := by
  have hlength : s.memoriesAddedEc.length ≠ 0 := by simpa using hne
  induction hcalls with
  | start =>
    obtain ⟨hle, hlt⟩ := nextEc_bounds h.cursor hlength
    refine ⟨h, rfl, visits_nil _ _, ?_⟩
    rw [List.length_nil, Nat.add_zero, Nat.mod_eq_of_lt (by omega)]
    omega
  | @step calls s₁ s₂ action before taken unchanged ih =>
    obtain ⟨hlist, hsame, hvisits, hnext⟩ := ih
    refine ⟨hlist.step taken, unchanged.trans hsame, ?_⟩
    rcases step_ec hlist.cursor taken with ⟨⟨-, hcursor⟩, hnone⟩ | ⟨-, hcursor, pointer, hget, hone⟩
    · rw [hnone, List.append_nil]
      refine ⟨hvisits, ?_⟩
      rw [nextEc_eq, unchanged, hcursor, ← nextEc_eq]
      exact hnext
    · rw [hsame, hnext, Int.toNat_natCast] at hget
      rw [hone]
      refine ⟨hvisits.append hget, ?_⟩
      rw [nextEc_eq, unchanged, hsame, hcursor, hnext,
        nextTurn_of_index (Nat.mod_lt _ (by omega)), List.length_append, List.length_singleton,
        Nat.mod_add_mod, Nat.add_assoc]

/-- **Fair selection.**  After any history, and for a list of memories that from then on stays what
it is, `get_any_ec_memory` never fails; as many consecutive calls as there are memories return each
of them exactly once; and in any two such windows they come in the same cyclic order. -/
theorem ec_round_robin (hstart : start.Start)
    (hrun : Run KernelMemories.step (fun _ _ _ => True) start s)
    (hne : 1 ≤ s.memoriesAddedEc.length) (hcalls : EcCalls s calls s') :
    (∃ pointer ∈ s.memoriesAddedEc, ∃ next, s'.getAnyEcMemory = some (some pointer, next)) ∧
      (∀ i, i + s.memoriesAddedEc.length ≤ calls.length →
        ∀ pointer, ((calls.drop i).take s.memoriesAddedEc.length).count pointer
          = if pointer ∈ s.memoriesAddedEc then 1 else 0) ∧
      ∀ i j, i + s.memoriesAddedEc.length ≤ calls.length →
        j + s.memoriesAddedEc.length ≤ calls.length →
          (calls.drop i).take s.memoriesAddedEc.length
            ~r (calls.drop j).take s.memoriesAddedEc.length := by
  have hlist := EcList.of_run hstart hrun
  have hnonempty : s.memoriesAddedEc ≠ [] := by
    rintro hempty
    rw [hempty] at hne
    cases hne
  obtain ⟨hlist', hsame, hvisits, -⟩ := EcCalls.visits hlist hnonempty hcalls
  refine ⟨?_, fun i hi pointer => ?_, fun i j hi hj => ?_⟩
  · obtain ⟨pointer, hget, hcall⟩ := getAnyEcMemory_spec hlist'.cursor (hsame ▸ hnonempty)
    rw [hsame] at hget
    exact ⟨pointer, List.mem_of_getElem? hget, _, hcall⟩
  · rw [hvisits.window hi, (List.rotate_perm _ _).count_eq, List.Nodup.count hlist.nodup]
  · rw [hvisits.window hi, hvisits.window hj]
    exact (List.IsRotated.forall _ _).trans (List.IsRotated.forall _ _).symm

/-- Two memories for eventual consistency, of which the second one was selected last. -/
def twoEventual : List KernelAction :=
  [.gossip 0, .postGossip 0 [(⟨1, .ofBytes [49], 8001, true, 5⟩, 1),
    (⟨2, .ofBytes [50], 8002, true, 6⟩, 2)] 10, .processAdd ⟨1, .eventualConsistency⟩,
    .processAdd ⟨2, .eventualConsistency⟩, .execRemote (some .eventualConsistency) 0 0,
    .execRemote (some .eventualConsistency) 0 0]

/-- Three selections with a gossip in between. -/
def threeSelections : List KernelAction :=
  [.execRemote (some .eventualConsistency) 0 0, .gossip 1,
    .execRemote (some .eventualConsistency) 0 0, .execRemote (some .eventualConsistency) 0 0]

theorem twoEventual_runs :
    ((runSteps KernelMemories.step (fun _ _ _ => True) firstKernel twoEventual).bind fun s =>
      (s.runCalls threeSelections).map fun result => (s.memoriesAddedEc, result.1)) =
      some ([1, 2], [1, 2, 1]) := by decide +kernel

/-- The two windows of three calls. -/
theorem ec_round_robin_two :
    ∃ s s' : KernelMemories, Run KernelMemories.step (fun _ _ _ => True) firstKernel s ∧
      s.memoriesAddedEc = [1, 2] ∧ EcCalls s [1, 2, 1] s' ∧
      (∃ pointer ∈ [1, 2], ∃ next, s'.getAnyEcMemory = some (some pointer, next)) ∧
      [1, 2] ~r [2, 1] := by
  obtain ⟨s, hsteps, h⟩ := Option.bind_eq_some_iff.mp twoEventual_runs
  obtain ⟨⟨calls, s'⟩, hmore, heq⟩ := Option.map_eq_some_iff.mp h
  obtain ⟨hlist, rfl⟩ := Prod.mk.inj heq
  have hrun := run_of_runSteps hsteps
  have hcalls := ecCalls_of_runCalls hmore
  have hne : 1 ≤ s.memoriesAddedEc.length := by
    rw [hlist]
    decide
  obtain ⟨hnext, -, hwindows⟩ := ec_round_robin firstKernel_start hrun hne hcalls
  rw [hlist] at hnext hwindows
  exact ⟨s, s', hrun, hlist, hcalls, hnext, hwindows 0 1 (by decide) (by decide)⟩

end KernelMemories
end Lissandra
