import Lissandra.JournalLosses

/-! # Stale reads of a memory node

A SELECT that misses is answered by the filesystem, and `select_callback` brings the answer
to memory whenever it arrives.  An INSERT of the key may have taken effect by then, and a
journal may have emptied the memory: then the answer is the only page of the key, and the
next SELECT finds it.

Where no answer comes to memory after an INSERT of its key, and INSERTs take effect in the
order of their timestamps, every SELECT is answered with what was acknowledged before it or
something newer (`select_fresh`).
-/
namespace Lissandra

/-- Every answer to a SELECT is as new as the INSERTs of its key acknowledged before it. -/
def BusyNode.AnswersFresh (s : BusyNode) : Prop :=
  ∀ request record, (request, record) ∈ s.answered → AnsweredFresh request record

section Reads
variable {s start : BusyNode}

/-- The states after steps that are not disturbed and in order. -/
abbrev OrderedRun (start s : BusyNode) : Prop :=
  Run BusyNode.step (fun s action _ => s.Undisturbed action ∧ s.InOrder action) start s

/-- **No SELECT is answered with something older** than what was acknowledged before it, in a
run of steps that are undisturbed and in order. -/
theorem select_fresh (hstart : start.Start) (hrun : OrderedRun start s) : s.AnswersFresh := by
  have hinv : ∃ view, s.Inv start.node.memory True view := by
    refine Run.invariant (P := fun s : BusyNode => ∃ view, s.Inv start.node.memory True view) hrun
      ⟨_, hstart.inv⟩ ?_
    rintro s action s' ⟨view, hinv⟩ hstep ⟨hundisturbed, hinOrder⟩
    exact hinv.step hundisturbed (fun _ => hinOrder) hstep
  obtain ⟨view, hinv⟩ := hinv
  exact (hinv.reads trivial).answered

end Reads

/-! ## Runs -/

/-- A memory of two pages in front of a filesystem with a first value. -/
def firstBusyNode : Option BusyNode :=
  (getValueCallback (List.replicate 50 7) 2 firstClock).map fun node =>
    ⟨node, 1, [], [], [], firstStored, firstStored, fun _ _ => none, [], [], []⟩

theorem firstBusyNode_start {s : BusyNode} (h : firstBusyNode = some s) : s.Start := by
  obtain ⟨node, hnode, rfl⟩ := Option.map_eq_some_iff.mp h
  exact ⟨⟨_, _, _, hnode⟩, rfl, rfl, rfl, rfl, rfl, fun _ _ => rfl, rfl, rfl, rfl⟩

/-- A SELECT of the first key. -/
def firstRequest (seen : List (Bytes × Record)) (overtaken : Bool) : SelectRequest :=
  ⟨[84], 1, seen, overtaken⟩

/-- What the filesystem answers to it at the start. -/
def firstResult : RecordT := ⟨.ofBytes [84], 5, 1, .ofBytes [120], none⟩

/-- A SELECT misses, and the filesystem answers. -/
def missActions : List BusyNode.Action :=
  [.select selectFirst, .run (.post (.miss (firstRequest [] false))),
    .run (.raise (.miss (firstRequest [] false))),
    .fsSelect (firstRequest [] false) (some firstResult)]

/-- `select_callback` brings the answer to memory. -/
def callbackActions (overtaken : Bool) : List BusyNode.Action :=
  [.selectCallback (firstRequest [] overtaken) (some firstResult),
    .run (.post (.answer (firstRequest [] overtaken) firstResult)),
    .run (.raise (.answer (firstRequest [] overtaken) firstResult))]

/-- The value comes to memory, is written over, and read. -/
def freshActions : List BusyNode.Action :=
  let tail : Tail := .insert none [84] ⟨11, 1, [97]⟩
  missActions ++ callbackActions false ++
    [.insert 11 11 (shortInsert 1), .run (.post tail), .run (.raise tail), .select selectFirst]

/-- An INSERT of the key and a journal come before the answer to the first SELECT. -/
def staleActions : List BusyNode.Action :=
  missActions ++ journaledActions ++ [.run (.post .done), .run (.raise .done)] ++
    callbackActions true ++ [.select selectFirst]

def freshNode : Option BusyNode :=
  firstBusyNode >>= fun start =>
    runSteps BusyNode.step (fun s action _ => s.Undisturbed action ∧ s.InOrder action) start
    freshActions

/-- The SELECT that comes after the INSERT. -/
def secondRequest : SelectRequest := firstRequest [([84], ⟨11, 1, [97]⟩)] false

theorem select_fresh_written :
    ∃ start s : BusyNode, start.Start ∧ OrderedRun start s ∧
      (secondRequest, ⟨[84], 11, 1, [97], nada⟩) ∈ s.answered ∧ s.AnswersFresh := by
  have hrun : (freshNode.any fun s =>
      decide ((secondRequest, ⟨[84], 11, 1, [97], nada⟩) ∈ s.answered)) = true := by decide +kernel
  obtain ⟨s, hs, hanswered⟩ := Option.any_eq_true _ _ |>.mp hrun
  rw [freshNode] at hs
  obtain ⟨start, hstart, hsteps⟩ := Option.bind_eq_some_iff.mp hs
  have hstart := firstBusyNode_start hstart
  have hrun : OrderedRun start s := run_of_runSteps hsteps
  exact ⟨start, s, hstart, hrun, of_decide_eq_true hanswered, select_fresh hstart hrun⟩

def staleNode : Option BusyNode :=
  firstBusyNode >>= fun start =>
    runSteps BusyNode.step (fun _ _ _ => True) start staleActions

/-- A SELECT is answered with the value before an INSERT that was acknowledged. -/
theorem select_stale :
    ∃ start s : BusyNode, start.Start ∧ Run BusyNode.step (fun _ _ _ => True) start s ∧
      ¬s.AnswersFresh := by
  have hrun : (staleNode.any fun s =>
      decide ((secondRequest, ⟨[84], 5, 1, [120], nada⟩) ∈ s.answered)) = true := by decide +kernel
  obtain ⟨s, hs, hanswered⟩ := Option.any_eq_true _ _ |>.mp hrun
  rw [staleNode] at hs
  obtain ⟨start, hstart, hsteps⟩ := Option.bind_eq_some_iff.mp hs
  refine ⟨start, s, firstBusyNode_start hstart, run_of_runSteps hsteps, fun hfresh => ?_⟩
  have hanswer := hfresh _ _ (of_decide_eq_true hanswered) ⟨11, 1, [97]⟩ List.mem_cons_self rfl
  exact absurd hanswer (by decide)

end Lissandra
