import Lissandra.BusyNodeSteps
import Lissandra.Runs

/-! # What journaling loses

A journal takes its batch when the request is sent, and its success deletes all segments when
the answer arrives.  `journaling` waits for the semaphore only when it is free, and the second
of two journals in flight starts with the semaphore taken: the first answer posts it, an
INSERT gets in, is acknowledged, and the second answer deletes its page.

Where this does not happen, and no thread works on pages between the post and the `list_add`
of another one, every acknowledged INSERT that was not written over is in a modified page or
was in a batch that the filesystem acknowledged (`journaling_keeps`).
-/
namespace Lissandra

/-- The record is in a page marked modified of a segment of its table. -/
def InModifiedPage (node : MemoryNode) (tableName : Bytes) (record : Record) : Prop :=
  ∃ segment ∈ node.segmentList, segment.name = tableName ∧ ∃ page ∈ segment.page,
    page.modified = true ∧ pageRecord node.memory page.index = some record.found

/-- Every INSERT that was answered with 0 and not written over is in memory or at the
filesystem. -/
def BusyNode.LosesNothing (s : BusyNode) : Prop :=
  ∀ tableName record, (tableName, record) ∈ s.acknowledged →
    s.written tableName record.key = some record →
    InModifiedPage s.node tableName record ∨ (tableName, record) ∈ s.confirmed

section Losses
variable {memory : MainMemory} {fresh : Prop} {s start : BusyNode} {view : View} {tableName : Bytes}
  {record : Record} {node : MemoryNode}

theorem Shows.inModifiedPage (hshows : Shows node view) (hmem : ⟨record, true⟩ ∈ view tableName) :
    InModifiedPage node tableName record := by
  obtain ⟨page, hpage, hholds⟩ := forall₂_exists (hshows tableName).flip hmem
  have hholds : PageHolds node.memory page ⟨record, true⟩ := hholds
  rw [pagesOf] at hpage
  cases hget : getSegmentByName node.segmentList tableName with
  | none =>
    rw [hget] at hpage
    exact absurd hpage List.not_mem_nil
  | some segment =>
    rw [hget] at hpage
    obtain ⟨hsegment, hname⟩ := mem_of_getSegmentByName hget
    exact ⟨segment, hsegment, hname, page, hpage, hholds.modified, hholds.pageRecord⟩

theorem BusyNode.Inv.losesNothing (h : s.Inv memory fresh view) : s.LosesNothing := by
  intro tableName record _ hwritten
  obtain ⟨-, hhead | hconfirmed⟩ := h.kept.written hwritten
  · have hmem := (View.mem_of.mp (List.mem_of_mem_head? hhead)).1
    exact Or.inl (h.holds.shows.inModifiedPage hmem)
  · exact Or.inr hconfirmed

/-- The states after steps that are not disturbed. -/
abbrev UndisturbedRun (start s : BusyNode) : Prop :=
  Run BusyNode.step (fun s action _ => s.Undisturbed action) start s

/-- **No acknowledged INSERT is lost** in a run of undisturbed steps. -/
theorem journaling_keeps (hstart : start.Start) (hrun : UndisturbedRun start s) :
    s.LosesNothing := by
  have hinv : ∃ view, s.Inv start.node.memory False view := by
    refine Run.invariant (P := fun s : BusyNode => ∃ view, s.Inv start.node.memory False view) hrun
      ⟨_, hstart.inv⟩ ?_
    rintro s action s' ⟨view, hinv⟩ hstep hundisturbed
    exact hinv.step hundisturbed (fun hfalse => hfalse.elim) hstep
  obtain ⟨view, hinv⟩ := hinv
  exact hinv.losesNothing

end Losses

/-! ## Runs -/

/-- A memory of two pages in front of an empty filesystem. -/
def emptyBusyNode : Option BusyNode :=
  (getValueCallback (List.replicate 50 7) 2 firstClock).map fun node =>
    ⟨node, 1, [], [], [], fun _ => [], fun _ => [], fun _ _ => none, [], [], []⟩

theorem emptyBusyNode_start {s : BusyNode} (h : emptyBusyNode = some s) : s.Start := by
  obtain ⟨node, hnode, rfl⟩ := Option.map_eq_some_iff.mp h
  exact ⟨⟨_, _, _, hnode⟩, rfl, rfl, rfl, rfl, rfl, fun _ _ => rfl, rfl, rfl, rfl⟩

/-- An INSERT into a table without pages, up to its answer. -/
def insertActions (now : Int64) (key : UInt16) : List BusyNode.Action :=
  let tail : Tail := .insert (some ⟨[84], true, ⟨0, true⟩⟩) [84] ⟨now, key, [97]⟩
  [.insert now now (shortInsert key), .run (.post tail), .run (.raise tail)]

/-- The journal of a first record. -/
def firstJournal (answer : Option (Option Int32)) (overtaken : Bool) : JournalRequest :=
  ⟨[([84], ⟨11, 1, [97]⟩)], none, answer, overtaken⟩

def firstOutcome : JournalOutcome := ⟨some 0, [([84], ⟨11, 1, [97]⟩)]⟩

/-- An INSERT, and then a journal of it. -/
def journaledActions : List BusyNode.Action :=
  insertActions 11 1 ++ [.journal, .run (.look none), .run (.wait none),
    .fsJournal (firstJournal none false) firstOutcome,
    .journalCallback (firstJournal (some (some 0)) false)]

/-- Two journals are sent, and the first answer posts the semaphore.  A second INSERT comes
between the two answers. -/
def overtakenActions : List BusyNode.Action :=
  insertActions 11 1 ++ [.journal, .run (.look none), .run (.wait none), .journal,
    .run (.look none), .fsJournal (firstJournal none false) firstOutcome,
    .journalCallback (firstJournal (some (some 0)) false), .run (.post .done),
    .run (.raise .done)] ++
  insertActions 13 2 ++ [.fsJournal (firstJournal none true) firstOutcome,
    .journalCallback (firstJournal (some (some 0)) true)]

/-- The record was acknowledged and not written over. -/
def BusyNode.AcknowledgedLast (s : BusyNode) (record : Record) : Prop :=
  ([84], record) ∈ s.acknowledged ∧ s.written [84] record.key = some record

instance (s : BusyNode) (record : Record) : Decidable (s.AcknowledgedLast record) :=
  inferInstanceAs (Decidable (_ ∧ _))

def journaledNode : Option BusyNode :=
  emptyBusyNode >>= fun start =>
    runSteps BusyNode.step (fun s action _ => s.Undisturbed action) start journaledActions

theorem journaling_keeps_journaled :
    ∃ start s : BusyNode, start.Start ∧ UndisturbedRun start s ∧ 
      s.AcknowledgedLast ⟨11, 1, [97]⟩ ∧ s.LosesNothing := by
  have hrun : (journaledNode.any fun s => decide (s.AcknowledgedLast ⟨11, 1, [97]⟩)) =
    true := by decide +kernel
  obtain ⟨s, hs, hfirst⟩ := Option.any_eq_true _ _ |>.mp hrun
  rw [journaledNode] at hs
  obtain ⟨start, hstart, hsteps⟩ := Option.bind_eq_some_iff.mp hs
  have hstart := emptyBusyNode_start hstart
  have hrun : UndisturbedRun start s := run_of_runSteps hsteps
  exact ⟨start, s, hstart, hrun, of_decide_eq_true hfirst, journaling_keeps hstart hrun⟩

def overtakenNode : Option BusyNode :=
  emptyBusyNode >>= fun start =>
    runSteps BusyNode.step (fun _ _ _ => True) start overtakenActions

/-- An INSERT that was answered with 0 is neither in memory nor in a batch. -/
theorem journaling_loses :
    ∃ start s : BusyNode, start.Start ∧ Run BusyNode.step (fun _ _ _ => True) start s ∧
      ¬s.LosesNothing := by
  have hrun : (overtakenNode.any fun s =>
      decide (s.AcknowledgedLast ⟨13, 2, [97]⟩ ∧ s.node.segmentList = [] ∧
        ([84], ⟨13, 2, [97]⟩) ∉ s.confirmed)) = true := by
    decide +kernel
  obtain ⟨s, hs, hfirst⟩ := Option.any_eq_true _ _ |>.mp hrun
  obtain ⟨⟨hack, hwritten⟩, hempty, hconfirmed⟩ := of_decide_eq_true hfirst
  rw [overtakenNode] at hs
  obtain ⟨start, hstart, hsteps⟩ := Option.bind_eq_some_iff.mp hs
  refine ⟨start, s, emptyBusyNode_start hstart, run_of_runSteps hsteps, fun hkeeps => ?_⟩
  rcases hkeeps _ _ hack hwritten with ⟨segment, hsegment, -⟩ | hmem
  · rw [hempty] at hsegment
    exact List.not_mem_nil hsegment
  · exact hconfirmed hmem

end Lissandra
