import Lissandra.QueueHistory
import Lissandra.SchedulerQueues

/-! # Processes come to slots in turn

What came to `ready` and what came to a slot is recorded next to the scheduler; nothing of it is
read by the scheduler.  Three threads write to `ready`: the long term scheduler and the threads of
the slots add processes at its end, and the short term scheduler takes the first one to an empty
slot, or none.  So the slots are given in the order of arrival at `ready`, and a process that
waits there is overtaken by nobody (`ready_in_turn`).
-/
namespace Lissandra

/-- The scheduler, with all processes that came to `ready` and to a slot so far. -/
structure RecordedScheduler where
  scheduler : Scheduler
  joined : List PcbPointer
  served : List PcbPointer

/-- Those in a queue that were not in it before. -/
def newcomers (before after : List PcbPointer) : List PcbPointer :=
  after.filter fun pointer => pointer ∉ before

/-- A step of the scheduler, and which processes came to `ready` and to the slots. -/
def RecordedScheduler.step (r : RecordedScheduler) (action : SchedulerAction) :
    Option RecordedScheduler :=
  (r.scheduler.step action).map fun s' =>
    { scheduler := s'
      joined := r.joined ++ newcomers r.scheduler.ready s'.ready
      served := r.served ++ newcomers r.scheduler.exec.reduceOption s'.exec.reduceOption }

/-- At the start. -/
def setupRecorded (multiprocessing : Nat) (quantum : Int) : RecordedScheduler :=
  ⟨setupScheduler multiprocessing quantum, [], []⟩

theorem newcomers_of_subset {before after : List PcbPointer} (h : after ⊆ before) :
    newcomers before after = [] :=
  List.filter_eq_nil_iff.mpr fun pointer hmem => by simpa using h hmem

/-- A process comes to the end of a queue. -/
theorem newcomers_append {before : List PcbPointer} {pointer : PcbPointer}
    (h : pointer ∉ before) : newcomers before (before ++ [pointer]) = [pointer] := by
  have hold := newcomers_of_subset (List.Subset.refl before)
  unfold newcomers at hold ⊢
  rw [List.filter_append, hold, List.nil_append]
  exact List.filter_cons_of_pos (by simpa using h)

/-- A process comes to an empty slot. -/
theorem newcomers_set {slots : List (Option PcbPointer)} {pointer : PcbPointer} {i : Nat}
    (h : pointer ∉ slots.reduceOption) (hempty : slots[i]? = some none) :
    newcomers slots.reduceOption (slots.set i (some pointer)).reduceOption = [pointer] := by
  have hperm := (reduceOption_set_some (a := pointer) hempty).filter
    fun other => decide (other ∉ slots.reduceOption)
  have hold := newcomers_of_subset (List.Subset.refl slots.reduceOption)
  unfold newcomers at hold ⊢
  rw [List.filter_cons_of_pos (by simpa using h), hold] at hperm
  exact List.perm_singleton.mp hperm

namespace Scheduler
variable {s s' : Scheduler} {pointer : PcbPointer} {pcb : Pcb} {i multiprocessing : Nat}

/-- What a step does to `ready` and to the slots. -/
inductive Turn (s s' : Scheduler) : Prop
  | stay (ready : s'.ready = s.ready) (slots : s'.exec.reduceOption ⊆ s.exec.reduceOption)
  | join (pointer : PcbPointer) (fresh : pointer ∉ s.ready)
      (ready : s'.ready = s.ready ++ [pointer]) (slots : s'.exec.reduceOption ⊆ s.exec.reduceOption)
  | serve (pointer : PcbPointer) (i : Nat) (fresh : pointer ∉ s.exec.reduceOption)
      (ready : s.ready = pointer :: s'.ready) (empty : s.exec[i]? = some none)
      (slots : s'.exec = s.exec.set i (some pointer))

/-- The queue of a process is the one of its state. -/
theorem Conserved.not_mem (h : s.Conserved multiprocessing) {state other : PcbState}
    (hmem : pointer ∈ s.queue state) (hne : state ≠ other) : pointer ∉ s.queue other := by
  intro hother
  have hstate := ((h.filing state).mem pointer).mp hmem
  exact hne (Option.some.inj (hstate.symm.trans (((h.filing other).mem pointer).mp hother)))

theorem turn_longTermSchedule (h : s.Conserved multiprocessing)
    (hbody : s.longTermSchedule = some s') : s.Turn s' := by
  obtain ⟨pointer, rest, pcb, hnew, -, rfl⟩ | ⟨pointer, rest, pcb, -, -, -, rfl⟩ | ⟨-, -, rfl⟩ :=
    longTermSchedule_cases hbody
  · have hmem : pointer ∈ s.queue .new := by simp [queue, hnew]
    have hfresh : pointer ∉ s.queue .ready := h.not_mem hmem (by decide)
    exact .join pointer hfresh rfl (List.Subset.refl _)
  · exact .stay rfl (List.Subset.refl _)
  · exact .stay rfl (List.Subset.refl _)

theorem turn_scheduleSlot (h : s.Conserved multiprocessing) (hi : i < s.exec.length)
    (hbody : s.scheduleSlot i = some s') : s.Turn s' := by
  obtain ⟨-, -, rfl⟩ | ⟨pointer, rest, pcb, hempty, hready, -, ⟨-, rfl⟩ | ⟨-, rfl⟩⟩ |
    ⟨pointer, pcb, -, -, ⟨-, rfl⟩ | ⟨-, rfl⟩⟩ := scheduleSlot_cases hi hbody
  · exact .stay rfl (List.Subset.refl _)
  · exact .stay rfl (List.Subset.refl _)
  · -- the first of `ready` comes to the empty slot
    have hmem : pointer ∈ s.queue .ready := by simp [queue, hready]
    have hfresh : pointer ∉ s.queue .exec := h.not_mem hmem (by decide)
    exact .serve pointer i hfresh hready hempty
      (List.insertIdx_eraseIdx_self (Nat.ne_of_lt hi) (some pointer))
  · exact .stay rfl (List.Subset.refl _)
  · exact .stay rfl (List.Subset.refl _)

theorem turn_planifierExecute (h : s.Conserved multiprocessing)
    (hbody : s.planifierExecute i = some s') : s.Turn s' := by
  obtain ⟨pointer, pcb, hslot, -, ⟨-, rfl⟩ | rfl | rfl⟩ := planifierExecute_cases hbody
  · exact .stay rfl fun other hother =>
      (take_slot hslot).1.mem_iff.mpr (List.mem_cons_of_mem _ hother)
  · -- the process of the slot goes back to `ready`
    have hmem : pointer ∈ s.queue .exec :=
      List.reduceOption_mem_iff.mpr (List.mem_of_getElem? hslot)
    have hfresh : pointer ∉ s.queue .ready := h.not_mem hmem (by decide)
    exact .join pointer hfresh rfl fun other hother =>
      (take_slot hslot).1.mem_iff.mpr (List.mem_cons_of_mem _ hother)
  · exact .stay rfl (List.Subset.refl _)

theorem turn_effect (h : s.Conserved multiprocessing) (heffect : s.Effect s') : s.Turn s' := by
  cases heffect with
  | longTermBody point body =>
    cases turn_longTermSchedule h body with
    | stay ready slots => exact .stay ready slots
    | join pointer fresh ready slots => exact .join pointer fresh ready slots
    | serve pointer i fresh ready empty slots => exact .serve pointer i fresh ready empty slots
  | slot i point hi body =>
    cases turn_scheduleSlot h hi body with
    | stay ready slots => exact .stay ready slots
    | join pointer fresh ready slots => exact .join pointer fresh ready slots
    | serve pointer i fresh ready empty slots => exact .serve pointer i fresh ready empty slots
  | entry i point hi body =>
    obtain ⟨-, rfl⟩ | ⟨pointer, pcb, -, -, ⟨-, rfl⟩ | ⟨-, rfl⟩⟩ := clearEntry_cases hi body
    all_goals exact .stay rfl (List.Subset.refl _)
  | postStatement i point posted body =>
    have hpast : (s.pastSemaphore i).Conserved multiprocessing :=
      ⟨h.filing, h.slots, h.finished⟩
    cases turn_planifierExecute hpast body with
    | stay ready slots => exact .stay ready slots
    | join pointer fresh ready slots => exact .join pointer fresh ready slots
    | serve pointer i fresh ready empty slots => exact .serve pointer i fresh ready empty slots
  | _ => exact .stay rfl (List.Subset.refl _)

/-- A step is a step of the queue `ready`, with the slots for those that are served. -/
theorem Turn.inTurn (h : s.Turn s') :
    InTurn s.ready s'.ready (newcomers s.ready s'.ready)
      (newcomers s.exec.reduceOption s'.exec.reduceOption) := by
  cases h with
  | stay ready slots =>
    rw [ready, newcomers_of_subset slots, newcomers_of_subset (List.Subset.refl _)]
    exact .refl _
  | join pointer fresh ready slots =>
    rw [ready, newcomers_of_subset slots, newcomers_append fresh]
    exact .join _ pointer
  | serve pointer i fresh ready empty slots =>
    have hnone : newcomers s.ready s'.ready = [] :=
      newcomers_of_subset (ready ▸ List.subset_cons_self _ _)
    rw [hnone, slots, newcomers_set fresh empty, ready]
    exact .serve pointer _

end Scheduler

namespace RecordedScheduler
variable {r r' : RecordedScheduler} {multiprocessing : Nat}

/-- The history of `ready` between two states of a run. -/
theorem inTurn_run (h : Run step (fun _ _ _ => True) r r')
    (hs : r.scheduler.Conserved multiprocessing) :
    r'.scheduler.Conserved multiprocessing ∧ ∃ joined served, r'.joined = r.joined ++ joined ∧
      r'.served = r.served ++ served ∧
      InTurn r.scheduler.ready r'.scheduler.ready joined served := by
  induction h with
  | refl =>
    exact ⟨hs, [], [], (List.append_nil _).symm, (List.append_nil _).symm, .refl _⟩
  | step action before taken _ ih =>
    obtain ⟨hconserved, joined, served, hjoined, hserved, hturn⟩ := ih
    obtain ⟨s', hstep, rfl⟩ := Option.map_eq_some_iff.mp taken
    have hnext := (Scheduler.turn_effect hconserved (Scheduler.step_effect hstep)).inTurn
    refine ⟨hconserved.step hstep, _, _, ?_, ?_, hturn.trans hnext⟩
    · rw [hjoined, List.append_assoc]
    · rw [hserved, List.append_assoc]

end RecordedScheduler

/-- **First in, first out.**  In every run, the processes that came to a slot are the ones that came
to `ready`, in the same order, up to those that still wait there.  From any state on, a process
that waits in `ready` is served right after exactly those before it, or it has moved up by as many
places as there were served. -/
theorem ready_in_turn {multiprocessing : Nat} {quantum : Int} {r r' : RecordedScheduler}
    (hrun : Run RecordedScheduler.step (fun _ _ _ => True)
      (setupRecorded multiprocessing quantum) r)
    (hmore : Run RecordedScheduler.step (fun _ _ _ => True) r r') :
    r'.joined = r'.served ++ r'.scheduler.ready ∧
      ∃ served, r'.served = r.served ++ served ∧
        ∀ k pointer, r.scheduler.ready[k]? = some pointer →
          served.take (k + 1) = r.scheduler.ready.take (k + 1) ∨
            served = r.scheduler.ready.take served.length ∧
              r'.scheduler.ready[k - served.length]? = some pointer := by
  have hsetup := Scheduler.conserved_setup multiprocessing quantum
  obtain ⟨hconserved, -⟩ := RecordedScheduler.inTurn_run hrun hsetup
  obtain ⟨-, _, served, -, hserved, hturn⟩ := RecordedScheduler.inTurn_run hmore hconserved
  obtain ⟨-, joined, all, hjoined, hall, hwhole⟩ :=
    RecordedScheduler.inTurn_run (hrun.trans hmore) hsetup
  refine ⟨?_, served, hserved, fun k pointer hplace => hturn.place hplace⟩
  rw [hjoined, hall]
  exact hwhole

/-- Two `JOURNAL`s come to `ready`, and the second one is overtaken by nobody. -/
theorem ready_in_turn_journals :
    ∃ r r', runSteps RecordedScheduler.step (fun _ _ _ => True) (setupRecorded 1 1)
        [.arrive 7 [generateStatement .journal] 0 0, .arrive 8 [generateStatement .journal] 0 0,
          .longTerm, .longTerm, .longTerm, .longTerm] = some r ∧
      runSteps RecordedScheduler.step (fun _ _ _ => True) r [.shortTerm, .shortTerm] = some r' ∧
      r.scheduler.ready = [7, 8] ∧ r'.scheduler.ready = [8] ∧
      r'.joined = r'.served ++ r'.scheduler.ready := by
  have hsteps : ∃ r r', runSteps RecordedScheduler.step (fun _ _ _ => True) (setupRecorded 1 1)
      [.arrive 7 [generateStatement .journal] 0 0, .arrive 8 [generateStatement .journal] 0 0,
        .longTerm, .longTerm, .longTerm, .longTerm] = some r ∧
      runSteps RecordedScheduler.step (fun _ _ _ => True) r [.shortTerm, .shortTerm] = some r' ∧
      r.scheduler.ready = [7, 8] ∧ r'.scheduler.ready = [8] := ⟨_, _, rfl, rfl, rfl, rfl⟩
  obtain ⟨r, r', hr, hr', hready, hready'⟩ := hsteps
  exact ⟨r, r', hr, hr', hready, hready',
    (ready_in_turn (run_of_runSteps hr) (run_of_runSteps hr')).1⟩

end Lissandra
