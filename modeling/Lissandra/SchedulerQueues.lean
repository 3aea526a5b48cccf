import Lissandra.Filing
import Lissandra.Runs
import Lissandra.Scheduler

/-! # No process is lost or duplicated

A step leaves the queues as they are, or it takes one process through its life: from nowhere
to `new`, from there to `ready`, to a slot, back to `ready` or to `exit`, and to nowhere
(`Scheduler.Moves`).  The field of a process says which queue it is in, so the queues file
the processes by this field (`Filing`), and they do so in every run
(`processes_conserved`).
-/
namespace Lissandra
namespace Scheduler
variable {s s' : Scheduler} {pointer : PcbPointer} {pcb old : Pcb} {i : Nat}

/-- The states of the processes. -/
def states (s : Scheduler) : PcbPointer → Option PcbState :=
  fun pointer => (s.pcb pointer).map Pcb.state

/-- The queue of a state.  The processes in slots are one queue. -/
def queue (s : Scheduler) : PcbState → List PcbPointer
  | .new => s.new
  | .ready => s.ready
  | .exec => s.exec.reduceOption
  | .exit => s.exit

/-- A process in `exit` has no statement left. -/
def Finished (s : Scheduler) : Prop :=
  ∀ pointer pcb, s.pcb pointer = some pcb → pcb.state = .exit →
  pcb.statements.length ≤ pcb.programCounter

/-! ## Writing to a process -/

theorem states_setPcb (s : Scheduler) (pointer : PcbPointer) (pcb : Pcb) :
    (s.setPcb pointer pcb).states = Function.update s.states pointer (some pcb.state) := by
  funext other
  by_cases h : other = pointer
  · subst h
    simp [states, setPcb]
  · simp [states, setPcb, h]

theorem states_of_pcb (h : s.pcb pointer = some pcb) : s.states pointer = some pcb.state := by
  unfold states
  rw [h]
  rfl

/-- Its other fields are not looked at. -/
theorem states_setPcb_same (h : s.pcb pointer = some old) (hstate : pcb.state = old.state) :
    (s.setPcb pointer pcb).states = s.states := by
  rw [states_setPcb, hstate]
  exact Filed.update_same _ (states_of_pcb h)

theorem states_setPcb_of_ne {other : PcbPointer} (h : other ≠ pointer) :
    (s.setPcb pointer pcb).states other = s.states other := by
  rw [states_setPcb, Function.update_of_ne h]

theorem Finished.setPcb (h : s.Finished)
    (hpcb : pcb.state = .exit → pcb.statements.length ≤ pcb.programCounter) :
    (s.setPcb pointer pcb).Finished := by
  intro other otherPcb hother
  by_cases heq : other = pointer
  · subst heq
    obtain rfl : pcb = otherPcb := by simpa [Scheduler.setPcb] using hother
    exact hpcb
  · refine h other otherPcb ?_
    simpa [Scheduler.setPcb, heq] using hother

theorem afterStatement_state (pcb : Pcb) (errors : Bool) :
    (afterStatement pcb errors).state = pcb.state := by
  unfold afterStatement
  split <;> rfl

theorem afterStatement_finished (pcb : Pcb) (errors : Bool)
    (h : pcb.statements.length ≤ pcb.programCounter) :
    (afterStatement pcb errors).statements.length ≤ (afterStatement pcb errors).programCounter := by
  unfold afterStatement
  split
  · exact le_rfl
  · exact Nat.le_succ_of_le h

/-! ## What a step does to the queues -/

/-- From where to where a process goes that is in a queue. -/
inductive Passes : PcbState → PcbState → Prop
  | start : Passes .new .ready
  | run : Passes .ready .exec
  | expire : Passes .exec .ready
  | finish : Passes .exec .exit

theorem Passes.ne {source target : PcbState} (h : Passes source target) : source ≠ target := by
  cases h <;> decide

/-- The states of the processes and the queues, before and after a step. -/
inductive Moves (states states' : PcbPointer → Option PcbState)
    (queue queue' : PcbState → List PcbPointer) : Prop
  | stay (hstates : states' = states) (hqueue : queue' = queue)
  | arrive (pointer : PcbPointer) (free : states pointer = none)
      (hstates : states' = Function.update states pointer (some .new))
      (put : (queue' .new).Perm (pointer :: queue .new))
      (rest : ∀ state, state ≠ .new → queue' state = queue state)
  | move (pointer : PcbPointer) (source target : PcbState) (passes : Passes source target)
      (hstates : states' = Function.update states pointer (some target))
      (take : (queue source).Perm (pointer :: queue' source))
      (put : (queue' target).Perm (pointer :: queue target))
      (rest : ∀ state, state ≠ source → state ≠ target → queue' state = queue state)
  | delete (pointer : PcbPointer) (hstates : states' = Function.update states pointer none)
      (take : (queue .exit).Perm (pointer :: queue' .exit))
      (rest : ∀ state, state ≠ .exit → queue' state = queue state)

section Moves
variable {states states' : PcbPointer → Option PcbState} {queue queue' : PcbState → List PcbPointer}

theorem Moves.filing (h : Moves states states' queue queue') (hfiling : Filing states queue) :
    Filing states' queue' := by
  cases h with
  | stay hstates hqueue =>
    rw [hstates, hqueue]
    exact hfiling
  | arrive pointer free hstates put rest =>
    rw [hstates]
    exact hfiling.put free put rest
  | move pointer source target passes hstates take put rest =>
    rw [hstates]
    exact hfiling.move passes.ne take put rest
  | delete pointer hstates take rest =>
    rw [hstates]
    exact hfiling.discard take rest

/-- Processes get to be there in `new` only. -/
theorem Moves.arrives (h : Moves states states' queue queue') (hfiling : Filing states queue)
    (hold : states pointer = none) (hnew : states' pointer ≠ none) : pointer ∈ queue' .new := by
  cases h with
  | stay hstates hqueue => exact absurd (hstates ▸ hold) hnew
  | arrive other free hstates put rest =>
    by_cases heq : pointer = other
    · subst heq
      exact put.mem_iff.mpr List.mem_cons_self
    · rw [hstates, Function.update_of_ne heq] at hnew
      exact absurd hold hnew
  | move other source target passes hstates take put rest =>
    -- a process that is moved was there before
    have hother := ((hfiling source).mem other).mp (take.mem_iff.mpr List.mem_cons_self)
    have heq : pointer ≠ other := by
      rintro rfl
      cases hold.symm.trans hother
    rw [hstates, Function.update_of_ne heq] at hnew
    exact absurd hold hnew
  | delete other hstates take rest =>
    refine absurd ?_ hnew
    by_cases heq : pointer = other
    · rw [hstates, heq, Function.update_self]
    · rw [hstates, Function.update_of_ne heq, hold]

/-- Processes are deleted from `exit` only. -/
theorem Moves.deletes (h : Moves states states' queue queue') (hold : states pointer ≠ none)
    (hnew : states' pointer = none) : pointer ∈ queue .exit := by
  cases h with
  | stay hstates hqueue => exact absurd (hstates ▸ hnew) hold
  | arrive other free hstates put rest =>
    by_cases heq : pointer = other
    · exact absurd (heq ▸ free) hold
    · rw [hstates, Function.update_of_ne heq] at hnew
      exact absurd hnew hold
  | move other source target passes hstates take put rest =>
    by_cases heq : pointer = other
    · rw [hstates, heq, Function.update_self] at hnew
      cases hnew
    · rw [hstates, Function.update_of_ne heq] at hnew
      exact absurd hnew hold
  | delete other hstates take rest =>
    by_cases heq : pointer = other
    · subst heq
      exact take.mem_iff.mpr List.mem_cons_self
    · rw [hstates, Function.update_of_ne heq] at hnew
      exact absurd hnew hold

end Moves

/-! ## Loop bodies -/

/-- What a step may do to the queues. -/
structure Keeps (s s' : Scheduler) : Prop where
  moves : Moves s.states s'.states s.queue s'.queue
  slots : s'.exec.length = s.exec.length
  finished : s.Finished → s'.Finished

theorem Keeps.refl (s : Scheduler) : s.Keeps s := ⟨.stay rfl rfl, rfl, id⟩

theorem length_of_getElem? {l : List (Option PcbPointer)} {x : Option PcbPointer}
    (h : l[i]? = some x) : i < l.length := (List.getElem?_eq_some_iff.mp h).1

theorem keeps_addProcess (hfree : s.pcb pointer = none) (hstate : pcb.state = .new) :
    s.Keeps (s.addProcess pointer pcb) := by
  refine ⟨.arrive pointer ?_ ?_ ?_ ?_, rfl, fun h => ?_⟩
  · simp [states, hfree]
  · rw [← hstate]
    exact states_setPcb s pointer pcb
  · exact List.perm_append_singleton pointer s.new
  · intro state hne
    cases state with
    | new => exact absurd rfl hne
    | _ => rfl
  · exact h.setPcb fun hexit => nomatch hstate.symm.trans hexit

theorem keeps_longTermSchedule (h : s.longTermSchedule = some s') : s.Keeps s' := by
  obtain ⟨pointer, rest, pcb, hnew, -, rfl⟩ | ⟨pointer, rest, pcb, -, hexit, -, rfl⟩ |
    ⟨-, -, rfl⟩ := longTermSchedule_cases h
  · -- a process goes from `new` to `ready`
    refine ⟨.move pointer .new .ready .start (states_setPcb s pointer _) ?_ ?_ ?_, rfl, fun h => ?_⟩
    · show s.new.Perm (pointer :: rest)
      rw [hnew]
    · exact List.perm_append_singleton pointer s.ready
    · intro state hsource htarget
      cases state with
      | new => exact absurd rfl hsource
      | ready => exact absurd rfl htarget
      | _ => rfl
    · exact h.setPcb nofun
  · -- a process in `exit` is deleted
    refine ⟨.delete pointer ?_ ?_ ?_, rfl, fun h other otherPcb hother => ?_⟩
    · funext other
      by_cases heq : other = pointer
      · subst heq
        simp [states, deletePcb]
      · simp [states, deletePcb, heq]
    · show s.exit.Perm (pointer :: rest)
      rw [hexit]
    · intro state hne
      cases state with
      | exit => exact absurd rfl hne
      | _ => rfl
    · by_cases heq : other = pointer
      · subst heq
        simp [deletePcb] at hother
      · exact h other otherPcb (by simpa [deletePcb, heq] using hother)
  · exact .refl _

theorem keeps_scheduleSlot (hi : i < s.exec.length)
    (h : s.scheduleSlot i = some s') : s.Keeps s' := by
  obtain ⟨-, -, rfl⟩ | ⟨pointer, rest, pcb, hempty, hready, -, ⟨-, rfl⟩ | ⟨-, rfl⟩⟩ |
    ⟨pointer, pcb, -, hpcb, ⟨-, rfl⟩ | ⟨-, rfl⟩⟩ := scheduleSlot_cases hi h
  · exact .refl _
  · exact .refl _
  · -- removing the slot and adding it in its place is writing it
    have hset := List.insertIdx_eraseIdx_self (Nat.ne_of_lt hi) (some pointer)
    refine ⟨.move pointer .ready .exec .run (states_setPcb s pointer _) ?_ ?_ ?_, ?_, fun h => ?_⟩
    · show s.ready.Perm (pointer :: rest)
      rw [hready]
    · show ((s.exec.eraseIdx i).insertIdx i (some pointer)).reduceOption.Perm _
      rw [hset]
      exact reduceOption_set_some hempty
    · intro state hsource htarget
      cases state with
      | ready => exact absurd rfl hsource
      | exec => exact absurd rfl htarget
      | _ => rfl
    · show ((s.exec.eraseIdx i).insertIdx i (some pointer)).length = _
      rw [hset, List.length_set]
    · exact h.setPcb nofun
  · exact ⟨.stay (states_setPcb_same hpcb rfl) rfl, rfl, fun h => h.setPcb (h pointer pcb hpcb)⟩
  · exact .refl _

theorem keeps_clearEntry (hi : i < s.pcbsToReady.length)
    (h : s.clearEntry i = some s') : s.Keeps s' := by
  obtain ⟨-, rfl⟩ | ⟨pointer, pcb, -, hpcb, ⟨-, rfl⟩ | ⟨-, rfl⟩⟩ := clearEntry_cases hi h
  · exact .refl _
  · exact ⟨.stay (states_setPcb_same hpcb rfl) rfl, rfl, fun h => h.setPcb (h pointer pcb hpcb)⟩
  · exact .refl _

/-- A slot is emptied. -/
theorem take_slot (hslot : s.exec[i]? = some (some pointer)) :
    s.exec.reduceOption.Perm (pointer :: ((s.exec.eraseIdx i).insertIdx i none).reduceOption) ∧
      ((s.exec.eraseIdx i).insertIdx i none).length = s.exec.length := by
  rw [List.insertIdx_eraseIdx_self (Nat.ne_of_lt (length_of_getElem? hslot)) none]
  exact ⟨reduceOption_set_none hslot, List.length_set⟩

theorem keeps_planifierExecute (h : s.planifierExecute i = some s') : s.Keeps s' := by
  obtain ⟨pointer, pcb, hslot, hpcb, ⟨hfinished, rfl⟩ | rfl | rfl⟩ := planifierExecute_cases h
  · obtain ⟨htake, hlength⟩ := take_slot hslot
    refine ⟨.move pointer .exec .exit .finish (states_setPcb s pointer _) htake ?_ ?_, hlength,
      fun h => ?_⟩
    · exact List.perm_append_singleton pointer s.exit
    · intro state hsource htarget
      cases state with
      | exec => exact absurd rfl hsource
      | exit => exact absurd rfl htarget
      | _ => rfl
    · exact h.setPcb fun _ => hfinished
  · obtain ⟨htake, hlength⟩ := take_slot hslot
    refine ⟨.move pointer .exec .ready .expire (states_setPcb s pointer _) htake ?_ ?_, hlength,
      fun h => ?_⟩
    · exact List.perm_append_singleton pointer s.ready
    · intro state hsource htarget
      cases state with
      | exec => exact absurd rfl hsource
      | ready => exact absurd rfl htarget
      | _ => rfl
    · exact h.setPcb nofun
  · exact ⟨.stay (states_setPcb_same hpcb rfl) rfl, rfl, fun h => h.setPcb (h pointer pcb hpcb)⟩

theorem keeps_effect (h : s.Effect s') : s.Keeps s' := by
  cases h with
  | arrive pointer pcb free state ready exec => exact keeps_addProcess free state
  | longTermBody point body =>
    obtain ⟨hmoves, hslots, hfinished⟩ := keeps_longTermSchedule body
    exact ⟨hmoves, hslots, hfinished⟩
  | slot i point hi body =>
    obtain ⟨hmoves, hslots, hfinished⟩ := keeps_scheduleSlot hi body
    exact ⟨hmoves, hslots, hfinished⟩
  | entry i point hi body =>
    obtain ⟨hmoves, hslots, hfinished⟩ := keeps_clearEntry hi body
    exact ⟨hmoves, hslots, hfinished⟩
  | endStatement i errors pointer pcb point hpcb =>
    refine ⟨.stay (states_setPcb_same hpcb (afterStatement_state pcb errors)) rfl, rfl, fun h => ?_⟩
    refine h.setPcb fun hexit => ?_
    rw [afterStatement_state] at hexit
    exact afterStatement_finished pcb errors (h pointer pcb hpcb hexit)
  | postStatement i point posted body =>
    obtain ⟨hmoves, hslots, hfinished⟩ := keeps_planifierExecute body
    exact ⟨hmoves, hslots, hfinished⟩
  | _ => exact ⟨.stay rfl rfl, rfl, id⟩

/-! ## Runs -/

/-- What holds of the queues in every run. -/
structure Conserved (multiprocessing : Nat) (s : Scheduler) : Prop where
  filing : Filing s.states s.queue
  slots : s.exec.length = multiprocessing
  finished : s.Finished

theorem conserved_setup (multiprocessing : Nat) (quantum : Int) :
    (setupScheduler multiprocessing quantum).Conserved multiprocessing := by
  refine ⟨fun state => ⟨?_, fun pointer => ?_⟩, List.length_replicate,
    fun pointer pcb h => nomatch h⟩
  · cases state with
    | exec =>
      show (List.replicate multiprocessing none).reduceOption.Nodup
      rw [List.reduceOption_replicate_none]
      exact List.nodup_nil
    | _ => exact List.nodup_nil
  · refine iff_of_false ?_ nofun
    cases state with
    | exec =>
      show pointer ∉ (List.replicate multiprocessing none).reduceOption
      rw [List.reduceOption_replicate_none]
      exact List.not_mem_nil
    | _ => exact List.not_mem_nil

theorem Conserved.step {multiprocessing : Nat} {action : SchedulerAction}
    (h : s.Conserved multiprocessing) (hstep : s.step action = some s') :
    s'.Conserved multiprocessing := by
  obtain ⟨hmoves, hslots, hfinished⟩ := keeps_effect (step_effect hstep)
  exact ⟨hmoves.filing h.filing, hslots.trans h.slots, hfinished h.finished⟩

theorem conserved_run {multiprocessing : Nat} {quantum : Int}
    (h : Run step (fun _ _ _ => True) (setupScheduler multiprocessing quantum) s) :
    s.Conserved multiprocessing :=
  h.invariant (conserved_setup multiprocessing quantum) fun _ _ _ hs hstep _ => hs.step hstep

/-- In how many places of the queues a process is. -/
def places (s : Scheduler) (pointer : PcbPointer) : Nat :=
  s.new.count pointer + s.ready.count pointer + s.exec.count (some pointer) + s.exit.count pointer

theorem Conserved.places {multiprocessing : Nat} (h : s.Conserved multiprocessing)
    (pointer : PcbPointer) : s.places pointer = if (s.pcb pointer).isSome then 1 else 0 := by
  have hnew : s.new.count pointer = _ := (h.filing .new).count pointer
  have hready : s.ready.count pointer = _ := (h.filing .ready).count pointer
  have hexec : s.exec.reduceOption.count pointer = _ := (h.filing .exec).count pointer
  have hexit : s.exit.count pointer = _ := (h.filing .exit).count pointer
  rw [count_reduceOption] at hexec
  unfold Scheduler.places
  rw [hnew, hready, hexec, hexit]
  cases hpcb : s.pcb pointer with
  | none => simp [states, hpcb]
  | some pcb => cases hstate : pcb.state <;> simp [states, hpcb, hstate]

end Scheduler

/-- **The scheduler conserves processes.**  In every run the slots are as many as configured, a
process that is there is in exactly one place of the queues, and in the queue of its state;
it comes in `new`, and it is deleted from `exit` only, with no statement left. -/
theorem processes_conserved {multiprocessing : Nat} {quantum : Int} {s : Scheduler}
    (h : Run Scheduler.step (fun _ _ _ => True) (setupScheduler multiprocessing quantum) s) :
    s.exec.length = multiprocessing ∧
      (∀ pointer, s.places pointer = if (s.pcb pointer).isSome then 1 else 0) ∧
      (∀ pointer pcb, s.pcb pointer = some pcb → pointer ∈ s.queue pcb.state) ∧
      ∀ action s', s.step action = some s' → ∀ pointer,
        (s.pcb pointer = none → s'.pcb pointer ≠ none → pointer ∈ s'.new) ∧
        ∀ pcb, s.pcb pointer = some pcb → s'.pcb pointer = none →
          pointer ∈ s.exit ∧ pcb.statements.length ≤ pcb.programCounter := by
  have hs := Scheduler.conserved_run h
  refine ⟨hs.slots, hs.places, fun pointer pcb hpcb => ?_, fun action s' hstep pointer => ⟨?_, ?_⟩⟩
  · exact ((hs.filing pcb.state).mem pointer).mpr (Scheduler.states_of_pcb hpcb)
  · intro hold hnew
    have hmoves := (Scheduler.keeps_effect (Scheduler.step_effect hstep)).moves
    refine hmoves.arrives hs.filing ?_ ?_
    · simp [Scheduler.states, hold]
    · simpa [Scheduler.states] using hnew
  · intro pcb hold hnew
    have hmoves := (Scheduler.keeps_effect (Scheduler.step_effect hstep)).moves
    have hexit : pointer ∈ s.exit := by
      have hbefore : s.states pointer ≠ none := by simp [Scheduler.states, hold]
      have hafter : s'.states pointer = none := by simp [Scheduler.states, hnew]
      exact hmoves.deletes hbefore hafter
    have hstate := ((hs.filing .exit).mem pointer).mp hexit
    rw [Scheduler.states_of_pcb hold] at hstate
    exact ⟨hexit, hs.finished pointer pcb hold (Option.some.inj hstate)⟩

/-- A `JOURNAL` that has come to the slot. -/
theorem processes_conserved_journal :
    ∃ s, runSteps Scheduler.step (fun _ _ _ => True) (setupScheduler 1 2)
      [.arrive 7 [generateStatement .journal] 0 0, .longTerm, .longTerm, .shortTerm, .shortTerm] =
      some s ∧
    s.exec = [some 7] ∧ s.places 7 = 1 := by
  have hsteps : ∃ s, runSteps Scheduler.step (fun _ _ _ => True) (setupScheduler 1 2)
      [.arrive 7 [generateStatement .journal] 0 0, .longTerm, .longTerm, .shortTerm, .shortTerm] =
      some s ∧ s.exec = [some 7] ∧ (s.pcb 7).isSome := ⟨_, rfl, rfl, rfl⟩
  obtain ⟨s, hs, hexec, hpcb⟩ := hsteps
  refine ⟨s, hs, hexec, ?_⟩
  rw [(processes_conserved (run_of_runSteps hs)).2.1, if_pos hpcb]

end Lissandra
