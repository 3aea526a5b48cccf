import Lissandra.ScriptOrder
import Lissandra.WorkBounds

/-! # Every process comes to its end

The schedulers are woken by their semaphores, and a process goes from queue to queue, so it has to
be seen that they neither turn for ever nor all wait while a process is left.  The body of a loop is
one step, and a statement that was started ends, once: that its memory answers is not shown here.

A process has work left by its program counter and its stage (`Pcb.workLeft`).  When it moves in a
way that wakes the short term scheduler, the turn that follows is paid for by what its new stage
needs less; so every step of a thread lowers the work that is left in the whole system
(`Scheduler.workLeft`), and only arrivals raise it.  When no thread can take a step the semaphores
are at zero, and as no wake-up is lost there is no process left (`Scheduler.Tended.idle`).
-/
namespace Lissandra

/-! ## Work -/

/-- The steps of the short term scheduler for one wake-up, and one more. -/
def turnWork (multiprocessing : Nat) : Nat := 2 * multiprocessing + 3

/-- The steps of the long term scheduler before it waits again. -/
def LongTermPoint.workLeft : LongTermPoint → Nat
  | .waiting => 0
  | .body => 1

/-- The steps of the short term scheduler before it waits again. -/
def ShortTermPoint.workLeft (multiprocessing : Nat) : ShortTermPoint → Nat
  | .waiting => 0
  | .slots i => (multiprocessing - i) + multiprocessing + 2
  | .entries i => (multiprocessing - i) + 1

/-- A statement, with up to three turns of the short term scheduler. -/
def statementWork (multiprocessing : Nat) : Nat := 3 * turnWork multiprocessing + 3

/-- What a process needs at its stage, next to its statements.  With its flag it needs another turn
before it can leave `ready`. -/
def Pcb.stageWork (multiprocessing : Nat) (pcb : Pcb) : Stage → Nat
  | .queued =>
    if pcb.state = .ready ∧ pcb.recentlyReady = false then turnWork multiprocessing + 1
    else 2 * turnWork multiprocessing + 1
  | .placed => 1
  | .started => 1
  | .executing => 0
  | .answered => 3 * turnWork multiprocessing + 2
  | .ended => 0

/-- A process in `ready` that may go to a slot. -/
theorem Pcb.stageWork_free {pcb : Pcb} {multiprocessing : Nat} (hstate : pcb.state = .ready)
    (hflag : pcb.recentlyReady = false) :
    pcb.stageWork multiprocessing .queued = turnWork multiprocessing + 1 :=
  if_pos ⟨hstate, hflag⟩

/-- A process in `new`, or held back in `ready`. -/
theorem Pcb.stageWork_held {pcb : Pcb} {multiprocessing : Nat}
    (hheld : ¬ (pcb.state = .ready ∧ pcb.recentlyReady = false)) :
    pcb.stageWork multiprocessing .queued = 2 * turnWork multiprocessing + 1 :=
  if_neg hheld

/-- The statements of a process that are left. -/
def Pcb.remaining (pcb : Pcb) : Nat := pcb.statements.length - pcb.programCounter

def Pcb.workLeft (multiprocessing : Nat) (planifier : Nat → ExecPoint) (pcb : Pcb) : Nat :=
  pcb.remaining * statementWork multiprocessing +
    pcb.stageWork multiprocessing (pcb.stage planifier)

/-- The threads of the kernel take these steps. -/
def SchedulerAction.Works : SchedulerAction → Prop
  | .arrive .. => False
  | .configure _ => False
  | _ => True

instance : DecidablePred SchedulerAction.Works
  | .arrive .. | .configure _ => .isFalse id
  | .longTerm | .shortTerm | .startStatement _ | .endStatement .. | .postStatement _ =>
    .isTrue trivial

/-- What an arrival brings: its statements, a turn of the long term scheduler, and two of the short
term scheduler. -/
def SchedulerAction.brings (multiprocessing : Nat) : SchedulerAction → Nat
  | .arrive _ statements _ _ =>
    statements.length * statementWork multiprocessing + 2 * turnWork multiprocessing + 3
  | _ => 0

/-- Every process comes with a statement. -/
def SchedulerAction.HasStatements : SchedulerAction → Prop
  | .arrive _ statements _ _ => statements ≠ []
  | _ => True

instance : DecidablePred SchedulerAction.HasStatements
  | .arrive _ statements _ _ => inferInstanceAs (Decidable (statements ≠ []))
  | .longTerm | .shortTerm | .startStatement _ | .endStatement .. | .postStatement _
  | .configure _ => .isTrue trivial

namespace Scheduler

/-- The processes that are there. -/
def processes (s : Scheduler) : Finset PcbPointer :=
  (s.new ++ s.ready ++ s.exec.reduceOption ++ s.exit).toFinset

/-- The work that is left of the process at an address. -/
def processWork (multiprocessing : Nat) (s : Scheduler) (pointer : PcbPointer) : Nat :=
  ((s.pcb pointer).map (Pcb.workLeft multiprocessing s.planifier)).getD 0

/-- The work of all processes, and what the semaphores were posted for. -/
def owed (multiprocessing : Nat) (s : Scheduler) : Nat :=
  s.processes.sum (s.processWork multiprocessing) + turnWork multiprocessing * s.stsSemaphore +
    2 * s.ltsSemaphore

/-- The work that is left. -/
def workLeft (multiprocessing : Nat) (s : Scheduler) : Nat :=
  s.owed multiprocessing + s.shortTerm.workLeft multiprocessing + s.longTerm.workLeft

/-- A process has a statement left, unless its last one has been answered. -/
def Unfinished (s : Scheduler) : Prop :=
  ∀ pointer pcb, s.pcb pointer = some pcb →
    pcb.stage s.planifier = .answered ∨ pcb.stage s.planifier = .ended ∨
      pcb.programCounter < pcb.statements.length

/-- What the work rests on. -/
structure Tended (multiprocessing : Nat) (s : Scheduler) : Prop where
  wakeful : s.Wakeful multiprocessing
  unfinished : s.Unfinished

variable {s s' : Scheduler} {pointer other : PcbPointer} {pcb : Pcb} {i multiprocessing n : Nat}

/-! ## Steps about one process -/

/-- What a step is about: no other process is written to, or gets to another stage. -/
structure About (pointer : PcbPointer) (s s' : Scheduler) : Prop where
  pcb : ∀ other, other ≠ pointer → s'.pcb other = s.pcb other
  stage : ∀ other pcb, other ≠ pointer → s.pcb other = some pcb →
    pcb.stage s'.planifier = pcb.stage s.planifier

/-- The threads of the slots stay where they are. -/
theorem About.of_pcb (hpcb : ∀ other, other ≠ pointer → s'.pcb other = s.pcb other)
    (hplanifier : s'.planifier = s.planifier) : About pointer s s' :=
  ⟨hpcb, fun other pcb _ _ => by rw [hplanifier]⟩

theorem Conserved.mem_processes (h : s.Conserved multiprocessing) :
    pointer ∈ s.processes ↔ s.pcb pointer ≠ none := by
  have hmem : ∀ state, pointer ∈ s.queue state ↔ s.states pointer = some state :=
    fun state => (h.filing state).mem pointer
  have hnew := hmem .new
  have hready := hmem .ready
  have hexec := hmem .exec
  have hexit := hmem .exit
  unfold processes
  simp only [List.mem_toFinset, List.mem_append]
  show ((pointer ∈ s.queue .new ∨ pointer ∈ s.queue .ready) ∨ pointer ∈ s.queue .exec) ∨
    pointer ∈ s.queue .exit ↔ _
  rw [hnew, hready, hexec, hexit]
  cases hpcb : s.pcb pointer with
  | none => simp [states, hpcb]
  | some pcb => cases hstate : pcb.state <;> simp [states, hpcb, hstate]

theorem processWork_of_none (h : s.pcb pointer = none) :
    s.processWork multiprocessing pointer = 0 := by
  simp [processWork, h]

theorem processWork_of_stage {stage : Stage} (hpcb : s.pcb pointer = some pcb)
    (hstage : pcb.stage s.planifier = stage) :
    s.processWork multiprocessing pointer =
      pcb.remaining * statementWork multiprocessing + pcb.stageWork multiprocessing stage := by
  simp [processWork, hpcb, Pcb.workLeft, hstage]

/-- The work of all processes changes by the work of the one. -/
theorem About.total (h : About pointer s s') (hs : s.Conserved multiprocessing)
    (hs' : s'.Conserved multiprocessing) :
    s'.processes.sum (s'.processWork multiprocessing) + s.processWork multiprocessing pointer =
      s.processes.sum (s.processWork multiprocessing) +
        s'.processWork multiprocessing pointer := by
  refine sum_of_one pointer (fun other hnot => ?_) (fun other hnot => ?_) fun other hne => ?_
  · exact processWork_of_none (not_not.mp (mt hs.mem_processes.mpr hnot))
  · exact processWork_of_none (not_not.mp (mt hs'.mem_processes.mpr hnot))
  · unfold processWork
    rw [h.pcb other hne]
    cases hpcb : s.pcb other with
    | none => rfl
    | some pcb =>
      show pcb.workLeft multiprocessing s'.planifier = pcb.workLeft multiprocessing s.planifier
      unfold Pcb.workLeft
      rw [h.stage other pcb hne hpcb]

theorem About.unfinished (h : About pointer s s') (hs : s.Unfinished)
    (hself : ∀ pcb, s'.pcb pointer = some pcb → pcb.stage s'.planifier = .answered ∨
      pcb.stage s'.planifier = .ended ∨ pcb.programCounter < pcb.statements.length) :
    s'.Unfinished := by
  intro other pcb hpcb
  by_cases heq : other = pointer
  · subst heq
    exact hself pcb hpcb
  · rw [h.pcb other heq] at hpcb
    rw [h.stage other pcb heq hpcb]
    exact hs other pcb hpcb

/-- So much less work is owed afterwards. -/
structure Pays (multiprocessing n : Nat) (s s' : Scheduler) : Prop where
  owed : s'.owed multiprocessing + n ≤ s.owed multiprocessing
  unfinished : s'.Unfinished

theorem Pays.refl (hs : s.Unfinished) : s.Pays multiprocessing 0 s := ⟨le_rfl, hs⟩

/-- A step that is about one process pays what this process and the semaphores need less. -/
theorem About.pays (h : About pointer s s') (hs : s.Conserved multiprocessing)
    (hs' : s'.Conserved multiprocessing) (hunfinished : s.Unfinished)
    (hwork : s'.processWork multiprocessing pointer +
        turnWork multiprocessing * s'.stsSemaphore + 2 * s'.ltsSemaphore + n ≤
      s.processWork multiprocessing pointer + turnWork multiprocessing * s.stsSemaphore +
        2 * s.ltsSemaphore)
    (hself : ∀ pcb, s'.pcb pointer = some pcb → pcb.stage s'.planifier = .answered ∨
      pcb.stage s'.planifier = .ended ∨ pcb.programCounter < pcb.statements.length) :
    s.Pays multiprocessing n s' := by
  refine ⟨?_, h.unfinished hunfinished hself⟩
  have htotal := h.total hs hs'
  unfold owed
  omega

/-! ## Loop bodies -/

/-- Posting the semaphore of the short term scheduler costs at most a turn. -/
theorem mul_semPostNeg_le (turn semaphore : Nat) :
    turn * semPostNeg semaphore ≤ turn * semaphore + turn := by
  have hle : semPostNeg semaphore ≤ semaphore + 1 := by
    unfold semPostNeg
    split <;> omega
  exact Nat.mul_le_mul_left turn hle

/-- A process in a queue. -/
theorem Conserved.state_of_mem (h : s.Conserved multiprocessing) {state : PcbState}
    (hmem : pointer ∈ s.queue state) (hpcb : s.pcb pointer = some pcb) : pcb.state = state := by
  have hstate := ((h.filing state).mem pointer).mp hmem
  rw [states_of_pcb hpcb] at hstate
  exact Option.some.inj hstate

theorem Flagged.recentlyReady_of_state {point : ShortTermPoint}
    (h : s.Flagged multiprocessing point) (hpcb : s.pcb pointer = some pcb)
    (hstate : pcb.state ≠ .ready) : pcb.recentlyReady = false := by
  have hflag : s.readyFlags pointer ≠ some true := by
    refine h.not_flagged ?_
    rw [states_of_pcb hpcb]
    exact fun heq => hstate (Option.some.inj heq)
  rw [readyFlags_of_pcb hpcb] at hflag
  exact eq_false_of_ne_true fun htrue => hflag (congrArg some htrue)

/-- A process that was started is at the stage of the thread of its slot. -/
theorem Threads.stage_of_started (h : s.Threads) (hs : s.Conserved multiprocessing)
    (hslot : s.exec[i]? = some (some pointer)) (hpcb : s.pcb pointer = some pcb)
    (hstarted : pcb.recentlyExec = false) :
    pcb.processor = i ∧ pcb.stage s.planifier = (s.planifier i).stage ∧
      (s.slotView i).Busy pointer := by
  obtain ⟨pcb', hpcb', hstate⟩ := hs.pcb_of_slot hslot
  obtain rfl := Option.some.inj (hpcb.symm.trans hpcb')
  have hprocess := process_of_slot hslot hpcb
  obtain ⟨-, hidle⟩ | ⟨started, hstartedView, hbusy⟩ := h i
  · have hflag := hidle _ hprocess
    rw [hstarted] at hflag
    cases hflag
  · have hview := Option.some.inj (hprocess.symm.trans hstartedView)
    obtain rfl : pointer = started := congrArg InSlot.pointer hview
    exact ⟨congrArg InSlot.processor hview, stage_of_process hpcb hstate hstartedView _, hbusy⟩

/-- A process that was not started has an idle thread. -/
theorem Threads.idle (h : s.Threads) (hslot : s.exec[i]? = some (some pointer))
    (hpcb : s.pcb pointer = some pcb) (hfresh : pcb.recentlyExec = true) :
    s.planifier i = .waitingInit := by
  obtain ⟨⟨hpoint, -⟩, -⟩ | ⟨started, hstarted, -⟩ := h i
  · exact hpoint
  · have hview := Option.some.inj ((process_of_slot hslot hpcb).symm.trans hstarted)
    have hflag := congrArg InSlot.recentlyExec hview
    rw [hfresh] at hflag
    cases hflag

/-- A process at another stage than the last two has a statement left. -/
theorem Unfinished.left (h : s.Unfinished) {stage : Stage} (hpcb : s.pcb pointer = some pcb)
    (hstage : pcb.stage s.planifier = stage) (hnot : stage ≠ .answered ∧ stage ≠ .ended) :
    pcb.programCounter < pcb.statements.length := by
  have hcases := h pointer pcb hpcb
  rw [hstage] at hcases
  exact (hcases.resolve_left hnot.1).resolve_left hnot.2

theorem Keeps.conserved (h : s.Keeps s') (hs : s.Conserved multiprocessing) :
    s'.Conserved multiprocessing :=
  ⟨h.moves.filing hs.filing, h.slots.trans hs.slots, h.finished hs.finished⟩

theorem pays_longTermSchedule (h : s.Tended multiprocessing)
    (hbody : s.longTermSchedule = some s') : s.Pays multiprocessing 0 s' := by
  obtain ⟨⟨hs, hthreads, hflagged, -⟩, hunfinished⟩ := h
  have hs' := (keeps_longTermSchedule hbody).conserved hs
  obtain ⟨pointer, rest, pcb, hnew, hpcb, rfl⟩ | ⟨pointer, rest, pcb, -, hexit, hpcb, rfl⟩ |
    ⟨-, -, rfl⟩ := longTermSchedule_cases hbody
  · -- from `new` to `ready`, without a flag
    have hmem : pointer ∈ s.new := by simp [hnew]
    have hstate := @Conserved.state_of_mem _ _ _ _ hs .new hmem hpcb
    have hflag := hflagged.recentlyReady_of_state hpcb (by rw [hstate]; decide)
    have hbefore : pcb.stage s.planifier = .queued := by rw [Pcb.stage, hstate]
    have hleft := hunfinished.left hpcb hbefore (by decide)
    have habout : About pointer s (s.toReady pointer rest pcb) :=
      .of_pcb (fun other hne => setPcb_of_ne hne) rfl
    have hpcb' : (s.toReady pointer rest pcb).pcb pointer = some { pcb with state := .ready } :=
      Function.update_self ..
    refine habout.pays hs hs' hunfinished ?_ fun written hwritten => .inr (.inr ?_)
    · rw [processWork_of_stage hpcb hbefore, @processWork_of_stage _ _ _ _ .queued hpcb' rfl,
        @Pcb.stageWork_free { pcb with state := .ready } _ rfl hflag,
        Pcb.stageWork_held (by simp [hstate])]
      have hposted := mul_semPostNeg_le (turnWork multiprocessing) s.stsSemaphore
      show pcb.remaining * statementWork multiprocessing + (turnWork multiprocessing + 1) +
        turnWork multiprocessing * semPostNeg s.stsSemaphore + 2 * s.ltsSemaphore + 0 ≤ _
      omega
    · obtain rfl := Option.some.inj (hpcb'.symm.trans hwritten)
      exact hleft
  · -- a process that is deleted had nothing left
    have habout : About pointer s (s.deletePcb pointer rest) :=
      .of_pcb (fun other hne => Function.update_of_ne hne _ _) rfl
    have hpcb' : (s.deletePcb pointer rest).pcb pointer = none := Function.update_self ..
    refine habout.pays hs hs' hunfinished ?_ fun written hwritten => ?_
    · rw [processWork_of_none hpcb']
      show 0 + turnWork multiprocessing * s.stsSemaphore + 2 * s.ltsSemaphore + 0 ≤ _
      omega
    · cases hpcb'.symm.trans hwritten
  · exact .refl hunfinished

theorem pays_scheduleSlot (h : s.Tended multiprocessing) (hi : i < s.exec.length)
    (hbody : s.scheduleSlot i = some s') : s.Pays multiprocessing 0 s' := by
  obtain ⟨⟨hs, hthreads, hflagged, -⟩, hunfinished⟩ := h
  have hs' := (keeps_scheduleSlot hi hbody).conserved hs
  obtain ⟨-, -, rfl⟩ | ⟨pointer, rest, pcb, -, hready, hpcb, ⟨-, rfl⟩ | ⟨hfree, rfl⟩⟩ |
    ⟨pointer, pcb, hslot, hpcb, ⟨hfresh, rfl⟩ | ⟨-, rfl⟩⟩ := scheduleSlot_cases hi hbody
  · exact .refl hunfinished
  · exact .refl hunfinished
  · -- from `ready` to the slot: the turn that is woken was paid for by the wait in `ready`
    have hmem : pointer ∈ s.ready := by simp [hready]
    have hstate := @Conserved.state_of_mem _ _ _ _ hs .ready hmem hpcb
    have hbefore : pcb.stage s.planifier = .queued := by rw [Pcb.stage, hstate]
    have hleft := hunfinished.left hpcb hbefore (by decide)
    have habout : About pointer s (s.toExec i pointer rest pcb) :=
      .of_pcb (fun other hne => setPcb_of_ne hne) rfl
    have hpcb' : (s.toExec i pointer rest pcb).pcb pointer =
        some { pcb with state := .exec, quantum := 0, recentlyExec := true } :=
      Function.update_self ..
    refine habout.pays hs hs' hunfinished ?_ fun written hwritten => .inr (.inr ?_)
    · rw [processWork_of_stage hpcb hbefore, @processWork_of_stage _ _ _ _ .placed hpcb' rfl,
        Pcb.stageWork_free hstate hfree]
      have hposted := mul_semPostNeg_le (turnWork multiprocessing) s.stsSemaphore
      show pcb.remaining * statementWork multiprocessing + 1 +
        turnWork multiprocessing * semPostNeg s.stsSemaphore + 2 * s.ltsSemaphore + 0 ≤ _
      omega
    · obtain rfl := Option.some.inj (hpcb'.symm.trans hwritten)
      exact hleft
  · -- its first statement is started
    obtain ⟨pcb', hpcb'', hstate⟩ := hs.pcb_of_slot hslot
    obtain rfl := Option.some.inj (hpcb.symm.trans hpcb'')
    have hbefore : pcb.stage s.planifier = .placed := by
      rw [Pcb.stage, hstate]
      exact if_pos hfresh
    have hleft := hunfinished.left hpcb hbefore (by decide)
    have habout : About pointer s (s.startExec i pointer pcb) :=
      .of_pcb (fun other hne => setPcb_of_ne hne) rfl
    have hpcb' : (s.startExec i pointer pcb).pcb pointer =
        some { pcb with processor := i, quantum := pcb.quantum + 1, recentlyExec := false } :=
      Function.update_self ..
    have hafter : ({ pcb with
        processor := i, quantum := pcb.quantum + 1, recentlyExec := false } : Pcb).stage
          (s.startExec i pointer pcb).planifier = .started := by
      rw [Pcb.stage, hstate]
      show (s.planifier i).stage = _
      rw [hthreads.idle hslot hpcb hfresh]
      rfl
    refine habout.pays hs hs' hunfinished ?_ fun written hwritten => .inr (.inr ?_)
    · rw [processWork_of_stage hpcb hbefore, processWork_of_stage hpcb' hafter]
      exact le_rfl
    · obtain rfl := Option.some.inj (hpcb'.symm.trans hwritten)
      exact hleft
  · exact .refl hunfinished

theorem pays_clearEntry (h : s.Tended multiprocessing) (hi : i < s.pcbsToReady.length)
    (hbody : s.clearEntry i = some s') : s.Pays multiprocessing 0 s' := by
  obtain ⟨⟨hs, hthreads, hflagged, -⟩, hunfinished⟩ := h
  have hs' := (keeps_clearEntry hi hbody).conserved hs
  obtain ⟨-, rfl⟩ | ⟨pointer, pcb, -, hpcb, ⟨hflag, rfl⟩ | ⟨-, rfl⟩⟩ := clearEntry_cases hi hbody
  · exact .refl hunfinished
  · -- a process in `ready` may go to a slot again
    have hready := hflagged.ready pointer (by rw [readyFlags_of_pcb hpcb, hflag])
    have hstate : pcb.state = .ready := by
      rw [states_of_pcb hpcb] at hready
      exact Option.some.inj hready
    have hbefore : pcb.stage s.planifier = .queued := by rw [Pcb.stage, hstate]
    have hleft := hunfinished.left hpcb hbefore (by decide)
    have habout : About pointer s (s.clearFlag i pointer pcb) :=
      .of_pcb (fun other hne => setPcb_of_ne hne) rfl
    have hpcb' : (s.clearFlag i pointer pcb).pcb pointer =
        some { pcb with recentlyReady := false } := Function.update_self ..
    have hafter : ({ pcb with recentlyReady := false } : Pcb).stage
        (s.clearFlag i pointer pcb).planifier = .queued := by rw [Pcb.stage, hstate]
    refine habout.pays hs hs' hunfinished ?_ fun written hwritten => .inr (.inr ?_)
    · rw [processWork_of_stage hpcb hbefore, processWork_of_stage hpcb' hafter,
        @Pcb.stageWork_free { pcb with recentlyReady := false } _ hstate rfl,
        Pcb.stageWork_held (by simp [hflag])]
      have hposted := mul_semPostNeg_le (turnWork multiprocessing) s.stsSemaphore
      show pcb.remaining * statementWork multiprocessing + (turnWork multiprocessing + 1) +
        turnWork multiprocessing * semPostNeg s.stsSemaphore + 2 * s.ltsSemaphore + 0 ≤ _
      omega
    · obtain rfl := Option.some.inj (hpcb'.symm.trans hwritten)
      exact hleft
  · exact .refl hunfinished

/-! ## The threads of the slots -/

/-- A step of the thread of a slot is about the process in the slot. -/
theorem about_slot (s' : Scheduler) (hs : s.Conserved multiprocessing) (hthreads : s.Threads)
    (hslot : s.exec[i]? = some (some pointer)) (point : ExecPoint)
    (hpcb : ∀ other, other ≠ pointer → s'.pcb other = s.pcb other)
    (hplanifier : s'.planifier = Function.update s.planifier i point) : About pointer s s' := by
  refine ⟨hpcb, fun other otherPcb hne hother => ?_⟩
  rw [hplanifier]
  exact stage_other hs hthreads hslot hother hne point

/-- The process of a thread that was posted for. -/
theorem started_in_slot (i : Nat) (hs : s.Conserved multiprocessing) (hthreads : s.Threads)
    (hposted : s.planifier i ≠ .waitingInit ∨ s.execSemaphoresInit i ≠ 0) :
    ∃ pointer pcb, s.exec[i]? = some (some pointer) ∧ s.pcb pointer = some pcb ∧
      pcb.state = .exec ∧ pcb.recentlyExec = false ∧ pcb.processor = i ∧
      (s.slotView i).Busy pointer := by
  obtain ⟨⟨hpoint, hinit, -⟩, -⟩ | ⟨pointer, hprocess, hbusy⟩ := hthreads i
  · exact absurd hinit (hposted.resolve_left (not_not.mpr hpoint))
  · obtain ⟨hslot, pcb, hpcb, hrecently, hprocessor⟩ := slot_of_process hprocess
    obtain ⟨same, hsame, hstate⟩ := hs.pcb_of_slot hslot
    obtain rfl := Option.some.inj (hpcb.symm.trans hsame)
    exact ⟨pointer, pcb, hslot, hpcb, hstate, hrecently.symm, hprocessor.symm, hbusy⟩

theorem stage_of_started (hstate : pcb.state = .exec) (hstarted : pcb.recentlyExec = false)
    (hprocessor : pcb.processor = i) (planifier : Nat → ExecPoint) :
    pcb.stage planifier = (planifier i).stage := by
  rw [Pcb.stage, hstate, hstarted, hprocessor]
  rfl

/-- The thread is at another point of its loop, and the other threads are where they were. -/
theorem stage_after (hstate : pcb.state = .exec) (hstarted : pcb.recentlyExec = false)
    (hprocessor : pcb.processor = i) (planifier : Nat → ExecPoint) (point : ExecPoint) :
    pcb.stage (Function.update planifier i point) = point.stage := by
  rw [stage_of_started hstate hstarted hprocessor, Function.update_self]

theorem pays_startStatement (h : s.Tended multiprocessing)
    (hbody : s.startStatement i = some s') : s.Pays multiprocessing 1 s' := by
  have hstep : s.step (.startStatement i) = some s' := hbody
  have hs' := (h.wakeful.step hstep).conserved
  obtain ⟨⟨hs, hthreads, -, -⟩, hunfinished⟩ := h
  unfold startStatement at hbody
  split_ifs at hbody with hpoint
  obtain ⟨pointer, pcb, hslot, hpcb, hstate, hstarted, hprocessor, -⟩ :=
    started_in_slot i hs hthreads (.inr hpoint.2)
  obtain ⟨other, hother, hrest⟩ := Option.bind_eq_some_iff.mp hbody
  obtain ⟨_, -, hrest⟩ := Option.bind_eq_some_iff.mp hrest
  obtain ⟨_, -, hafter⟩ := Option.bind_eq_some_iff.mp hrest
  obtain rfl : pointer = other :=
    Option.some.inj (Option.some.inj (hslot.symm.trans (Option.join_eq_some_iff.mp hother)))
  have hbefore : pcb.stage s.planifier = .started := by
    rw [stage_of_started hstate hstarted hprocessor, hpoint.1]
    rfl
  have hleft := hunfinished.left hpcb hbefore (by decide)
  obtain ⟨habout, hpcb', hexecuting, hsts, hlts⟩ : About pointer s s' ∧
      s'.pcb pointer = some pcb ∧ pcb.stage s'.planifier = .executing ∧
      s'.stsSemaphore = s.stsSemaphore ∧ s'.ltsSemaphore = s.ltsSemaphore := by
    obtain rfl := Option.some.inj hafter
    exact ⟨about_slot _ hs hthreads hslot (.executing pointer) (fun _ _ => rfl) rfl, hpcb,
      stage_after hstate hstarted hprocessor s.planifier (.executing pointer), rfl, rfl⟩
  refine habout.pays hs hs' hunfinished ?_ fun same hsame => .inr (.inr ?_)
  · rw [processWork_of_stage hpcb hbefore, processWork_of_stage hpcb' hexecuting, hsts, hlts]
    show pcb.remaining * statementWork multiprocessing + 0 + _ + _ + 1 ≤
      pcb.remaining * statementWork multiprocessing + 1 + _ + _
    omega
  · obtain rfl := Option.some.inj (hpcb'.symm.trans hsame)
    exact hleft

theorem afterStatement_slot (errors : Bool) :
    (afterStatement pcb errors).recentlyExec = pcb.recentlyExec ∧
      (afterStatement pcb errors).processor = pcb.processor := by
  unfold afterStatement
  split <;> exact ⟨rfl, rfl⟩

/-- A statement less, or none. -/
theorem remaining_afterStatement (errors : Bool)
    (h : pcb.programCounter < pcb.statements.length) :
    (afterStatement pcb errors).remaining + 1 ≤ pcb.remaining := by
  unfold afterStatement Pcb.remaining
  split
  · show pcb.statements.length - pcb.statements.length + 1 ≤ _
    omega
  · show pcb.statements.length - (pcb.programCounter + 1) + 1 ≤ _
    omega

theorem pays_endStatement (h : s.Tended multiprocessing) (errors : Bool)
    (hbody : s.endStatement i errors = some s') : s.Pays multiprocessing 1 s' := by
  have hstep : s.step (.endStatement i errors) = some s' := hbody
  have hs' := (h.wakeful.step hstep).conserved
  obtain ⟨⟨hs, hthreads, -, -⟩, hunfinished⟩ := h
  unfold endStatement at hbody
  split at hbody
  · next executing hpoint =>
    obtain ⟨posted, hpost, hafter⟩ := Option.map_eq_some_iff.mp hbody
    obtain ⟨pcb, hpcb, hposted⟩ := Option.bind_eq_some_iff.mp hpost
    obtain ⟨pointer, same, hslot, hsame, hstate, hstarted, hprocessor, -⟩ :=
      started_in_slot i hs hthreads (.inl (by simp [hpoint]))
    obtain rfl : pointer = executing := by
      obtain ⟨hprocess, -⟩ := hthreads.executing hpoint
      obtain ⟨hother, -⟩ := slot_of_process hprocess
      exact Option.some.inj (Option.some.inj (hslot.symm.trans hother))
    obtain rfl : same = pcb := Option.some.inj (hsame.symm.trans hpcb)
    have hbefore : same.stage s.planifier = .executing := by
      rw [stage_of_started hstate hstarted hprocessor, hpoint]
      rfl
    have hleft := hunfinished.left hpcb hbefore (by decide)
    obtain ⟨habout, hpcb', hanswered, hsts, hlts⟩ : About pointer s s' ∧
        s'.pcb pointer = some (afterStatement same errors) ∧
        (afterStatement same errors).stage s'.planifier = .answered ∧
        s'.stsSemaphore = s.stsSemaphore ∧ s'.ltsSemaphore = s.ltsSemaphore := by
      obtain ⟨hstartedAfter, hprocessorAfter⟩ := @afterStatement_slot same errors
      obtain rfl := Option.some.inj hposted
      obtain rfl := hafter
      exact ⟨about_slot _ hs hthreads hslot .waitingExec (fun other hne => setPcb_of_ne hne) rfl,
        Function.update_self .., stage_after ((afterStatement_state same errors).trans hstate)
          (hstartedAfter.trans hstarted) (hprocessorAfter.trans hprocessor) s.planifier
          .waitingExec, rfl, rfl⟩
    refine habout.pays hs hs' hunfinished ?_ fun written hwritten => .inl ?_
    · -- the statement pays for the turns that its answer may lead to
      have hless := Nat.mul_le_mul_right (statementWork multiprocessing)
        (remaining_afterStatement errors hleft)
      rw [Nat.succ_mul] at hless
      rw [processWork_of_stage hpcb hbefore, processWork_of_stage hpcb' hanswered, hsts, hlts]
      have hstatement : statementWork multiprocessing = 3 * turnWork multiprocessing + 3 := rfl
      show (afterStatement same errors).remaining * statementWork multiprocessing +
        (3 * turnWork multiprocessing + 2) + _ + _ + 1 ≤
        same.remaining * statementWork multiprocessing + 0 + _ + _
      omega
    · obtain rfl := Option.some.inj (hpcb'.symm.trans hwritten)
      exact hanswered
  · cases hbody

theorem pays_postStatement (h : s.Tended multiprocessing)
    (hbody : s.postStatement i = some s') : s.Pays multiprocessing 1 s' := by
  have hstep : s.step (.postStatement i) = some s' := hbody
  have hs' := (h.wakeful.step hstep).conserved
  obtain ⟨⟨hs, hthreads, hflagged, -⟩, hunfinished⟩ := h
  unfold postStatement at hbody
  split_ifs at hbody with hpoint
  obtain ⟨pointer, pcb, hslot, hpcb, hstate, hstarted, hprocessor, -⟩ :=
    started_in_slot i hs hthreads (.inl (by simp [hpoint.1]))
  obtain ⟨other, same, hother, hsame, hcases⟩ := planifierExecute_counters hbody
  obtain rfl : pointer = other := Option.some.inj (Option.some.inj (hslot.symm.trans hother))
  obtain rfl : pcb = same := Option.some.inj (hpcb.symm.trans hsame)
  have hbefore : pcb.stage s.planifier = .answered := by
    rw [stage_of_started hstate hstarted hprocessor, hpoint.1]
    rfl
  have hflag := hflagged.recentlyReady_of_state hpcb (by rw [hstate]; decide)
  have hposted := mul_semPostNeg_le (turnWork multiprocessing) s.stsSemaphore
  obtain ⟨hend, rfl⟩ | ⟨hnext, -, rfl⟩ | ⟨hnext, -, rfl⟩ := hcases
  · -- it has no statement left
    have hpcb' : ((s.pastSemaphore i).toExit i pointer pcb).pcb pointer =
        some { pcb with state := .exit } := Function.update_self ..
    have habout := about_slot ((s.pastSemaphore i).toExit i pointer pcb) hs hthreads hslot
      .waitingInit (fun other hne => setPcb_of_ne hne) rfl
    refine habout.pays hs hs' hunfinished ?_ fun written hwritten => .inr (.inl ?_)
    · rw [processWork_of_stage hpcb hbefore, @processWork_of_stage _ _ _ _ .ended hpcb' rfl]
      have hturn : 3 ≤ turnWork multiprocessing := Nat.le_add_left _ _
      show pcb.remaining * statementWork multiprocessing + 0 +
        turnWork multiprocessing * semPostNeg s.stsSemaphore + 2 * (s.ltsSemaphore + 1) + 1 ≤
        pcb.remaining * statementWork multiprocessing + (3 * turnWork multiprocessing + 2) + _ + _
      omega
    · obtain rfl := Option.some.inj (hpcb'.symm.trans hwritten)
      rfl
  · -- it goes back to `ready`
    have hpcb' : ((s.pastSemaphore i).backToReady i pointer pcb).pcb pointer =
        some { pcb with state := .ready, recentlyReady := true } := Function.update_self ..
    have habout := about_slot ((s.pastSemaphore i).backToReady i pointer pcb) hs hthreads hslot
      .waitingInit (fun other hne => setPcb_of_ne hne) rfl
    refine habout.pays hs hs' hunfinished ?_ fun written hwritten => .inr (.inr ?_)
    · rw [processWork_of_stage hpcb hbefore, @processWork_of_stage _ _ _ _ .queued hpcb' rfl,
        Pcb.stageWork_held (by simp)]
      show pcb.remaining * statementWork multiprocessing + (2 * turnWork multiprocessing + 1) +
        turnWork multiprocessing * semPostNeg s.stsSemaphore + 2 * s.ltsSemaphore + 1 ≤
        pcb.remaining * statementWork multiprocessing + (3 * turnWork multiprocessing + 2) + _ + _
      omega
    · obtain rfl := Option.some.inj (hpcb'.symm.trans hwritten)
      exact hnext
  · -- its next statement is started
    have hpcb' : ((s.pastSemaphore i).continueExec i pointer pcb).pcb pointer =
        some { pcb with processor := i, quantum := pcb.quantum + 1 } := Function.update_self ..
    have hafter : ({ pcb with processor := i, quantum := pcb.quantum + 1 } : Pcb).stage
        ((s.pastSemaphore i).continueExec i pointer pcb).planifier = .started :=
      @stage_after { pcb with processor := i, quantum := pcb.quantum + 1 } _ hstate hstarted rfl _ _
    have habout := about_slot ((s.pastSemaphore i).continueExec i pointer pcb) hs hthreads hslot
      .waitingInit (fun other hne => setPcb_of_ne hne) rfl
    refine habout.pays hs hs' hunfinished ?_ fun written hwritten => .inr (.inr ?_)
    · rw [processWork_of_stage hpcb hbefore, processWork_of_stage hpcb' hafter]
      show pcb.remaining * statementWork multiprocessing + 1 +
        turnWork multiprocessing * s.stsSemaphore + 2 * s.ltsSemaphore + 1 ≤
        pcb.remaining * statementWork multiprocessing + (3 * turnWork multiprocessing + 2) + _ + _
      omega
    · obtain rfl := Option.some.inj (hpcb'.symm.trans hwritten)
      exact hnext

/-! ## Steps -/

/-- A turn of the long term scheduler. -/
theorem workLeft_longTermStep (h : s.Tended multiprocessing) (hstep : s.longTermStep = some s') :
    s'.workLeft multiprocessing < s.workLeft multiprocessing ∧ s'.Unfinished := by
  unfold longTermStep at hstep
  split at hstep
  · next hpoint =>
    split_ifs at hstep with hzero
    obtain rfl := Option.some.inj hstep
    refine ⟨?_, h.unfinished⟩
    unfold workLeft owed
    rw [hpoint]
    show s.processes.sum (s.processWork multiprocessing) +
      turnWork multiprocessing * s.stsSemaphore + 2 * (s.ltsSemaphore - 1) +
      s.shortTerm.workLeft multiprocessing + 1 < _ + _ + 0
    omega
  · next hpoint =>
    obtain ⟨after, hbody, rfl⟩ := Option.map_eq_some_iff.mp hstep
    have hpays := pays_longTermSchedule h hbody
    have hshort : after.shortTerm = s.shortTerm := by
      obtain ⟨pointer, rest, pcb, -, -, rfl⟩ | ⟨pointer, rest, pcb, -, -, -, rfl⟩ | ⟨-, -, rfl⟩ :=
        longTermSchedule_cases hbody
      all_goals rfl
    refine ⟨?_, hpays.unfinished⟩
    have howed := hpays.owed
    unfold workLeft
    rw [hpoint]
    show after.owed multiprocessing + after.shortTerm.workLeft multiprocessing + 0 < _ + _ + 1
    rw [hshort]
    omega

/-- A turn of the short term scheduler, body by body. -/
theorem workLeft_shortTermStep (h : s.Tended multiprocessing)
    (hstep : s.shortTermStep = some s') :
    s'.workLeft multiprocessing < s.workLeft multiprocessing ∧ s'.Unfinished := by
  have hslots := h.wakeful.conserved.slots
  have hentries := h.wakeful.flagged.entries
  unfold shortTermStep at hstep
  split at hstep
  · next hpoint =>
    split_ifs at hstep with hzero
    obtain rfl := Option.some.inj hstep
    refine ⟨?_, h.unfinished⟩
    -- a wake-up pays for a whole turn
    have hturn : turnWork multiprocessing * (s.stsSemaphore - 1) + turnWork multiprocessing =
        turnWork multiprocessing * s.stsSemaphore := by
      rw [← Nat.mul_succ, Nat.succ_eq_add_one, Nat.sub_add_cancel (Nat.pos_of_ne_zero hzero)]
    have hdef : turnWork multiprocessing = 2 * multiprocessing + 3 := rfl
    unfold workLeft owed
    rw [hpoint]
    show s.processes.sum (s.processWork multiprocessing) +
      turnWork multiprocessing * (s.stsSemaphore - 1) + 2 * s.ltsSemaphore +
      ((multiprocessing - 0) + multiprocessing + 2) + s.longTerm.workLeft <
      s.processes.sum (s.processWork multiprocessing) +
      turnWork multiprocessing * s.stsSemaphore + 2 * s.ltsSemaphore + 0 + _
    omega
  · next i hpoint =>
    split_ifs at hstep with hi
    · obtain ⟨after, hbody, rfl⟩ := Option.map_eq_some_iff.mp hstep
      have hpays := pays_scheduleSlot h hi hbody
      have hlong : after.longTerm = s.longTerm := by
        obtain ⟨-, -, rfl⟩ | ⟨pointer, rest, pcb, -, -, -, ⟨-, rfl⟩ | ⟨-, rfl⟩⟩ |
          ⟨pointer, pcb, -, -, ⟨-, rfl⟩ | ⟨-, rfl⟩⟩ := scheduleSlot_cases hi hbody
        all_goals rfl
      refine ⟨?_, hpays.unfinished⟩
      have howed := hpays.owed
      unfold workLeft
      rw [hpoint]
      show after.owed multiprocessing + ((multiprocessing - (i + 1)) + multiprocessing + 2) +
        after.longTerm.workLeft <
        s.owed multiprocessing + ((multiprocessing - i) + multiprocessing + 2) + _
      rw [hlong]
      omega
    · obtain rfl := Option.some.inj hstep
      refine ⟨?_, h.unfinished⟩
      unfold workLeft
      rw [hpoint]
      show s.owed multiprocessing + ((multiprocessing - 0) + 1) + s.longTerm.workLeft <
        s.owed multiprocessing + ((multiprocessing - i) + multiprocessing + 2) + _
      omega
  · next i hpoint =>
    split_ifs at hstep with hi
    · obtain ⟨after, hbody, rfl⟩ := Option.map_eq_some_iff.mp hstep
      have hpays := pays_clearEntry h hi hbody
      have hlong : after.longTerm = s.longTerm := by
        obtain ⟨-, rfl⟩ | ⟨pointer, pcb, -, -, ⟨-, rfl⟩ | ⟨-, rfl⟩⟩ := clearEntry_cases hi hbody
        all_goals rfl
      refine ⟨?_, hpays.unfinished⟩
      have howed := hpays.owed
      unfold workLeft
      rw [hpoint]
      show after.owed multiprocessing + ((multiprocessing - (i + 1)) + 1) +
        after.longTerm.workLeft <
        s.owed multiprocessing + ((multiprocessing - i) + 1) + _
      rw [hlong]
      omega
    · obtain rfl := Option.some.inj hstep
      refine ⟨?_, h.unfinished⟩
      unfold workLeft
      rw [hpoint]
      show s.owed multiprocessing + 0 + s.longTerm.workLeft <
        s.owed multiprocessing + ((multiprocessing - i) + 1) + _
      omega

/-- The threads of the slots leave the schedulers where they are. -/
theorem points_startStatement (hbody : s.startStatement i = some s') :
    s'.shortTerm = s.shortTerm ∧ s'.longTerm = s.longTerm := by
  unfold startStatement at hbody
  split_ifs at hbody
  obtain ⟨_, -, hrest⟩ := Option.bind_eq_some_iff.mp hbody
  obtain ⟨_, -, hrest⟩ := Option.bind_eq_some_iff.mp hrest
  obtain ⟨_, -, hafter⟩ := Option.bind_eq_some_iff.mp hrest
  obtain rfl := Option.some.inj hafter
  exact ⟨rfl, rfl⟩

theorem points_endStatement {errors : Bool} (hbody : s.endStatement i errors = some s') :
    s'.shortTerm = s.shortTerm ∧ s'.longTerm = s.longTerm := by
  unfold endStatement at hbody
  split at hbody
  · obtain ⟨posted, hpost, rfl⟩ := Option.map_eq_some_iff.mp hbody
    obtain ⟨pcb, -, hposted⟩ := Option.bind_eq_some_iff.mp hpost
    obtain rfl := Option.some.inj hposted
    exact ⟨rfl, rfl⟩
  · cases hbody

theorem points_postStatement (hbody : s.postStatement i = some s') :
    s'.shortTerm = s.shortTerm ∧ s'.longTerm = s.longTerm := by
  unfold postStatement at hbody
  split_ifs at hbody
  obtain ⟨pointer, pcb, -, -, ⟨-, rfl⟩ | rfl | rfl⟩ := planifierExecute_cases hbody
  all_goals exact ⟨rfl, rfl⟩

theorem Pays.workLeft (h : s.Pays multiprocessing 1 s')
    (hpoints : s'.shortTerm = s.shortTerm ∧ s'.longTerm = s.longTerm) :
    s'.workLeft multiprocessing < s.workLeft multiprocessing := by
  have howed := h.owed
  unfold Scheduler.workLeft
  rw [hpoints.1, hpoints.2]
  omega

/-- What an arrival adds. -/
theorem workLeft_arrive (hs : s.Conserved multiprocessing)
    (hs' : (s.addProcess pointer pcb).Conserved multiprocessing) (hfree : s.pcb pointer = none)
    (hstate : pcb.state = .new) :
    (s.addProcess pointer pcb).workLeft multiprocessing = s.workLeft multiprocessing +
      pcb.remaining * statementWork multiprocessing + 2 * turnWork multiprocessing + 3 := by
  have habout : About pointer s (s.addProcess pointer pcb) :=
    .of_pcb (fun other hne => setPcb_of_ne hne) rfl
  have hpcb' : (s.addProcess pointer pcb).pcb pointer = some pcb := Function.update_self ..
  have hqueued : pcb.stage (s.addProcess pointer pcb).planifier = .queued := by
    rw [Pcb.stage, hstate]
  have htotal := habout.total hs hs'
  rw [processWork_of_none hfree, processWork_of_stage hpcb' hqueued,
    Pcb.stageWork_held (by simp [hstate])] at htotal
  unfold workLeft owed
  show _ + turnWork multiprocessing * s.stsSemaphore + 2 * (s.ltsSemaphore + 1) +
    s.shortTerm.workLeft multiprocessing + s.longTerm.workLeft = _
  omega

/-- A step of a thread. -/
theorem workLeft_works {action : SchedulerAction} (h : s.Tended multiprocessing)
    (hstep : s.step action = some s') (hworks : action.Works) :
    s'.workLeft multiprocessing < s.workLeft multiprocessing ∧ s'.Unfinished := by
  cases action with
  | arrive => exact hworks.elim
  | configure => exact hworks.elim
  | longTerm => exact workLeft_longTermStep h hstep
  | shortTerm => exact workLeft_shortTermStep h hstep
  | startStatement i =>
    have hpays := pays_startStatement h hstep
    exact ⟨hpays.workLeft (points_startStatement hstep), hpays.unfinished⟩
  | endStatement i errors =>
    have hpays := pays_endStatement h errors hstep
    exact ⟨hpays.workLeft (points_endStatement hstep), hpays.unfinished⟩
  | postStatement i =>
    have hpays := pays_postStatement h hstep
    exact ⟨hpays.workLeft (points_postStatement hstep), hpays.unfinished⟩

/-- Anything else that happens. -/
theorem workLeft_brings {action : SchedulerAction} (h : s.Tended multiprocessing)
    (hstep : s.step action = some s') (hstatements : action.HasStatements)
    (hnot : ¬ action.Works) :
    s'.workLeft multiprocessing ≤ s.workLeft multiprocessing + action.brings multiprocessing ∧
      s'.Unfinished := by
  cases action with
  | arrive pointer statements quantum processor =>
    have hwakeful := h.wakeful.step hstep
    replace hstep : (if s.pcb pointer = none then some
      (s.addProcess pointer (getNewPcb statements quantum processor)) else none) = some s' :=
      hstep
    split_ifs at hstep with hfree
    obtain rfl := Option.some.inj hstep
    have habout : About pointer s (s.addProcess pointer (getNewPcb statements quantum processor)) :=
      .of_pcb (fun other hne => setPcb_of_ne hne) rfl
    have hpcb : (s.addProcess pointer (getNewPcb statements quantum processor)).pcb pointer =
        some (getNewPcb statements quantum processor) := Function.update_self ..
    refine ⟨?_, habout.unfinished h.unfinished fun pcb hpcb' => .inr (.inr ?_)⟩
    · rw [workLeft_arrive h.wakeful.conserved hwakeful.conserved hfree rfl]
      show _ + statements.length * statementWork multiprocessing + _ + _ ≤
        _ + (statements.length * statementWork multiprocessing + _ + _)
      omega
    · obtain rfl := Option.some.inj (hpcb.symm.trans hpcb')
      exact List.length_pos_iff.mpr hstatements
  | configure quantum =>
    obtain rfl := Option.some.inj hstep
    exact ⟨le_rfl, h.unfinished⟩
  | _ => exact absurd trivial hnot

/-- **The work of the scheduler.** -/
theorem workload (multiprocessing : Nat) :
    Workload step (fun _ action _ => action.HasStatements) (Tended multiprocessing)
      SchedulerAction.Works (SchedulerAction.brings multiprocessing)
      (workLeft multiprocessing) := by
  refine ⟨fun s action s' h hstep hstatements => ⟨h.wakeful.step hstep, ?_⟩,
    fun s action s' h hstep _ hworks => (workLeft_works h hstep hworks).1,
    fun s action s' h hstep hstatements hnot => (workLeft_brings h hstep hstatements hnot).1⟩
  by_cases hworks : action.Works
  · exact (workLeft_works h hstep hworks).2
  · exact (workLeft_brings h hstep hstatements hworks).2

theorem tended_setup (multiprocessing : Nat) (quantum : Int) :
    (setupScheduler multiprocessing quantum).Tended multiprocessing := by
  refine ⟨wakeful_setup multiprocessing quantum, fun pointer pcb hpcb => ?_⟩
  cases hpcb

/-! ## Nobody waits for ever -/

theorem Conserved.pcb_of_mem (h : s.Conserved multiprocessing) {state : PcbState}
    (hmem : pointer ∈ s.queue state) : ∃ pcb, s.pcb pointer = some pcb ∧ pcb.state = state :=
  Option.map_eq_some_iff.mp (((h.filing state).mem pointer).mp hmem)

theorem longTermSchedule_isSome (hs : s.Conserved multiprocessing) :
    ∃ s', s.longTermSchedule = some s' := by
  unfold longTermSchedule
  cases hnew : s.new with
  | cons pointer rest =>
    have hmem : pointer ∈ s.queue .new := by simp [queue, hnew]
    obtain ⟨pcb, hpcb, -⟩ := hs.pcb_of_mem hmem
    simp [hpcb]
  | nil =>
    cases hexit : s.exit with
    | cons pointer rest =>
      have hmem : pointer ∈ s.queue .exit := by simp [queue, hexit]
      obtain ⟨pcb, hpcb, -⟩ := hs.pcb_of_mem hmem
      simp [hpcb]
    | nil => simp

theorem scheduleSlot_isSome (hs : s.Conserved multiprocessing) (i : Nat) :
    ∃ s', s.scheduleSlot i = some s' := by
  unfold scheduleSlot
  cases hslot : s.exec[i]?.join with
  | none =>
    cases hready : s.ready with
    | nil => simp
    | cons pointer rest =>
      have hmem : pointer ∈ s.queue .ready := by simp [queue, hready]
      obtain ⟨pcb, hpcb, -⟩ := hs.pcb_of_mem hmem
      cases hflag : pcb.recentlyReady <;> simp [hpcb, hflag]
  | some pointer =>
    obtain ⟨pcb, hpcb, -⟩ := hs.pcb_of_slot (Option.join_eq_some_iff.mp hslot)
    cases hflag : pcb.recentlyExec <;> simp [hpcb, hflag]

theorem clearEntry_isSome (h : s.Flagged multiprocessing s.shortTerm) (i : Nat) :
    ∃ s', s.clearEntry i = some s' := by
  unfold clearEntry
  cases hentry : s.pcbsToReady[i]?.join with
  | none => simp
  | some pointer =>
    -- entries have processes with a flag
    have hmem : pointer ∈ s.pcbsToReady.reduceOption := List.reduceOption_mem_iff.mpr
      (List.mem_of_getElem? (Option.join_eq_some_iff.mp hentry))
    obtain ⟨pcb, hpcb, hflag⟩ := Option.map_eq_some_iff.mp ((h.filed.mem pointer).mp hmem)
    simp [hpcb, hflag]

/-- A scheduler that cannot take a step waits at zero. -/
theorem Tended.waiting (h : s.Tended multiprocessing) (hlong : s.longTermStep = none)
    (hshort : s.shortTermStep = none) :
    (s.longTerm = .waiting ∧ s.ltsSemaphore = 0) ∧ s.shortTerm = .waiting ∧
      s.stsSemaphore = 0 := by
  obtain ⟨hs, -, hflagged, -⟩ := h.wakeful
  constructor
  · unfold longTermStep at hlong
    cases hpoint : s.longTerm with
    | waiting =>
      rw [hpoint] at hlong
      simpa using hlong
    | body =>
      obtain ⟨after, hbody⟩ := longTermSchedule_isSome hs
      simp [hpoint, hbody] at hlong
  · unfold shortTermStep at hshort
    cases hpoint : s.shortTerm with
    | waiting =>
      rw [hpoint] at hshort
      simpa using hshort
    | slots i =>
      obtain ⟨after, hbody⟩ := scheduleSlot_isSome hs i
      by_cases hi : i < s.exec.length <;> simp [hpoint, hbody, hi] at hshort
    | entries i =>
      obtain ⟨after, hbody⟩ := clearEntry_isSome hflagged i
      by_cases hi : i < s.pcbsToReady.length <;> simp [hpoint, hbody, hi] at hshort

/-- The thread of a slot with a process that was started can take a step. -/
theorem Tended.busy (h : s.Tended multiprocessing) (hslot : s.exec[i]? = some (some pointer))
    (hpcb : s.pcb pointer = some pcb) (hstarted : pcb.recentlyExec = false) :
    ∃ action s', action.Works ∧ s.step action = some s' := by
  obtain ⟨-, hstage, ⟨hpoint, hinit, -⟩ | ⟨hpoint, -, -⟩ | ⟨hpoint, -, hsemaphore⟩⟩ :=
    h.wakeful.threads.stage_of_started h.wakeful.conserved hslot hpcb hstarted
  · -- its first semaphore was posted, and there is a statement
    replace hpoint : s.planifier i = .waitingInit := hpoint
    replace hinit : s.execSemaphoresInit i = 1 := hinit
    have hleft := h.unfinished.left hpcb hstage (by rw [hpoint]; decide)
    have hposted : s.planifier i = .waitingInit ∧ s.execSemaphoresInit i ≠ 0 :=
      ⟨hpoint, by omega⟩
    refine ⟨.startStatement i, ?_⟩
    show ∃ s', True ∧ s.startStatement i = some s'
    unfold startStatement execNextStatement
    rw [if_pos hposted]
    simp [hslot, hpcb, hleft]
  · -- the statement comes to its end
    replace hpoint : s.planifier i = .executing pointer := hpoint
    refine ⟨.endStatement i false, ?_⟩
    show ∃ s', True ∧ s.endStatement i false = some s'
    unfold endStatement postExecStatement
    simp [hpoint, hpcb]
  · -- its second semaphore was posted
    replace hpoint : s.planifier i = .waitingExec := hpoint
    replace hsemaphore : s.execSemaphores i = 1 := hsemaphore
    have hposted : s.planifier i = .waitingExec ∧ s.execSemaphores i ≠ 0 := ⟨hpoint, by omega⟩
    refine ⟨.postStatement i, ?_⟩
    show ∃ s', True ∧ s.postStatement i = some s'
    unfold postStatement planifierExecute
    rw [if_pos hposted]
    show ∃ s', True ∧ ((s.exec[i]?.join).bind fun pointer => (s.pcb pointer).bind fun pcb => _) = _
    rw [hslot, Option.join_some, Option.bind_some, hpcb, Option.bind_some]
    split_ifs <;> exact ⟨_, trivial, rfl⟩

/-- **Nobody waits for ever.**  When no thread can take a step, there is no process left. -/
theorem Tended.idle (h : s.Tended multiprocessing) (hslots : 1 ≤ multiprocessing)
    (hidle : ∀ action, action.Works → s.step action = none) (pointer : PcbPointer) :
    s.pcb pointer = none := by
  obtain ⟨hs, -, hflagged, hwoken⟩ := h.wakeful
  obtain ⟨⟨hlong, hlts⟩, hshort, hsts⟩ :=
    h.waiting (hidle .longTerm trivial) (hidle .shortTerm trivial)
  rw [hlong, hlts, if_neg (by decide)] at hwoken
  rw [hshort] at hflagged
  have hsettled := hflagged.settled hsts
  -- no process in a slot has a thread that cannot take a step
  have hempty : ∀ (i : Nat) other, s.exec[i]? ≠ some (some other) := by
    intro i other hslot
    obtain ⟨pcb, hpcb, -⟩ := hs.pcb_of_slot hslot
    have hstarted := ((hsettled i).1 trivial).started _ (process_of_slot hslot hpcb)
    obtain ⟨action, s', hworks, hstep⟩ := h.busy hslot hpcb hstarted
    cases (hidle action hworks).symm.trans hstep
  cases hpcb : s.pcb pointer with
  | none => rfl
  | some pcb =>
    have hmem : pointer ∈ s.queue pcb.state :=
      ((hs.filing pcb.state).mem pointer).mpr (states_of_pcb hpcb)
    exfalso
    cases hstate : pcb.state with
    | new =>
      rw [hstate] at hmem
      have hlength := List.length_pos_of_mem hmem
      simp only [queue] at hlength
      omega
    | exit =>
      rw [hstate] at hmem
      have hlength := List.length_pos_of_mem hmem
      simp only [queue] at hlength
      omega
    | exec =>
      rw [hstate] at hmem
      obtain ⟨i, hslot⟩ := List.getElem?_of_mem (List.reduceOption_mem_iff.mp hmem)
      exact hempty i pointer hslot
    | ready =>
      -- the first slot is empty, so the first of `ready` is held back by its flag
      rw [hstate] at hmem
      have hfirst : s.exec[0]? = some none := by
        have hlt : 0 < s.exec.length := hs.slots.symm ▸ hslots
        cases hslot : s.exec[0] with
        | none => rw [List.getElem?_eq_getElem hlt, hslot]
        | some other => exact absurd (hslot ▸ List.getElem?_eq_getElem hlt) (hempty 0 other)
      obtain ⟨first, rest, hready⟩ := List.exists_cons_of_ne_nil (List.ne_nil_of_mem hmem)
      have hflag := ((hsettled 0).1 trivial).filled hfirst first rest hready
      -- but then it has an entry, and there is none
      have hentry := List.reduceOption_mem_iff.mp ((hflagged.filed.mem first).mpr hflag)
      obtain ⟨j, hj⟩ := List.getElem?_of_mem hentry
      exact (hsettled j).2 trivial first hj

end Scheduler

/-- **Every process comes to its end.**  In every run, and whatever the order of the steps, the
threads of the kernel take no more steps than the processes that have come may need, which is
linear in their statements.  When none of the threads can take a step no process is left; and from
everywhere their steps alone lead to where none is left. -/
theorem processes_complete {multiprocessing : Nat} {quantum : Int} (hslots : 1 ≤ multiprocessing)
    {actions : List SchedulerAction} {s : Scheduler}
    (hruns : runSteps Scheduler.step (fun _ action _ => action.HasStatements)
      (setupScheduler multiprocessing quantum) actions = some s) :
    actions.countP (fun action => action.Works) ≤
        ((actions.filter fun action => ¬ action.Works).map
          (SchedulerAction.brings multiprocessing)).sum ∧
      ((∀ action, action.Works → s.step action = none) → ∀ pointer, s.pcb pointer = none) ∧
      ∃ more s', (∀ action ∈ more, action.Works) ∧
        runSteps Scheduler.step (fun _ action _ => action.HasStatements) s more = some s' ∧
        ∀ pointer, s'.pcb pointer = none := by
  have hworkload := Scheduler.workload multiprocessing
  obtain ⟨htended, hbound⟩ :=
    hworkload.work_le (Scheduler.tended_setup multiprocessing quantum) hruns
  have hzero : (setupScheduler multiprocessing quantum).workLeft multiprocessing = 0 := by
    unfold Scheduler.workLeft Scheduler.owed Scheduler.processes
    simp [setupScheduler, ShortTermPoint.workLeft, LongTermPoint.workLeft]
  refine ⟨by omega, htended.idle hslots, hworkload.completes (fun s h hleft => ?_) htended⟩
  by_contra hstuck
  refine hleft (h.idle hslots fun action hworks => ?_)
  cases hstep : s.step action with
  | none => rfl
  | some s' =>
    refine absurd ⟨action, s', hworks, ?_, hstep⟩ hstuck
    cases action with
    | arrive => exact hworks.elim
    | _ => trivial

/-- Two `JOURNAL`s and one, after the first step of the long term scheduler. -/
theorem processes_complete_journals :
    ∃ s, runSteps Scheduler.step (fun _ action _ => action.HasStatements) (setupScheduler 1 1)
        [.arrive 7 [generateStatement .journal, generateStatement .journal] 0 0,
          .arrive 8 [generateStatement .journal] 0 0, .longTerm] = some s ∧
      s.new = [7, 8] ∧ ∃ more s', (∀ action ∈ more, action.Works) ∧
        runSteps Scheduler.step (fun _ action _ => action.HasStatements) s more = some s' ∧
        ∀ pointer, s'.pcb pointer = none := by
  have hruns : ∃ s, runSteps Scheduler.step (fun _ action _ => action.HasStatements)
      (setupScheduler 1 1)
      [.arrive 7 [generateStatement .journal, generateStatement .journal] 0 0,
        .arrive 8 [generateStatement .journal] 0 0, .longTerm] = some s ∧ s.new = [7, 8] :=
    ⟨_, rfl, rfl⟩
  obtain ⟨s, hs, hnew⟩ := hruns
  exact ⟨s, hs, hnew, (processes_complete le_rfl hs).2.2⟩

end Lissandra
