import Lissandra.SchedulerWakeups

/-! # The statements of a process, in turns

What was executed of a process is observed next to the scheduler: a statement when a thread of a
slot starts it, whether it failed when it comes to its end, and a departure when a process leaves
its slot (`Life`).  Nothing of it is read by the scheduler.

The quantum of the process counts the statements of its stay: it is zero when the process comes
to a slot, and is raised when a statement is to be started, by the short term scheduler for the
first one and by the thread of the slot for the others.  The program counter is at the statement
that is next, or at the end after one that failed (`Follows`).
-/
namespace Lissandra

/-! ## What is observed -/

/-- A statement that was started, and whether it failed, once it has come to its end. -/
structure Executed where
  statement : Statement
  failed : Option Bool

/-- A process has left its slot, after so many statements of its stay, when so many were left of
its script at the start of the stay. -/
structure Departure where
  executed : Nat
  remaining : Nat
  failed : Bool

/-- What was executed of a process, how much of it in the present stay, and its departures. -/
structure Life where
  executed : List Executed
  stay : Nat
  departures : List Departure

/-- A process that has just come. -/
def Life.start : Life := ⟨[], 0, []⟩

/-- The process comes to a slot. -/
def Life.enter (life : Life) : Life := { life with stay := 0 }

/-- A statement is started. -/
def Life.run (life : Life) (statement : Statement) : Life :=
  { life with executed := life.executed ++ [⟨statement, none⟩], stay := life.stay + 1 }

/-- The statement that was started last comes to its end. -/
def Life.answer (life : Life) (failed : Bool) : Life :=
  { life with
    executed := life.executed.dropLast ++
      (life.executed.getLast?.map fun executed => { executed with failed := some failed }).toList }

/-- The process leaves its slot. -/
def Life.leave (life : Life) (statements : Nat) : Life :=
  { life with
    departures := life.departures ++
      [⟨life.stay, statements - (life.executed.length - life.stay),
        life.executed.any fun executed => executed.failed = some true⟩] }

/-- The scheduler, with the lives of its processes. -/
structure WatchedScheduler where
  scheduler : Scheduler
  life : PcbPointer → Life

namespace WatchedScheduler
variable (w : WatchedScheduler)

/-- The life of a process is written to. -/
def record (pointer : PcbPointer) (life : Life) : PcbPointer → Life :=
  Function.update w.life pointer life

/-- The process in a slot. -/
def slot (s : Scheduler) (i : Nat) : Option PcbPointer := s.exec[i]?.join

/-- A process may have come to a slot. -/
def enters (s' : Scheduler) (i : Nat) : PcbPointer → Life :=
  match slot w.scheduler i, slot s' i with
  | none, some pointer => w.record pointer (w.life pointer).enter
  | _, _ => w.life

/-- A statement of the process in a slot is started. -/
def starts (i : Nat) : PcbPointer → Life :=
  match slot w.scheduler i with
  | some pointer =>
    match (w.scheduler.pcb pointer).bind fun pcb => pcb.statements[pcb.programCounter]? with
    | some statement => w.record pointer ((w.life pointer).run statement)
    | none => w.life
  | none => w.life

/-- A process may have left a slot. -/
def leaves (s' : Scheduler) (i : Nat) : PcbPointer → Life :=
  match slot w.scheduler i, slot s' i with
  | some pointer, none =>
    match w.scheduler.pcb pointer with
    | some pcb => w.record pointer ((w.life pointer).leave pcb.statements.length)
    | none => w.life
  | _, _ => w.life

/-- What a step of the scheduler to `s'` shows. -/
def observe (s' : Scheduler) : SchedulerAction → PcbPointer → Life
  | .arrive pointer _ _ _ => w.record pointer .start
  | .shortTerm =>
    match w.scheduler.shortTerm with
    | .slots i => w.enters s' i
    | _ => w.life
  | .startStatement i => w.starts i
  | .endStatement i errors =>
    match w.scheduler.planifier i with
    | .executing pointer => w.record pointer ((w.life pointer).answer errors)
    | _ => w.life
  | .postStatement i => w.leaves s' i
  | .longTerm => w.life
  | .configure _ => w.life

/-- A step of the scheduler, and what it shows. -/
def step (action : SchedulerAction) : Option WatchedScheduler :=
  (w.scheduler.step action).map fun s' => ⟨s', w.observe s' action⟩

end WatchedScheduler

/-- The configuration is not read anew. -/
def SchedulerAction.KeepsQuantum : SchedulerAction → Prop
  | .configure _ => False
  | _ => True

instance : (action : SchedulerAction) → Decidable action.KeepsQuantum
  | .configure _ => .isFalse id
  | .arrive .. | .longTerm | .shortTerm | .startStatement _ | .endStatement .. | .postStatement _ =>
    .isTrue trivial

/-! ## Where a process is in its script -/

/-- The first statements of a script, executed without a failure. -/
def ran (statements : List Statement) (k : Nat) : List Executed :=
  (statements.take k).map fun statement => ⟨statement, some false⟩

/-- Where a process is, between its arrival and its end. -/
inductive Stage where
  | queued
  | placed
  | started
  | executing
  | answered
  | ended
  deriving DecidableEq

/-- The stage of a process in a slot, by the point of its thread. -/
def ExecPoint.stage : ExecPoint → Stage
  | .waitingInit => .started
  | .executing _ => .executing
  | .waitingExec => .answered

/-- The stage of a process. -/
def Pcb.stage (pcb : Pcb) (planifier : Nat → ExecPoint) : Stage :=
  match pcb.state with
  | .new | .ready => .queued
  | .exit => .ended
  | .exec =>
    if pcb.recentlyExec then .placed else (planifier pcb.processor).stage

/-- All statements before the program counter were executed, and no other one. -/
structure AtStatement (pcb : Pcb) (life : Life) : Prop where
  errors : pcb.errors = false
  executed : life.executed = ran pcb.statements pcb.programCounter
  programCounter : pcb.programCounter ≤ pcb.statements.length

/-- A statement failed, and nothing comes after it. -/
structure HasFailed (pcb : Pcb) (life : Life) : Prop where
  errors : pcb.errors = true
  executed : ∃ k statement, pcb.statements[k]? = some statement ∧
    life.executed = ran pcb.statements k ++ [⟨statement, some true⟩]
  programCounter : pcb.programCounter = pcb.statements.length

/-- A statement is being executed. -/
structure Executing (pcb : Pcb) (life : Life) : Prop where
  errors : pcb.errors = false
  executed : ∃ statement, pcb.statements[pcb.programCounter]? = some statement ∧
    life.executed = ran pcb.statements pcb.programCounter ++ [⟨statement, none⟩]

/-- What the life of a process is at a stage, for a quantum. -/
def Follows (quantum : Nat) (pcb : Pcb) (life : Life) : Stage → Prop
  | .queued => AtStatement pcb life
  | .placed => AtStatement pcb life ∧ pcb.quantum = 0 ∧ life.stay = 0
  | .started => AtStatement pcb life ∧ pcb.quantum = life.stay + 1 ∧ life.stay < quantum ∧
    life.stay ≤ pcb.programCounter
  | .executing => Executing pcb life ∧ pcb.quantum = life.stay ∧ life.stay ≤ quantum ∧
    life.stay ≤ pcb.programCounter + 1
  | .answered => (AtStatement pcb life ∨ HasFailed pcb life) ∧ pcb.quantum = life.stay ∧
    life.stay ≤ quantum ∧ life.stay ≤ life.executed.length
  | .ended => AtStatement pcb life ∧ pcb.programCounter = pcb.statements.length ∨
    HasFailed pcb life

/-- A departure after as many statements as the quantum allows or as there were left, unless one
of them failed. -/
def Departure.Fair (quantum : Nat) (departure : Departure) : Prop :=
  departure.executed = min quantum departure.remaining ∨
    departure.failed = true ∧ departure.executed < min quantum departure.remaining

/-- What holds of the life of a process in every state. -/
structure Lives (quantum : Nat) (pcb : Pcb) (life : Life) (stage : Stage) : Prop where
  follows : Follows quantum pcb life stage
  departures : ∀ departure ∈ life.departures, departure.Fair quantum

/-! ## From stage to stage -/

section Stages
variable {quantum : Nat} {pcb : Pcb} {life : Life}

@[simp] theorem length_ran (statements : List Statement) (k : Nat) :
    (ran statements k).length = min k statements.length := by
  simp [ran]

theorem ran_succ {statements : List Statement} {k : Nat} {statement : Statement}
    (h : statements[k]? = some statement) :
    ran statements (k + 1) = ran statements k ++ [⟨statement, some false⟩] := by
  simp [ran, List.take_add_one, h]

theorem ran_failed (statements : List Statement) (k : Nat) :
    ∀ executed ∈ ran statements k, executed.failed = some false := by
  intro executed hmem
  obtain ⟨statement, -, rfl⟩ := List.mem_map.mp hmem
  rfl

/-- A new process. -/
theorem lives_start (statements : List Statement) (old : Int) (processor : Nat) :
    Lives quantum (getNewPcb statements old processor) .start .queued := by
  refine ⟨⟨rfl, ?_, Nat.zero_le _⟩, fun departure hmem => ?_⟩
  · simp [Life.start, getNewPcb, ran]
  · simp [Life.start] at hmem

/-- The process comes to a slot. -/
theorem Lives.enter (h : Lives quantum pcb life .queued) :
    Lives quantum { pcb with state := .exec, quantum := 0, recentlyExec := true } life.enter
      .placed := by
  obtain ⟨hat, hdepartures⟩ := h
  exact ⟨⟨⟨hat.errors, hat.executed, hat.programCounter⟩, rfl, rfl⟩, hdepartures⟩

/-- The short term scheduler starts its first statement. -/
theorem Lives.first (h : Lives quantum pcb life .placed) (hquantum : 1 ≤ quantum) (i : Nat) :
    Lives quantum { pcb with processor := i, quantum := pcb.quantum + 1, recentlyExec := false }
      life .started := by
  obtain ⟨⟨hat, hzero, hstay⟩, hdepartures⟩ := h
  refine ⟨⟨⟨hat.errors, hat.executed, hat.programCounter⟩, ?_, ?_, ?_⟩, hdepartures⟩
  · show pcb.quantum + 1 = life.stay + 1
    rw [hzero, hstay]
    rfl
  · omega
  · omega

/-- The thread of the slot executes a statement. -/
theorem Lives.run (h : Lives quantum pcb life .started) {statement : Statement}
    (hstatement : pcb.statements[pcb.programCounter]? = some statement) :
    Lives quantum pcb (life.run statement) .executing := by
  obtain ⟨⟨hat, hcount, hstay, hle⟩, hdepartures⟩ := h
  refine ⟨⟨⟨hat.errors, statement, hstatement, ?_⟩, ?_, ?_, ?_⟩, hdepartures⟩
  · show life.executed ++ _ = _
    rw [hat.executed]
  · show pcb.quantum = ((life.stay + 1 : Nat) : Int)
    rw [hcount, Nat.cast_add_one]
  · exact hstay
  · exact Nat.succ_le_succ hle

/-- The statement comes to its end. -/
theorem Lives.answer (h : Lives quantum pcb life .executing) (errors : Bool) :
    Lives quantum (Scheduler.afterStatement pcb errors) (life.answer errors) .answered := by
  obtain ⟨⟨hexecuting, hcount, hstay, hle⟩, hdepartures⟩ := h
  obtain ⟨statement, hstatement, hexecuted⟩ := hexecuting.executed
  have hanswer : (life.answer errors).executed
      = ran pcb.statements pcb.programCounter ++ [⟨statement, some errors⟩] := by
    simp [Life.answer, hexecuted]
  have hlt : pcb.programCounter < pcb.statements.length :=
    (List.getElem?_eq_some_iff.mp hstatement).1
  have hlength : life.stay ≤ (life.answer errors).executed.length := by
    rw [hanswer, List.length_append, length_ran, List.length_singleton]
    omega
  cases errors with
  | true =>
    have hafter : Scheduler.afterStatement pcb true
        = { pcb with errors := true, programCounter := pcb.statements.length } := by
      simp [Scheduler.afterStatement]
    rw [hafter]
    refine ⟨⟨.inr ⟨rfl, ?_, rfl⟩, hcount, hstay, hlength⟩, hdepartures⟩
    exact ⟨pcb.programCounter, statement, hstatement, hanswer⟩
  | false =>
    have hafter : Scheduler.afterStatement pcb false
        = { pcb with programCounter := pcb.programCounter + 1 } := by
      simp [Scheduler.afterStatement, hexecuting.errors]
    rw [hafter]
    refine ⟨⟨.inl ⟨hexecuting.errors, ?_, hlt⟩, hcount, hstay, hlength⟩, hdepartures⟩
    rw [hanswer]
    exact (ran_succ hstatement).symm

/-- How many statements were started, and whether one of them failed. -/
theorem executed_of_answered (h : AtStatement pcb life ∨ HasFailed pcb life) :
    life.executed.length ≤ pcb.statements.length ∧
      (HasFailed pcb life → life.executed.any fun executed => executed.failed = some true) ∧
      (AtStatement pcb life → life.executed.length = pcb.programCounter) := by
  have hat : AtStatement pcb life → life.executed.length = pcb.programCounter := by
    intro hat
    rw [hat.executed, length_ran, Nat.min_eq_left hat.programCounter]
  refine ⟨?_, fun hfailed => ?_, hat⟩
  · rcases h with h | h
    · rw [hat h]
      exact h.programCounter
    · obtain ⟨k, statement, hstatement, hexecuted⟩ := h.executed
      have hlt := (List.getElem?_eq_some_iff.mp hstatement).1
      rw [hexecuted, List.length_append, length_ran, List.length_singleton]
      omega
  · obtain ⟨k, statement, -, hexecuted⟩ := hfailed.executed
    simp [hexecuted]

/-- The departure of a process with no statement left, or whose quantum is used up. -/
theorem Lives.leave_fair (h : Lives quantum pcb life .answered)
    (hleaves : pcb.statements.length ≤ pcb.programCounter ∨ (quantum : Int) ≤ pcb.quantum) :
    ∀ departure ∈ (life.leave pcb.statements.length).departures, departure.Fair quantum := by
  obtain ⟨⟨hcases, hcount, hstay, hle⟩, hdepartures⟩ := h
  obtain ⟨hlength, hany, hat⟩ := executed_of_answered hcases
  intro departure hmem
  rcases List.mem_append.mp hmem with hold | hnew
  · exact hdepartures departure hold
  obtain rfl := List.mem_singleton.mp hnew
  have hremaining : life.stay ≤
      min quantum (pcb.statements.length - (life.executed.length - life.stay)) := by
    omega
  rcases hcases with hcase | hcase
  · -- no statement failed
    left
    have hexecuted := hat hcase
    have hprogramCounter := hcase.programCounter
    show life.stay = min quantum (pcb.statements.length - (life.executed.length - life.stay))
    rcases hleaves with hleaves | hleaves
    · omega
    · omega
  · rcases hremaining.lt_or_eq with hlt | heq
    · exact .inr ⟨hany hcase, hlt⟩
    · exact .inl heq

/-- The process leaves its slot for `exit`. -/
theorem Lives.finish (h : Lives quantum pcb life .answered)
    (hend : pcb.statements.length ≤ pcb.programCounter) :
    Lives quantum { pcb with state := .exit } (life.leave pcb.statements.length) .ended := by
  refine ⟨?_, h.leave_fair (.inl hend)⟩
  rcases h.follows.1 with hat | hfailed
  · refine .inl ⟨⟨hat.errors, hat.executed, hat.programCounter⟩, ?_⟩
    exact Nat.le_antisymm hat.programCounter hend
  · exact .inr ⟨hfailed.errors, hfailed.executed, hfailed.programCounter⟩

/-- A process that is not at its end has not failed. -/
theorem Lives.atStatement (h : Lives quantum pcb life .answered)
    (hnext : pcb.programCounter < pcb.statements.length) : AtStatement pcb life := by
  rcases h.follows.1 with hat | hfailed
  · exact hat
  · have := hfailed.programCounter
    omega

/-- The process leaves its slot for `ready`. -/
theorem Lives.expire (h : Lives quantum pcb life .answered)
    (hnext : pcb.programCounter < pcb.statements.length)
    (hused : (quantum : Int) ≤ pcb.quantum) :
    Lives quantum { pcb with state := .ready, recentlyReady := true }
      (life.leave pcb.statements.length) .queued := by
  have hat := h.atStatement hnext
  exact ⟨⟨hat.errors, hat.executed, hat.programCounter⟩, h.leave_fair (.inr hused)⟩

/-- The process stays in its slot. -/
theorem Lives.next (h : Lives quantum pcb life .answered)
    (hnext : pcb.programCounter < pcb.statements.length)
    (hunused : pcb.quantum < (quantum : Int)) (i : Nat) :
    Lives quantum { pcb with processor := i, quantum := pcb.quantum + 1 } life .started := by
  have hat := h.atStatement hnext
  have hexecuted := (executed_of_answered (.inl hat)).2.2 hat
  obtain ⟨⟨-, hcount, hstay, hle⟩, hdepartures⟩ := h
  refine ⟨⟨⟨hat.errors, hat.executed, hat.programCounter⟩, ?_, ?_, ?_⟩, hdepartures⟩
  · show pcb.quantum + 1 = _
    rw [hcount]
  · omega
  · show life.stay ≤ pcb.programCounter
    omega

end Stages

/-! ## Steps -/

namespace Scheduler
variable {s s' : Scheduler} {pointer other : PcbPointer} {pcb : Pcb} {i multiprocessing : Nat}

/-- What is next for a process, by its counters. -/
theorem planifierExecute_counters (h : s.planifierExecute i = some s') :
    ∃ pointer pcb, s.exec[i]? = some (some pointer) ∧ s.pcb pointer = some pcb ∧
      (pcb.statements.length ≤ pcb.programCounter ∧ s' = s.toExit i pointer pcb ∨
        pcb.programCounter < pcb.statements.length ∧ s.quantum ≤ pcb.quantum ∧
          s' = s.backToReady i pointer pcb ∨
        pcb.programCounter < pcb.statements.length ∧ pcb.quantum < s.quantum ∧
          s' = s.continueExec i pointer pcb) := by
  unfold planifierExecute at h
  obtain ⟨pointer, hslot, hrest⟩ := Option.bind_eq_some_iff.mp h
  obtain ⟨pcb, hpcb, hbody⟩ := Option.bind_eq_some_iff.mp hrest
  refine ⟨pointer, pcb, Option.join_eq_some_iff.mp hslot, hpcb, ?_⟩
  split_ifs at hbody with hend hused
  · exact .inl ⟨hend, (Option.some.inj hbody).symm⟩
  · exact .inr (.inl ⟨Nat.lt_of_not_le hend, hused, (Option.some.inj hbody).symm⟩)
  · exact .inr (.inr ⟨Nat.lt_of_not_le hend, Int.lt_of_not_ge hused,
      (Option.some.inj hbody).symm⟩)

/-- A process in a slot that was started there. -/
theorem stage_of_process (hpcb : s.pcb pointer = some pcb) (hstate : pcb.state = .exec)
    (hprocess : s.process i = some ⟨pointer, false, i⟩) (planifier : Nat → ExecPoint) :
    pcb.stage planifier = (planifier i).stage := by
  obtain ⟨-, pcb', hpcb', hrecently, hprocessor⟩ := slot_of_process hprocess
  obtain rfl := Option.some.inj (hpcb.symm.trans hpcb')
  unfold Pcb.stage
  rw [hstate, ← hrecently, ← hprocessor]
  rfl

/-- The point of a thread matters to the process of its slot only. -/
theorem stage_other (hs : s.Conserved multiprocessing) (hthreads : s.Threads)
    (hslot : s.exec[i]? = some (some pointer)) (hother : s.pcb other = some pcb)
    (hne : other ≠ pointer) (point : ExecPoint) :
    pcb.stage (Function.update s.planifier i point) = pcb.stage s.planifier := by
  unfold Pcb.stage
  cases hstate : pcb.state with
  | new => rfl
  | ready => rfl
  | exit => rfl
  | exec =>
    cases hrecently : pcb.recentlyExec with
    | true => rfl
    | false =>
      have hmem : other ∈ s.exec.reduceOption := by
        rw [show s.exec.reduceOption = s.queue .exec from rfl, (hs.filing .exec).mem other,
          states_of_pcb hother, hstate]
      obtain ⟨j, hj⟩ := List.mem_iff_getElem?.mp (List.reduceOption_mem_iff.mp hmem)
      have hprocess := process_of_slot hj hother
      have hprocessor : pcb.processor = j := by
        obtain ⟨-, hidle⟩ | ⟨started, hstarted, -⟩ := hthreads j
        · have hflag := hidle _ hprocess
          rw [hrecently] at hflag
          cases hflag
        · exact congrArg InSlot.processor (Option.some.inj (hprocess.symm.trans hstarted))
      have hij : j ≠ i := by
        rintro rfl
        exact hne (Option.some.inj (Option.some.inj (hj.symm.trans hslot)))
      show (Function.update s.planifier i point pcb.processor).stage = _
      rw [hprocessor, Function.update_of_ne hij]
      rfl

end Scheduler

/-- A flag of the scheduler says nothing about the script. -/
theorem Lives.flag {quantum : Nat} {pcb : Pcb} {life : Life} {stage : Stage}
    (h : Lives quantum pcb life stage) (recentlyReady : Bool) :
    Lives quantum { pcb with recentlyReady } life stage := by
  refine ⟨?_, h.departures⟩
  have hfollows := h.follows
  have hat : AtStatement pcb life → AtStatement { pcb with recentlyReady } life :=
    fun h => ⟨h.errors, h.executed, h.programCounter⟩
  have hfailed : HasFailed pcb life → HasFailed { pcb with recentlyReady } life :=
    fun h => ⟨h.errors, h.executed, h.programCounter⟩
  cases stage with
  | queued => exact hat hfollows
  | placed => exact ⟨hat hfollows.1, hfollows.2⟩
  | started => exact ⟨hat hfollows.1, hfollows.2⟩
  | executing => exact ⟨⟨hfollows.1.errors, hfollows.1.executed⟩, hfollows.2⟩
  | answered => exact ⟨hfollows.1.imp hat hfailed, hfollows.2⟩
  | ended => exact hfollows.imp (fun h => ⟨hat h.1, h.2⟩) hfailed

namespace WatchedScheduler
variable {w w' : WatchedScheduler} {s' : Scheduler} {pointer : PcbPointer} {pcb : Pcb}
  {i multiprocessing quantum : Nat} {action : SchedulerAction} {life : PcbPointer → Life}

/-- The lives of all processes are where their program counters and their quantums are. -/
structure OnScript (multiprocessing quantum : Nat) (w : WatchedScheduler) : Prop where
  conserved : w.scheduler.Conserved multiprocessing
  threads : w.scheduler.Threads
  configured : w.scheduler.quantum = quantum
  lives : ∀ pointer pcb, w.scheduler.pcb pointer = some pcb →
    Lives quantum pcb (w.life pointer) (pcb.stage w.scheduler.planifier)

@[simp] theorem record_self (one : Life) : w.record pointer one pointer = one :=
  Function.update_self ..

theorem record_of_ne {other : PcbPointer} (h : other ≠ pointer) (one : Life) :
    w.record pointer one other = w.life other :=
  Function.update_of_ne h _ _

theorem slot_of {s : Scheduler} {content : Option PcbPointer} (h : s.exec[i]? = some content) :
    slot s i = content := by
  rw [slot, h]
  rfl

/-- All lives, when a step is about one process only. -/
theorem OnScript.lives_of_one (h : w.OnScript multiprocessing quantum) (pointer : PcbPointer)
    (hpcb : ∀ other, other ≠ pointer → s'.pcb other = w.scheduler.pcb other)
    (hlife : ∀ other, other ≠ pointer → life other = w.life other)
    (hstage : ∀ other pcb, other ≠ pointer → w.scheduler.pcb other = some pcb →
      pcb.stage s'.planifier = pcb.stage w.scheduler.planifier)
    (hself : ∀ pcb, s'.pcb pointer = some pcb →
      Lives quantum pcb (life pointer) (pcb.stage s'.planifier)) :
    ∀ other pcb, s'.pcb other = some pcb →
      Lives quantum pcb (life other) (pcb.stage s'.planifier) := by
  intro other pcb hother
  by_cases heq : other = pointer
  · subst heq
    exact hself pcb hother
  · rw [hpcb other heq] at hother
    rw [hlife other heq, hstage other pcb heq hother]
    exact h.lives other pcb hother

/-- The same, when the process is written to. -/
theorem OnScript.lives_setPcb (h : w.OnScript multiprocessing quantum) (s' : Scheduler)
    (pointer : PcbPointer)
    (hpcb : s'.pcb = Function.update w.scheduler.pcb pointer (some pcb))
    (hlife : ∀ other, other ≠ pointer → life other = w.life other)
    (hstage : ∀ other pcb, other ≠ pointer → w.scheduler.pcb other = some pcb →
      pcb.stage s'.planifier = pcb.stage w.scheduler.planifier)
    (hself : Lives quantum pcb (life pointer) (pcb.stage s'.planifier)) :
    ∀ other pcb, s'.pcb other = some pcb →
      Lives quantum pcb (life other) (pcb.stage s'.planifier) := by
  refine h.lives_of_one pointer (fun other hne => ?_) hlife hstage fun written hwritten => ?_
  · rw [hpcb, Function.update_of_ne hne]
  · rw [hpcb, Function.update_self] at hwritten
    obtain rfl := Option.some.inj hwritten
    exact hself

theorem OnScript.lives_arrive (h : w.OnScript multiprocessing quantum)
    (statements : List Statement) (old : Int) (processor : Nat) :
    ∀ other pcb,
      (w.scheduler.addProcess pointer (getNewPcb statements old processor)).pcb other = some pcb →
      Lives quantum pcb (w.record pointer .start other) (pcb.stage w.scheduler.planifier) := by
  refine h.lives_setPcb (w.scheduler.addProcess pointer (getNewPcb statements old processor))
    pointer rfl
    (fun other hne => record_of_ne hne _) (fun _ _ _ _ => rfl) ?_
  rw [record_self]
  exact lives_start statements old processor

theorem OnScript.lives_longTerm (h : w.OnScript multiprocessing quantum)
    (hbody : w.scheduler.longTermSchedule = some s') :
    ∀ other pcb, s'.pcb other = some pcb →
      Lives quantum pcb (w.life other) (pcb.stage s'.planifier) := by
  obtain ⟨pointer, rest, pcb, hnew, hpcb, rfl⟩ | ⟨pointer, rest, pcb, -, -, -, rfl⟩ |
    ⟨-, -, rfl⟩ := Scheduler.longTermSchedule_cases hbody
  · -- from `new` to `ready`
    have hmem : pointer ∈ w.scheduler.new := by simp [hnew]
    have hstate : w.scheduler.states pointer = some .new :=
      ((h.conserved.filing .new).mem pointer).mp hmem
    rw [Scheduler.states_of_pcb hpcb] at hstate
    have hlives := h.lives pointer pcb hpcb
    rw [Pcb.stage, Option.some.inj hstate] at hlives
    refine h.lives_setPcb (w.scheduler.toReady pointer rest pcb) pointer rfl (fun _ _ => rfl)
      (fun _ _ _ _ => rfl) ?_
    have hat := hlives.follows
    exact ⟨⟨hat.errors, hat.executed, hat.programCounter⟩, hlives.departures⟩
  · intro other otherPcb hother
    by_cases heq : other = pointer
    · subst heq
      simp [Scheduler.deletePcb] at hother
    · exact h.lives other otherPcb (by simpa [Scheduler.deletePcb, heq] using hother)
  · exact h.lives

theorem OnScript.lives_slot (h : w.OnScript multiprocessing quantum) (hquantum : 1 ≤ quantum)
    (hi : i < w.scheduler.exec.length)
    (hbody : w.scheduler.scheduleSlot i = some s') :
    ∀ other pcb, s'.pcb other = some pcb →
      Lives quantum pcb (w.enters s' i other) (pcb.stage s'.planifier) := by
  unfold enters
  obtain ⟨hempty, -, rfl⟩ | ⟨pointer, rest, pcb, hempty, hready, hpcb, ⟨-, rfl⟩ | ⟨-, rfl⟩⟩ |
    ⟨pointer, pcb, hslot, hpcb, ⟨hrecently, rfl⟩ | ⟨-, rfl⟩⟩ :=
      Scheduler.scheduleSlot_cases hi hbody
  · rw [slot_of hempty]
    exact h.lives
  · rw [slot_of hempty]
    exact h.lives
  · -- the first of `ready` comes to the slot
    obtain ⟨-, hexec, -⟩ := Scheduler.process_toExec h.conserved hempty hready hpcb
    have hafter : slot (w.scheduler.toExec i pointer rest pcb) i = some pointer := by
      apply slot_of
      rw [hexec, List.getElem?_set_self hi]
    have hmem : pointer ∈ w.scheduler.ready := by simp [hready]
    have hstate : w.scheduler.states pointer = some .ready :=
      ((h.conserved.filing .ready).mem pointer).mp hmem
    rw [Scheduler.states_of_pcb hpcb] at hstate
    have hlives := h.lives pointer pcb hpcb
    rw [Pcb.stage, Option.some.inj hstate] at hlives
    rw [slot_of hempty, hafter]
    show ∀ other pcb, _ → Lives quantum pcb (w.record pointer (w.life pointer).enter other) _
    refine h.lives_setPcb (w.scheduler.toExec i pointer rest pcb) pointer rfl
      (fun other hne => record_of_ne hne _) (fun _ _ _ _ => rfl) ?_
    rw [record_self]
    exact hlives.enter
  · -- its first statement is started
    obtain ⟨pcb', hpcb', hstate⟩ := h.conserved.pcb_of_slot hslot
    obtain rfl := Option.some.inj (hpcb.symm.trans hpcb')
    have hlives := h.lives pointer pcb hpcb
    rw [Pcb.stage, hstate, hrecently] at hlives
    have hidle : w.scheduler.planifier i = .waitingInit := by
      obtain ⟨⟨hpoint, -⟩, -⟩ | ⟨started, hstarted, -⟩ := h.threads i
      · exact hpoint
      · have hview := Option.some.inj
          ((Scheduler.process_of_slot hslot hpcb).symm.trans hstarted)
        have hflag := congrArg InSlot.recentlyExec hview
        rw [hrecently] at hflag
        cases hflag
    rw [slot_of hslot]
    refine h.lives_setPcb (w.scheduler.startExec i pointer pcb) pointer rfl (fun _ _ => rfl)
      (fun _ _ _ _ => rfl) ?_
    have hstage : ({ pcb with
        processor := i, quantum := pcb.quantum + 1, recentlyExec := false } : Pcb).stage
          (w.scheduler.startExec i pointer pcb).planifier = .started := by
      show (match pcb.state with | .new | .ready => _ | .exit => _ | .exec => _) = _
      rw [hstate]
      show (w.scheduler.planifier i).stage = _
      rw [hidle]
      rfl
    rw [hstage]
    exact Lives.first hlives hquantum i
  · rw [slot_of hslot]
    exact h.lives

theorem OnScript.lives_entry (h : w.OnScript multiprocessing quantum)
    (hi : i < w.scheduler.pcbsToReady.length) (hbody : w.scheduler.clearEntry i = some s') :
    ∀ other pcb, s'.pcb other = some pcb →
      Lives quantum pcb (w.life other) (pcb.stage s'.planifier) := by
  obtain ⟨-, rfl⟩ | ⟨pointer, pcb, -, hpcb, ⟨-, rfl⟩ | ⟨-, rfl⟩⟩ :=
    Scheduler.clearEntry_cases hi hbody
  · exact h.lives
  · exact h.lives_setPcb (w.scheduler.clearFlag i pointer pcb) pointer rfl (fun _ _ => rfl)
      (fun _ _ _ _ => rfl) ((h.lives pointer pcb hpcb).flag false)
  · exact h.lives

/-- The process of a thread that is not idle. -/
theorem OnScript.in_slot (h : w.OnScript multiprocessing quantum)
    (hprocess : w.scheduler.process i = some ⟨pointer, false, i⟩) :
    w.scheduler.exec[i]? = some (some pointer) ∧ ∃ pcb, w.scheduler.pcb pointer = some pcb ∧
      pcb.state = .exec ∧ Lives quantum pcb (w.life pointer) (w.scheduler.planifier i).stage := by
  obtain ⟨hslot, -⟩ := Scheduler.slot_of_process hprocess
  obtain ⟨pcb, hpcb, hstate⟩ := h.conserved.pcb_of_slot hslot
  have hlives := h.lives pointer pcb hpcb
  rw [Scheduler.stage_of_process hpcb hstate hprocess] at hlives
  exact ⟨hslot, pcb, hpcb, hstate, hlives⟩

theorem OnScript.lives_startStatement (h : w.OnScript multiprocessing quantum)
    (hbody : w.scheduler.startStatement i = some s') :
    ∀ other pcb, s'.pcb other = some pcb →
      Lives quantum pcb (w.starts i other) (pcb.stage s'.planifier) := by
  unfold Scheduler.startStatement at hbody
  split_ifs at hbody with hpoint
  obtain ⟨pointer, hslot, hrest⟩ := Option.bind_eq_some_iff.mp hbody
  obtain ⟨pcb, hpcb, hrest⟩ := Option.bind_eq_some_iff.mp hrest
  obtain ⟨statement, hstatement, hs'⟩ := Option.bind_eq_some_iff.mp hrest
  replace hslot : w.scheduler.exec[i]? = some (some pointer) := Option.join_eq_some_iff.mp hslot
  replace hpcb : w.scheduler.pcb pointer = some pcb := hpcb
  obtain rfl := Option.some.inj hs'
  -- the semaphore was posted for the process of the slot
  have hprocess : w.scheduler.process i = some ⟨pointer, false, i⟩ := by
    obtain ⟨⟨-, hinit, -⟩, -⟩ | ⟨started, hstarted, -⟩ := h.threads i
    · exact absurd hinit hpoint.2
    · obtain ⟨hsame, -⟩ := Scheduler.slot_of_process hstarted
      obtain rfl := Option.some.inj (Option.some.inj (hslot.symm.trans hsame))
      exact hstarted
  obtain ⟨-, pcb', hpcb', hstate, hlives⟩ := h.in_slot hprocess
  obtain rfl := Option.some.inj (hpcb.symm.trans hpcb')
  rw [hpoint.1] at hlives
  have hstarts : w.starts i = w.record pointer ((w.life pointer).run statement) := by
    unfold starts
    rw [slot_of hslot]
    simp only [hpcb, Option.bind_some, hstatement]
  rw [hstarts]
  refine h.lives_of_one pointer (fun _ _ => rfl) (fun other hne => record_of_ne hne _)
    (fun other otherPcb hne hother =>
      Scheduler.stage_other h.conserved h.threads hslot hother hne _) fun same hsame => ?_
  obtain rfl := Option.some.inj (hpcb.symm.trans hsame)
  rw [record_self, Scheduler.stage_of_process hpcb hstate hprocess]
  show Lives quantum pcb _ (Function.update w.scheduler.planifier i (.executing pointer) i).stage
  rw [Function.update_self]
  exact hlives.run hstatement

theorem OnScript.lives_endStatement (h : w.OnScript multiprocessing quantum) (errors : Bool)
    (hbody : w.scheduler.endStatement i errors = some s') :
    ∀ other pcb, s'.pcb other = some pcb →
      Lives quantum pcb (w.observe s' (.endStatement i errors) other)
        (pcb.stage s'.planifier) := by
  unfold Scheduler.endStatement at hbody
  cases hpoint : w.scheduler.planifier i with
  | waitingInit => simp [hpoint] at hbody
  | waitingExec => simp [hpoint] at hbody
  | executing pointer =>
    rw [hpoint] at hbody
    obtain ⟨posted, hpost, rfl⟩ := Option.map_eq_some_iff.mp hbody
    obtain ⟨pcb, hpcb, hposted⟩ := Option.bind_eq_some_iff.mp hpost
    obtain rfl := Option.some.inj hposted
    obtain ⟨hprocess, -⟩ := h.threads.executing hpoint
    obtain ⟨hslot, pcb', hpcb', hstate, hlives⟩ := h.in_slot hprocess
    obtain rfl := Option.some.inj (hpcb.symm.trans hpcb')
    rw [hpoint] at hlives
    obtain ⟨-, same, hsame, hrecently, hprocessor⟩ := Scheduler.slot_of_process hprocess
    obtain rfl := Option.some.inj (hpcb.symm.trans hsame)
    have hobserve : ∀ s', w.observe s' (.endStatement i errors)
        = w.record pointer ((w.life pointer).answer errors) := by
      intro s'
      show (match w.scheduler.planifier i with | .executing pointer => _ | _ => _) = _
      rw [hpoint]
    rw [hobserve]
    refine h.lives_setPcb _ pointer rfl (fun other hne => record_of_ne hne _)
      (fun other otherPcb hne hother =>
        Scheduler.stage_other h.conserved h.threads hslot hother hne _) ?_
    have hstage : (Scheduler.afterStatement pcb errors).stage
        (Function.update w.scheduler.planifier i .waitingExec) = .answered := by
      have hfields : (Scheduler.afterStatement pcb errors).state = .exec ∧
          (Scheduler.afterStatement pcb errors).recentlyExec = false ∧
          (Scheduler.afterStatement pcb errors).processor = i := by
        unfold Scheduler.afterStatement
        split_ifs <;> exact ⟨hstate, hrecently.symm, hprocessor.symm⟩
      obtain ⟨hexec, hfalse, hi⟩ := hfields
      rw [Pcb.stage, hexec, hfalse, hi, Function.update_self]
      rfl
    rw [record_self]
    show Lives quantum _ _ ((Scheduler.afterStatement pcb errors).stage
      (Function.update w.scheduler.planifier i .waitingExec))
    rw [hstage]
    exact hlives.answer errors

theorem OnScript.lives_postStatement (h : w.OnScript multiprocessing quantum)
    (hbody : w.scheduler.postStatement i = some s') :
    ∀ other pcb, s'.pcb other = some pcb →
      Lives quantum pcb (w.leaves s' i other) (pcb.stage s'.planifier) := by
  unfold Scheduler.postStatement at hbody
  split_ifs at hbody with hpoint
  obtain ⟨⟨started, hstarted⟩, -⟩ := h.threads.waitingExec hpoint.1
  obtain ⟨hslot, pcb, hpcb, hstate, hlives⟩ := h.in_slot hstarted
  rw [hpoint.1] at hlives
  obtain ⟨pointer, pcb', hslot', hpcb', hcases⟩ := Scheduler.planifierExecute_counters hbody
  obtain rfl : started = pointer := Option.some.inj (Option.some.inj (hslot.symm.trans hslot'))
  obtain rfl : pcb = pcb' := Option.some.inj (hpcb.symm.trans hpcb')
  -- a process that leaves its slot is not in it afterwards
  have hemptied : ∀ s' : Scheduler, s'.exec = (w.scheduler.exec.eraseIdx i).insertIdx i none →
      w.leaves s' i = w.record started ((w.life started).leave pcb.statements.length) := by
    intro s' hexec
    have hempty : slot s' i = none := by
      apply slot_of
      rw [hexec, List.insertIdx_eraseIdx_self
        (Nat.ne_of_lt (Scheduler.length_of_getElem? hslot)),
        List.getElem?_set_self (Scheduler.length_of_getElem? hslot)]
    unfold leaves
    rw [slot_of hslot, hempty]
    simp only [hpcb]
  have hothers : ∀ other otherPcb, other ≠ started → w.scheduler.pcb other = some otherPcb →
      otherPcb.stage (Function.update w.scheduler.planifier i .waitingInit)
        = otherPcb.stage w.scheduler.planifier := by
    intro other otherPcb hne hother
    exact Scheduler.stage_other h.conserved h.threads hslot hother hne _
  obtain ⟨hend, rfl⟩ | ⟨hnext, hused, rfl⟩ | ⟨hnext, hunused, rfl⟩ := hcases
  · rw [hemptied _ rfl]
    refine h.lives_setPcb _ started rfl (fun other hne => record_of_ne hne _) hothers ?_
    rw [record_self]
    exact hlives.finish hend
  · rw [hemptied _ rfl]
    refine h.lives_setPcb _ started rfl (fun other hne => record_of_ne hne _) hothers ?_
    rw [record_self]
    exact hlives.expire hnext (h.configured ▸ hused)
  · -- it stays, and the next statement is started
    have hstays : w.leaves ((w.scheduler.pastSemaphore i).continueExec i started pcb) i
        = w.life := by
      have hafter : slot ((w.scheduler.pastSemaphore i).continueExec i started pcb) i
          = some started := slot_of hslot
      unfold leaves
      rw [slot_of hslot, hafter]
    rw [hstays]
    refine h.lives_setPcb _ started rfl (fun _ _ => rfl) hothers ?_
    obtain ⟨-, same, hsame, hrecently, -⟩ := Scheduler.slot_of_process hstarted
    obtain rfl := Option.some.inj (hpcb.symm.trans hsame)
    have hstage : ({ pcb with processor := i, quantum := pcb.quantum + 1 } : Pcb).stage
        (Function.update w.scheduler.planifier i .waitingInit) = .started := by
      show (match pcb.state with | .new | .ready => _ | .exit => _ | .exec => _) = _
      rw [hstate]
      show (if pcb.recentlyExec then _ else
        (Function.update w.scheduler.planifier i .waitingInit i).stage) = _
      rw [← hrecently, Function.update_self]
      rfl
    show Lives quantum _ _ (({ pcb with processor := i, quantum := pcb.quantum + 1 } : Pcb).stage
      (Function.update w.scheduler.planifier i .waitingInit))
    rw [hstage]
    exact hlives.next hnext (h.configured ▸ hunused) i

theorem OnScript.lives_shortTerm (h : w.OnScript multiprocessing quantum) (hquantum : 1 ≤ quantum)
    (hbody : w.scheduler.shortTermStep = some s') :
    ∀ other pcb, s'.pcb other = some pcb →
      Lives quantum pcb (w.observe s' .shortTerm other) (pcb.stage s'.planifier) := by
  unfold observe
  unfold Scheduler.shortTermStep at hbody
  cases hpoint : w.scheduler.shortTerm with
  | waiting =>
    simp only [hpoint] at hbody
    split_ifs at hbody
    obtain rfl := Option.some.inj hbody
    exact h.lives
  | slots i =>
    simp only [hpoint] at hbody ⊢
    split_ifs at hbody with hi
    · obtain ⟨after, hslot, rfl⟩ := Option.map_eq_some_iff.mp hbody
      have hlives := h.lives_slot hquantum hi hslot
      exact hlives
    · obtain rfl := Option.some.inj hbody
      -- past the last slot there is no process
      have hsame : w.enters { w.scheduler with shortTerm := .entries 0 } i = w.life := by
        have hnone : slot w.scheduler i = none := by
          rw [slot, List.getElem?_eq_none (Nat.le_of_not_lt hi)]
          rfl
        unfold enters
        rw [hnone]
        show (match (none : Option PcbPointer), slot w.scheduler i with
          | none, some pointer => _ | _, _ => _) = _
        rw [hnone]
      rw [hsame]
      exact h.lives
  | entries i =>
    simp only [hpoint] at hbody ⊢
    split_ifs at hbody with hi
    · obtain ⟨after, hentry, rfl⟩ := Option.map_eq_some_iff.mp hbody
      have hlives := h.lives_entry hi hentry
      exact hlives
    · obtain rfl := Option.some.inj hbody
      exact h.lives

/-- A loop body of a scheduler does not read the configuration. -/
theorem quantum_shortTerm {s : Scheduler} (hstep : s.shortTermStep = some s') :
    s'.quantum = s.quantum := by
  unfold Scheduler.shortTermStep at hstep
  split at hstep
  · split_ifs at hstep
    obtain rfl := Option.some.inj hstep
    rfl
  · split_ifs at hstep with hi
    · obtain ⟨after, hbody, rfl⟩ := Option.map_eq_some_iff.mp hstep
      obtain ⟨-, -, rfl⟩ | ⟨pointer, rest, pcb, -, -, -, ⟨-, rfl⟩ | ⟨-, rfl⟩⟩ |
        ⟨pointer, pcb, -, -, ⟨-, rfl⟩ | ⟨-, rfl⟩⟩ := Scheduler.scheduleSlot_cases hi hbody
      all_goals rfl
    · obtain rfl := Option.some.inj hstep
      rfl
  · split_ifs at hstep with hi
    · obtain ⟨after, hbody, rfl⟩ := Option.map_eq_some_iff.mp hstep
      obtain ⟨-, rfl⟩ | ⟨pointer, pcb, -, -, ⟨-, rfl⟩ | ⟨-, rfl⟩⟩ :=
        Scheduler.clearEntry_cases hi hbody
      all_goals rfl
    · obtain rfl := Option.some.inj hstep
      rfl

/-- No step but a reading of the configuration changes the quantum. -/
theorem quantum_step {s : Scheduler} (hkeeps : action.KeepsQuantum)
    (hstep : s.step action = some s') : s'.quantum = s.quantum := by
  cases action with
  | arrive pointer statements old processor =>
    replace hstep : (if s.pcb pointer = none then some (s.addProcess pointer
      (getNewPcb statements old processor)) else none) = some s' := hstep
    split_ifs at hstep
    obtain rfl := Option.some.inj hstep
    rfl
  | longTerm =>
    replace hstep : s.longTermStep = some s' := hstep
    unfold Scheduler.longTermStep at hstep
    split at hstep
    · split_ifs at hstep
      obtain rfl := Option.some.inj hstep
      rfl
    · obtain ⟨after, hbody, rfl⟩ := Option.map_eq_some_iff.mp hstep
      obtain ⟨pointer, rest, pcb, -, -, rfl⟩ | ⟨pointer, rest, pcb, -, -, -, rfl⟩ | ⟨-, -, rfl⟩ :=
        Scheduler.longTermSchedule_cases hbody
      all_goals rfl
  | shortTerm => exact quantum_shortTerm hstep
  | startStatement i =>
    replace hstep : s.startStatement i = some s' := hstep
    unfold Scheduler.startStatement at hstep
    split_ifs at hstep
    obtain ⟨pointer, -, hrest⟩ := Option.bind_eq_some_iff.mp hstep
    obtain ⟨pcb, -, hrest⟩ := Option.bind_eq_some_iff.mp hrest
    obtain ⟨statement, -, hs'⟩ := Option.bind_eq_some_iff.mp hrest
    obtain rfl := Option.some.inj hs'
    rfl
  | endStatement i errors =>
    replace hstep : s.endStatement i errors = some s' := hstep
    unfold Scheduler.endStatement at hstep
    split at hstep
    · obtain ⟨posted, hpost, rfl⟩ := Option.map_eq_some_iff.mp hstep
      obtain ⟨pcb, -, hposted⟩ := Option.bind_eq_some_iff.mp hpost
      obtain rfl := Option.some.inj hposted
      rfl
    · cases hstep
  | postStatement i =>
    replace hstep : s.postStatement i = some s' := hstep
    unfold Scheduler.postStatement at hstep
    split_ifs at hstep
    obtain ⟨pointer, pcb, -, -, ⟨-, rfl⟩ | rfl | rfl⟩ := Scheduler.planifierExecute_cases hstep
    all_goals rfl
  | configure quantum => exact hkeeps.elim

/-- **One step** keeps the lives of the processes on their scripts. -/
theorem OnScript.step (h : w.OnScript multiprocessing quantum) (hquantum : 1 ≤ quantum)
    (hkeeps : action.KeepsQuantum) (hstep : w.step action = some w') :
    w'.OnScript multiprocessing quantum := by
  obtain ⟨s', hs', rfl⟩ := Option.map_eq_some_iff.mp hstep
  have heffect := Scheduler.step_effect hs'
  refine ⟨h.conserved.step hs', Scheduler.threads_effect h.conserved h.threads heffect,
    (quantum_step hkeeps hs').trans h.configured, ?_⟩
  cases action with
  | arrive pointer statements old processor =>
    replace hs' : (if w.scheduler.pcb pointer = none then some (w.scheduler.addProcess pointer
      (getNewPcb statements old processor)) else none) = some s' := hs'
    split_ifs at hs'
    obtain rfl := Option.some.inj hs'
    exact h.lives_arrive statements old processor
  | longTerm =>
    replace hs' : w.scheduler.longTermStep = some s' := hs'
    unfold Scheduler.longTermStep at hs'
    split at hs'
    · split_ifs at hs'
      obtain rfl := Option.some.inj hs'
      exact h.lives
    · obtain ⟨after, hbody, rfl⟩ := Option.map_eq_some_iff.mp hs'
      have hlives := h.lives_longTerm hbody
      exact hlives
  | shortTerm => exact h.lives_shortTerm hquantum hs'
  | startStatement i => exact h.lives_startStatement hs'
  | endStatement i errors => exact h.lives_endStatement errors hs'
  | postStatement i => exact h.lives_postStatement hs'
  | configure quantum => exact hkeeps.elim

theorem onScript_setup (multiprocessing quantum : Nat) :
    OnScript multiprocessing quantum ⟨setupScheduler multiprocessing quantum, fun _ => .start⟩ := by
  have hwakeful := Scheduler.wakeful_setup multiprocessing quantum
  refine ⟨hwakeful.conserved, hwakeful.threads, rfl, fun pointer pcb hpcb => ?_⟩
  cases hpcb

end WatchedScheduler

/-! ## Scripts in order -/

section Order
variable {quantum : Nat} {pcb : Pcb} {life : Life} {stage : Stage}

/-- Statements without a failure, and possibly one more. -/
def Life.Shape (life : Life) (statements : List Statement) : Prop :=
  ∃ k, life.executed = ran statements k ∨
    ∃ statement failed, statements[k]? = some statement ∧
      life.executed = ran statements k ++ [⟨statement, failed⟩]

theorem Lives.shape (h : Lives quantum pcb life stage) : life.Shape pcb.statements := by
  have hat : AtStatement pcb life → life.Shape pcb.statements := by
    intro h
    exact ⟨pcb.programCounter, .inl h.executed⟩
  have hfailed : HasFailed pcb life → life.Shape pcb.statements := by
    intro h
    obtain ⟨k, statement, hstatement, hexecuted⟩ := h.executed
    exact ⟨k, .inr ⟨statement, some true, hstatement, hexecuted⟩⟩
  have hfollows := h.follows
  cases stage with
  | queued => exact hat hfollows
  | placed => exact hat hfollows.1
  | started => exact hat hfollows.1
  | executing =>
    obtain ⟨statement, hstatement, hexecuted⟩ := hfollows.1.executed
    exact ⟨pcb.programCounter, .inr ⟨statement, none, hstatement, hexecuted⟩⟩
  | answered => exact hfollows.1.elim hat hfailed
  | ended => exact hfollows.elim (fun h => hat h.1) hfailed

theorem map_statement_ran (statements : List Statement) (k : Nat) :
    (ran statements k).map Executed.statement = statements.take k := by
  rw [ran, List.map_map]
  exact List.map_id _

/-- The statements that were executed are the first ones of the script. -/
theorem Lives.isPrefix (h : Lives quantum pcb life stage) :
    life.executed.map Executed.statement <+: pcb.statements := by
  obtain ⟨k, hexecuted | ⟨statement, failed, hstatement, hexecuted⟩⟩ := h.shape
  · rw [hexecuted, map_statement_ran]
    exact List.take_prefix k _
  · have hnext : List.map Executed.statement (ran pcb.statements k ++ [⟨statement, failed⟩])
        = pcb.statements.take (k + 1) := by
      rw [List.map_append, map_statement_ran, List.take_add_one, hstatement]
      rfl
    rw [hexecuted, hnext]
    exact List.take_prefix (k + 1) _

/-- None but the last one failed. -/
theorem Lives.only_last (h : Lives quantum pcb life stage) :
    ∀ executed ∈ life.executed.dropLast, executed.failed = some false := by
  obtain ⟨k, hexecuted | ⟨statement, failed, -, hexecuted⟩⟩ := h.shape
  · intro executed hmem
    rw [hexecuted] at hmem
    exact ran_failed _ _ executed (List.dropLast_subset _ hmem)
  · intro executed hmem
    rw [hexecuted, List.dropLast_concat] at hmem
    exact ran_failed _ _ executed hmem

/-- A process that has come to its end has failed, or its whole script was executed. -/
theorem Lives.whole (h : Lives quantum pcb life .ended) :
    (∃ executed ∈ life.executed, executed.failed = some true) ∨
      life.executed.map Executed.statement = pcb.statements := by
  rcases h.follows with ⟨hat, hend⟩ | hfailed
  · right
    rw [hat.executed, map_statement_ran, hend, List.take_length]
  · obtain ⟨k, statement, -, hexecuted⟩ := hfailed.executed
    refine .inl ⟨⟨statement, some true⟩, ?_, rfl⟩
    rw [hexecuted]
    exact List.mem_concat_self

end Order

end Lissandra
